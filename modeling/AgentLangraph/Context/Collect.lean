import AgentLangraph.Context.History

/-! Collecting the conversation (`collect_context_items` of the prompt context gateway): the goal of
    the turn, the history entries the model may see, and the working memory become context items.
    `draw k` is the id drawn for the `k`-th collected item; ids are random, so nothing is known about
    their order. The way back, from kept items to messages, is `conversation_history_for_payload`. -/

namespace AgentLangraph.Context
open PyText

/-! ### What the model may see of the history -/

def systemAssistantPrefixes : List Text :=
  ["task rejected".toList, "task rejected by policy or human review".toList]

def isSystemSurfaceMessage (host : Host) (content : Text) : Bool :=
  let text := host.lower (strip content)
  if text = [] then true else startswithAny text systemAssistantPrefixes

/-- `conversation_history_for_llm`: surface boilerplate is left out, meta is stripped. -/
def conversationHistoryForLlm (host : Host) : List Message → List Message
  | [] => []
  | msg :: history =>
    if metaGet msg.data "surface" = .str "system".toList then
      conversationHistoryForLlm host history
    else if msg.role = "assistant".toList ∧ isSystemSurfaceMessage host msg.content then
      conversationHistoryForLlm host history
    else
      { role := msg.role, content := msg.content, at_ := msg.at_ } ::
        conversationHistoryForLlm host history

/-! ### Items -/

def goalItem (id goal : Text) : ContextItem where
  id := id
  kind := .userTurn
  source := .session
  role := "user".toList
  content := goal
  priority := .critical
  compressible := false
  droppable := false
  bucket := some .currentTurn

def historyItem (id : Text) (msg : Message) : ContextItem :=
  fromMessage id msg .recentHistory .session .medium true false

/-- The history entries, the one that repeats the goal left out; `n` ids were drawn before. -/
def historyItemsFrom (goal : Text) (draw : ℕ → Text) : ℕ → List Message → List ContextItem
  | _, [] => []
  | n, msg :: msgs =>
    if goal ≠ [] ∧ strip msg.content = goal then historyItemsFrom goal draw n msgs
    else historyItem ("ctx_".toList ++ draw n) msg :: historyItemsFrom goal draw (n + 1) msgs

def collectHistory (host : Host) (goal : Text) (draw : ℕ → Text) (n : ℕ) (history : List Message) :
    List ContextItem :=
  historyItemsFrom goal draw n (conversationHistoryForLlm host history)

/-- `WorkingMemory`, the fields that are rendered. -/
structure WorkingMemory where
  goal : Text := []
  hardConstraints : List Text := []
  currentPlan : List Text := []
  executedActions : List Text := []
  toolOutcomes : List Text := []
  pendingTodos : List Text := []
  openRisks : List Text := []
  currentTargetFiles : List Text := []
  activeDiagnostics : List Text := []

/-- A line of the working memory, absent when there is nothing to say. -/
def memoryLine (label : String) (sep : String) (n : ℕ) (parts : List Text) : List Text :=
  if parts = [] then [] else [label.toList ++ joinWith sep.toList (parts.take n)]

/-- `WorkingMemory.to_text`. -/
def WorkingMemory.toText (wm : WorkingMemory) : Text :=
  strip <| joinLines <| ["[Working memory]".toList] ++
    (if wm.goal = [] then [] else ["Goal: ".toList ++ wm.goal]) ++
    memoryLine "Constraints: " "; " 12 wm.hardConstraints ++
    memoryLine "Plan: " " → " 8 wm.currentPlan ++
    memoryLine "Actions: " "; " 12 wm.executedActions ++
    memoryLine "Tools: " "; " 12 wm.toolOutcomes ++
    memoryLine "Todos: " "; " 12 wm.pendingTodos ++
    memoryLine "Risks: " "; " 8 wm.openRisks ++
    memoryLine "Files: " ", " 8 wm.currentTargetFiles ++
    memoryLine "Diagnostics: " "; " 6 wm.activeDiagnostics

def WorkingMemory.toContextItem (wm : WorkingMemory) (id : Text) : ContextItem where
  id := id
  kind := .workingMemory
  source := .state
  role := "system".toList
  content := wm.toText
  priority := .high
  compressible := true
  droppable := false
  bucket := some .workingMemory
  data := PyDict.ofList [("version".toList, .str "wm_v1".toList)]

/-! ### Back to messages -/

/-- The message rendered for an item: `at` only when there is one. The other meta is left out. -/
def payloadMessage (i : ContextItem) : Message where
  role := i.role
  content := i.content
  at_ := (metaGet i.data "at").orElse .none

/-- The kept items that `conversation_history_for_payload` renders, in their order. -/
def payloadItems (kept : List ContextItem) : List ContextItem :=
  kept.filter fun i => i.kind ∈ [.recentHistory, .semanticSummary, .userTurn]

def conversationHistoryForPayload (kept : List ContextItem) : List Message :=
  (payloadItems kept).map payloadMessage

/-! ### Facts about collected history -/

/-- A message without meta leaves an entry with its time only. -/
theorem metaGet_historyItem (id : Text) {msg : Message} (h : msg.data = PyDict.empty) {key : String}
    (hkey : key ≠ "at") : metaGet (historyItem id msg).data key = .none := by
  have hne : "at".toList ≠ key.toList := fun heq => hkey (String.toList_inj.1 heq).symm
  have hdata : (historyItem id msg).data = (PyDict.empty : Meta).set "at".toList msg.at_ := by
    rw [historyItem, fromMessage, h]
    rfl
  rw [hdata, metaGet, PyDict.getD, PyDict.get?_set_ne _ hne]
  rfl

theorem historyItem_role_ne_nil (id : Text) (msg : Message) : (historyItem id msg).role ≠ [] := by
  simp only [historyItem, fromMessage]
  split_ifs with h
  · decide
  · exact h

/-- A collected history entry is the history item of some message without meta. -/
theorem mem_historyItemsFrom {goal : Text} {draw : ℕ → Text} (msgs : List Message) :
    ∀ {n : ℕ} {i : ContextItem}, i ∈ historyItemsFrom goal draw n msgs →
      ∃ k, ∃ msg ∈ msgs, i = historyItem ("ctx_".toList ++ draw k) msg := by
  induction msgs with
  | nil => intro n i h; simp [historyItemsFrom] at h
  | cons msg msgs ih =>
    intro n i h
    rw [historyItemsFrom] at h
    split_ifs at h with hskip
    · obtain ⟨k, m, hm, rfl⟩ := ih h
      exact ⟨k, m, List.mem_cons_of_mem _ hm, rfl⟩
    · rcases List.mem_cons.1 h with rfl | h
      · exact ⟨n, msg, List.mem_cons_self, rfl⟩
      · obtain ⟨k, m, hm, rfl⟩ := ih h
        exact ⟨k, m, List.mem_cons_of_mem _ hm, rfl⟩

theorem conversationHistoryForLlm_data {host : Host} (history : List Message) :
    ∀ msg ∈ conversationHistoryForLlm host history, msg.data = PyDict.empty := by
  induction history with
  | nil => simp [conversationHistoryForLlm]
  | cons m history ih =>
    rw [conversationHistoryForLlm]
    split_ifs
    · exact ih
    · exact ih
    · rw [List.forall_mem_cons]
      exact ⟨rfl, ih⟩

end AgentLangraph.Context
