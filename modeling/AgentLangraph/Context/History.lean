import AgentLangraph.Context.Item

/-! Compressing a conversation: the character-level trim (`compress_conversation_history`), the
    semantic summary (`context_compressor.py`) and the reducer's wrapper that turns the result back
    into context items with fresh ids (`_compress_transcript_items`).

    What the summariser writes comes from a model or from the task state; only where it stands in
    the history and how its text is cut is decided here. -/

namespace AgentLangraph.Context
open PyText

/-- The fields of `SemanticContextSummary` that reach the prompt. -/
structure SummaryFields where
  goal : Text
  executedFacts : List Text
  openRisks : List Text

/-- Everything a reduction reads besides the items, the policy and the budget. -/
structure Env where
  host : Host
  settings : Settings
  /-- `_query_from_state`. -/
  query : Text
  summarize : List Message → SummaryFields

/-- `history[-n:]`; for `n = 0` that is the whole list. -/
def lastN (n : ℕ) (history : List Message) : List Message :=
  if n = 0 then history else history.drop (history.length - n)

def historyCharCount (history : List Message) : ℕ := (history.map (·.content.length)).sum

/-! ### Character-level trim -/

/-- The newest messages that fit; the first one that does not fit stops the walk. The argument is
    the history newest first, the result oldest first. -/
def keepNewest : ℕ → List Message → List Message
  | _, [] => []
  | budget, msg :: older =>
    if msg.content.length ≤ budget then keepNewest (budget - msg.content.length) older ++ [msg]
    else []

def omissionNote (host : Host) (omitted : ℕ) : Message where
  role := "system".toList
  content := "[Earlier conversation: ".toList ++ (toString omitted).toList ++
    " message(s) omitted to fit context limit]".toList
  at_ := .str host.nowIso
  data := PyDict.ofList
    [("surface".toList, .str "system".toList), ("outcome".toList, .str "compressed".toList)]

def compressConversationHistory (host : Host) (settings : Settings) (history : List Message) :
    List Message :=
  if settings.sessionCompressEnabled = false ∨ history = [] then history
  else
    let trimmed := lastN settings.sessionMaxHistoryTurns history
    if historyCharCount trimmed ≤ settings.sessionMaxHistoryChars then trimmed
    else
      let kept := keepNewest settings.sessionMaxHistoryChars trimmed.reverse
      let omitted := trimmed.length - kept.length
      if 0 < omitted then omissionNote host omitted :: kept else kept

/-! ### Semantic summary -/

def joinWith (sep : Text) (parts : List Text) : Text := List.intercalate sep parts

/-- `to_distant_history_message`. -/
def toDistantHistoryMessage (settings : Settings) (fields : SummaryFields) : Message :=
  let head := ["[Semantic context summary — distant history]".toList]
  let parts :=
    if fields.executedFacts = [] then head
    else head ++ ["Background facts: ".toList ++ joinWith "; ".toList (fields.executedFacts.take 16)]
  let parts :=
    if fields.openRisks = [] then parts
    else parts ++ ["Background risks: ".toList ++ joinWith "; ".toList (fields.openRisks.take 8)]
  let parts :=
    if parts.length = 1 ∧ fields.goal ≠ [] then
      parts ++ ["Prior topic: ".toList ++ fields.goal.take 240]
    else parts
  let content := strip (joinLines (parts.filter (· ≠ [])))
  { role := "system".toList
    content :=
      if settings.contextCompressSummaryMaxChars < content.length then
        content.take settings.contextCompressSummaryMaxChars ++ ['…']
      else content
    at_ := .str "semantic_compress".toList }

/-- `build_semantic_context_summary`: the fields and the recent messages, when it applies. -/
def buildSemanticContextSummary (env : Env) (history : List Message) :
    Option (SummaryFields × List Message) :=
  let keep := env.settings.contextCompressKeepRecentTurns
  if env.settings.contextCompressSemanticEnabled = false ∨ history = [] then none
  else if historyCharCount history < env.settings.contextCompressMinCharsForSemantic then none
  else some (env.summarize history, if 0 < keep then lastN keep history else [])

/-- `summary.raw_recent or history[-keep:]`. -/
def recentOr (keep : ℕ) (rawRecent history : List Message) : List Message :=
  if rawRecent = [] then lastN keep history else rawRecent

/-- The summary in front of the recent messages, cut again when that is still too long. -/
def withSummary (settings : Settings) (summary : Message) (recent : List Message) : List Message :=
  let merged := summary :: recent
  if settings.sessionMaxHistoryChars < historyCharCount merged ∧ 2 < merged.length then
    summary :: lastN (max 1 settings.contextCompressKeepRecentTurns) merged
  else merged

def applySemanticContextCompress (env : Env) (history : List Message) : List Message :=
  match buildSemanticContextSummary env history with
  | none => history
  | some (fields, rawRecent) =>
    withSummary env.settings (toDistantHistoryMessage env.settings fields)
      (recentOr env.settings.contextCompressKeepRecentTurns rawRecent history)

/-! ### Back to items -/

/-- The message an item was made from. -/
def itemToMessage (i : ContextItem) : Message where
  role := i.role
  content := i.content
  at_ := metaGet i.data "at"

def isSystemRole (msg : Message) : Bool := msg.role == "system".toList

def isSemanticSummary (msg : Message) : Bool :=
  msg.at_ == .str "semantic_compress".toList ||
    contains msg.content "[Semantic context summary]".toList

/-- One item of a compressed transcript; `n` numbers the id drawn for it. -/
def transcriptItem (host : Host) (n : ℕ) (msg : Message) : ContextItem :=
  let item := estimateItemTokens (fromMessage (newContextId host "ctx" n) msg
    (if isSystemRole msg then .semanticSummary else .recentHistory) .session
    (if isSystemRole msg then .high else .medium) true false)
  if isSemanticSummary msg then
    { item with kind := .semanticSummary, bucket := some .semanticSummary, priority := .high }
  else item

def transcriptItemsFrom (host : Host) : ℕ → List Message → List ContextItem
  | _, [] => []
  | n, msg :: msgs => transcriptItem host n msg :: transcriptItemsFrom host (n + 1) msgs

def compressMessages (env : Env) (history : List Message) : List Message :=
  if env.settings.contextCompressSemanticEnabled then applySemanticContextCompress env history
  else compressConversationHistory env.host env.settings history

/-- `_compress_transcript_items`; `n` is the number of ids drawn so far. -/
def compressTranscriptItems (env : Env) (n : ℕ) (items : List ContextItem) : List ContextItem :=
  if items = [] then items
  else transcriptItemsFrom env.host n (compressMessages env (items.map itemToMessage))

/-! ### Ids of compressed items -/

@[simp] theorem transcriptItem_id (host : Host) (n : ℕ) (msg : Message) :
    (transcriptItem host n msg).id = newContextId host "ctx" n := by
  rw [transcriptItem]
  split_ifs <;> simp [fromMessage]

@[simp] theorem transcriptItem_droppable (host : Host) (n : ℕ) (msg : Message) :
    (transcriptItem host n msg).droppable = false := by
  rw [transcriptItem]
  split_ifs <;> simp [fromMessage]

theorem mem_transcriptItemsFrom {host : Host} : ∀ {msgs : List Message} {n : ℕ} {i : ContextItem},
    i ∈ transcriptItemsFrom host n msgs →
      ∃ k msg, n ≤ k ∧ k < n + msgs.length ∧ i = transcriptItem host k msg
  | [], _, _, h => by simp [transcriptItemsFrom] at h
  | msg :: msgs, n, i, h => by
      rw [transcriptItemsFrom, List.mem_cons] at h
      rw [List.length_cons]
      rcases h with rfl | h
      · exact ⟨n, msg, le_rfl, by omega, rfl⟩
      · obtain ⟨k, m, hk, hk', rfl⟩ := mem_transcriptItemsFrom h
        exact ⟨k, m, by omega, by omega, rfl⟩

@[simp] theorem length_transcriptItemsFrom (host : Host) : ∀ (msgs : List Message) (n : ℕ),
    (transcriptItemsFrom host n msgs).length = msgs.length
  | [], _ => rfl
  | _ :: msgs, n => by simp [transcriptItemsFrom, length_transcriptItemsFrom host msgs]

end AgentLangraph.Context
