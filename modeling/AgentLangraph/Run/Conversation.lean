import AgentLangraph.Context.Required
import AgentLangraph.Lib.Trace
import AgentLangraph.Run.TurnReset

/-! The conversation of a session (`conversation_context.py`, `session_turn.py`). A turn appends the user's
    message to the history and compresses it; the reset that follows is given the new list and the old
    one, and takes the longer of the two.

        old ──┬── append ── compress ──▶ new ──┬── the longer one ──▶ both copies
              └────────────────────────────────┘ -/

namespace AgentLangraph.Run
open PyText Session Context Trace

/-- A stored state with the two copies of its conversation: the entry `conversation_history` of the payload
    and the field of that name. -/
structure Conversed where
  record : AgentState
  payloadHistory : List Message
  history : List Message

def Conversed.Agree (s : Conversed) : Prop := s.payloadHistory = s.history

/-- `conversation_history_from_state`. -/
def conversationHistoryFromState (payloadHist stateHist : List Message) : List Message :=
  if payloadHist = [] then stateHist
  else if stateHist = [] then payloadHist
  else if stateHist.length ≤ payloadHist.length then payloadHist
  else stateHist

/-- `append_message`. -/
def appendMessage (host : Host) (history : List Message) (role content : Text)
    (data : Meta := PyDict.empty) : List Message :=
  let text := strip content
  if text = [] then history
  else if history.getLast?.any fun last => last.role == role && last.content == text then history
  else history ++ [{ role := role, content := text, at_ := .str host.nowIso, data := data }]

/-- `compress_session_history`. -/
def compressSessionHistory (env : Env) (history : List Message) : List Message :=
  if history = [] then history
  else if env.settings.contextCompressSemanticEnabled && (buildSemanticContextSummary env history).isSome then
    applySemanticContextCompress env history
  else compressConversationHistory env.host env.settings history

/-- `apply_conversation_history`. -/
def applyConversationHistory (s : Conversed) (history : List Message) : Conversed :=
  { s with payloadHistory := history, history := history }

/-! ### The turn of a message -/

/-- The history of `build_inbound_merged_payload`. -/
def inboundHistory (env : Env) (existing : Conversed) (goal : Text) : List Message :=
  let history := conversationHistoryFromState existing.payloadHistory existing.history
  let history := if goal = [] then history else appendMessage env.host history "user".toList goal
  compressSessionHistory env history

/-- The histories of `_reset_execution_fields`, for a payload with this one. -/
def resetHistory (s : Conversed) (record : AgentState) (payloadHist : List Message) : Conversed :=
  let history := conversationHistoryFromState payloadHist s.history
  { record := record, payloadHistory := history, history := history }

/-- The session that `prepare_session_turn` goes on with. -/
def continuedSession (row : Option Conversed) (sessionId : Text) (newSession : Bool) : Option Conversed :=
  row.filter fun existing => !newSession && existing.record.sessionId == sessionId

/-- `prepare_session_turn`, with the conversation. -/
def prepareConversation (env : Env) (w : Surroundings) (c : Companions) (row : Option Conversed)
    (sessionId : Text) (newSession : Bool) (request : Fields) : Conversed :=
  let record := (prepareSessionTurn w (row.map (·.record)) sessionId newSession (turnPayload c request)).1
  let goal := requestGoal request
  match continuedSession row sessionId newSession with
  | some existing => resetHistory existing record (inboundHistory env existing goal)
  | none =>
    let history := if goal = [] then [] else appendMessage env.host [] "user".toList goal
    { record := record, payloadHistory := history, history := history }

/-! ### The other writers of the conversation -/

/-- `finalize_turn_history`, with the answer that is kept, if one is. -/
def finalizeTurnHistory (env : Env) (s : Conversed) (answer : Option (Text × Meta)) : Conversed :=
  let history := conversationHistoryFromState s.payloadHistory s.history
  applyConversationHistory s <| match answer with
    | some (text, data) =>
      compressSessionHistory env (appendMessage env.host history "assistant".toList text data)
    | none => history

/-- The histories of `prepare_auto_batch_turn`. -/
def autoBatchHistory (s : Conversed) (record : AgentState) (goal : Text) : Conversed :=
  resetHistory s record (s.payloadHistory ++ [{
    role := "user".toList
    content := goal
    data := PyDict.ofList [("auto_batch".toList, .bool true)] }])

/-- The compaction that is asked for (`prompt_context_gateway.py`). -/
def compactHistory (env : Env) (s : Conversed) : Conversed :=
  applyConversationHistory s
    (compressSessionHistory env (conversationHistoryFromState s.payloadHistory s.history))

inductive ConversationEvent
  /-- A request is prepared, and the state stored. -/
  | message (env : Env) (w : Surroundings) (c : Companions) (newSession : Bool) (request : Fields)
  | finalized (env : Env) (answer : Option (Text × Meta))
  | autoBatch (record : AgentState) (goal : Text)
  | compacted (env : Env)
  /-- Whatever else the graph does to the state. -/
  | graph (record : AgentState)

/-- One event of a session. -/
def converse (sessionId : Text) (row : Option Conversed) : ConversationEvent → Option Conversed
  | .message env w c newSession request =>
    some (prepareConversation env w c row sessionId newSession request)
  | .finalized env answer => row.map (finalizeTurnHistory env · answer)
  | .autoBatch record goal => row.map (autoBatchHistory · record goal)
  | .compacted env => row.map (compactHistory env)
  | .graph record => row.map fun s => { s with record := record }

/-- The history ends with the text as a message of the user. -/
def EndsWithUser (history : List Message) (goal : Text) : Prop :=
  ∃ last ∈ history.getLast?, last.role = "user".toList ∧ last.content = goal

/-- The goal is one that the history has to take: compressed by characters, and short enough for it. -/
def Due (env : Env) (goal : Text) : Prop :=
  env.settings.contextCompressSemanticEnabled = false ∧ goal ≠ [] ∧
    goal.length ≤ env.settings.sessionMaxHistoryChars

/-- Where an event is the message of a user, that message reaches the turn. -/
def MessageReaches (sessionId : Text) (row : Option Conversed) : ConversationEvent → Prop
  | .message env w c newSession request =>
    Due env (requestGoal request) →
      let prepared := prepareConversation env w c row sessionId newSession request
      EndsWithUser prepared.payloadHistory (requestGoal request) ∧
        EndsWithUser prepared.history (requestGoal request)
  | _ => True

/-- The message drops no more than two of the old ones: they are as many as the turns that are kept, at most,
    and all but the first two leave room for it. -/
def LeavesRoom (settings : Settings) (old : List Message) (goal : Text) : Prop :=
  settings.sessionCompressEnabled = false ∨ EndsWithUser old goal ∨
    (settings.sessionMaxHistoryTurns = 0 ∨ old.length ≤ settings.sessionMaxHistoryTurns) ∧
      historyCharCount (old.drop 2) + goal.length ≤ settings.sessionMaxHistoryChars

/-- A message to a session that is stored finds room for it. -/
def FindsRoom (sessionId : Text) (row : Option Conversed) : ConversationEvent → Prop
  | .message env _ _ newSession request =>
    Due env (requestGoal request) → ∀ existing ∈ continuedSession row sessionId newSession,
      LeavesRoom env.settings existing.history (requestGoal request)
  | _ => True

instance (history : List Message) (goal : Text) : Decidable (EndsWithUser history goal) :=
  inferInstanceAs (Decidable (∃ last ∈ history.getLast?, _ ∧ _))

instance (env : Env) (goal : Text) : Decidable (Due env goal) := inferInstanceAs (Decidable (_ ∧ _))

instance (settings : Settings) (old : List Message) (goal : Text) :
    Decidable (LeavesRoom settings old goal) :=
  inferInstanceAs (Decidable (_ ∨ _ ∨ _))

instance (sessionId : Text) (row : Option Conversed) : (e : ConversationEvent) →
    Decidable (FindsRoom sessionId row e)
  | .message env _ _ newSession request =>
    inferInstanceAs (Decidable (Due env (requestGoal request) →
      ∀ existing ∈ continuedSession row sessionId newSession, _))
  | .finalized .. | .autoBatch .. | .compacted .. | .graph .. => .isTrue trivial

/-! ### Both copies -/

theorem conversationHistoryFromState_self (history : List Message) :
    conversationHistoryFromState history history = history := by
  simp [conversationHistoryFromState]

theorem converse_agree (sessionId : Text) (row : Option Conversed) (e : ConversationEvent)
    (h : ∀ s ∈ row, s.Agree) : ∀ s ∈ converse sessionId row e, s.Agree := by
  intro s hs
  cases e with
  | message env w c newSession request =>
    rw [converse, Option.mem_def, Option.some.injEq] at hs
    rw [← hs, prepareConversation]
    cases continuedSession row sessionId newSession <;> rfl
  | graph record =>
    obtain ⟨old, hold, rfl⟩ := Option.mem_map.1 hs
    exact h old hold
  | finalized | autoBatch | compacted =>
    obtain ⟨old, -, rfl⟩ := Option.mem_map.1 hs
    rfl

/-! ### How many messages are kept -/

theorem le_length_keepNewest {n : ℕ} : ∀ {newestFirst : List Message} {budget : ℕ},
    n ≤ (keepNewest budget newestFirst).length ↔
      n ≤ newestFirst.length ∧ historyCharCount (newestFirst.take n) ≤ budget := by
  intro newestFirst
  induction newestFirst generalizing n with
  | nil => simp [keepNewest, historyCharCount]
  | cons msg older ih =>
    intro budget
    cases n with
    | zero => simp [historyCharCount]
    | succ n =>
      have hsum : historyCharCount ((msg :: older).take (n + 1)) =
          msg.content.length + historyCharCount (older.take n) := by
        simp [historyCharCount]
      rw [hsum, keepNewest, List.length_cons]
      split_ifs with hfit
      · rw [List.length_append, List.length_singleton, Nat.add_le_add_iff_right, ih]
        omega
      · simp only [List.length_nil]
        omega

theorem historyCharCount_append (a b : List Message) :
    historyCharCount (a ++ b) = historyCharCount a + historyCharCount b := by
  simp [historyCharCount]

theorem historyCharCount_reverse (a : List Message) :
    historyCharCount a.reverse = historyCharCount a := by
  simp [historyCharCount, List.sum_reverse]

theorem historyCharCount_drop_le {i j : ℕ} (h : i ≤ j) (history : List Message) :
    historyCharCount (history.drop j) ≤ historyCharCount (history.drop i) := by
  obtain ⟨d, rfl⟩ := Nat.exists_eq_add_of_le h
  rw [← List.take_append_drop d (history.drop i), historyCharCount_append, List.drop_drop]
  exact Nat.le_add_left _ _

theorem lastN_eq_drop (n : ℕ) (history : List Message) :
    lastN n history = history.drop (if n = 0 then 0 else history.length - n) := by
  rw [lastN]
  split_ifs <;> rfl

/-- The newest of a list of which `k` messages are dropped, and one is added. -/
theorem take_reverse_trimmed {old : List Message} {k n : ℕ} (hk : k ≤ 1) (hn : n + 2 = old.length)
    (msg : Message) : (old.drop k ++ [msg]).reverse.take (n + 1) = (old.drop 2 ++ [msg]).reverse := by
  rw [List.reverse_concat, List.reverse_concat, List.take_succ_cons, List.take_reverse, List.drop_drop]
  congr 3
  rw [List.length_drop]
  omega

/-- What compression leaves of a history with a new message that fits is as long as the old history exactly
    when no more than two of the old messages are dropped. -/
theorem length_le_compress_iff (host : Host) {settings : Settings} (old : List Message) {msg : Message}
    (hon : settings.sessionCompressEnabled = true)
    (hfit : msg.content.length ≤ settings.sessionMaxHistoryChars) :
    old.length ≤ (compressConversationHistory host settings (old ++ [msg])).length ↔
      (settings.sessionMaxHistoryTurns = 0 ∨ old.length ≤ settings.sessionMaxHistoryTurns) ∧
        historyCharCount (old.drop 2) + msg.content.length ≤ settings.sessionMaxHistoryChars := by
  obtain ⟨k, hk, hturns, htrimmed⟩ : ∃ k ≤ old.length,
      ((settings.sessionMaxHistoryTurns = 0 ∨ old.length ≤ settings.sessionMaxHistoryTurns) ↔ k ≤ 1) ∧
        lastN settings.sessionMaxHistoryTurns (old ++ [msg]) = old.drop k ++ [msg] := by
    have hle : (if settings.sessionMaxHistoryTurns = 0 then 0
        else (old ++ [msg]).length - settings.sessionMaxHistoryTurns) ≤ old.length := by
      rw [List.length_append, List.length_singleton]
      split_ifs <;> omega
    refine ⟨_, hle, ?_, by rw [lastN_eq_drop, List.drop_append_of_le_length hle]⟩
    rw [List.length_append, List.length_singleton]
    split_ifs <;> omega
  have hcount : historyCharCount (old.drop k ++ [msg]) =
      historyCharCount (old.drop k) + msg.content.length := by
    rw [historyCharCount_append]
    rfl
  rw [hturns, compressConversationHistory, if_neg (by simp [hon])]
  dsimp only
  rw [htrimmed, hcount]
  split_ifs with hall hdropped
  · -- all that the turns leave fits
    rw [List.length_append, List.length_singleton, List.length_drop]
    constructor
    · intro hlen
      have hmono := historyCharCount_drop_le (show k ≤ 2 by omega) old
      exact ⟨by omega, by omega⟩
    · intro h
      omega
  · rw [List.length_cons]
    set kept := (keepNewest settings.sessionMaxHistoryChars (old.drop k ++ [msg]).reverse).length
    have hlength : (old.drop k ++ [msg]).length = old.length - k + 1 := by simp
    rcases Nat.lt_or_ge old.length 2 with hshort | hlong
    · -- a note and the message are enough
      have hone : 1 ≤ kept := by
        refine le_length_keepNewest.2 ⟨by simp, ?_⟩
        simpa [historyCharCount] using hfit
      have hnone : old.drop 2 = [] := List.drop_eq_nil_of_le hshort.le
      rw [hnone]
      simp only [historyCharCount, List.map_nil, List.sum_nil]
      omega
    · obtain ⟨n, hn⟩ : ∃ n, n + 2 = old.length := ⟨old.length - 2, by omega⟩
      have hkept : n + 1 ≤ kept ↔ n + 1 ≤ (old.drop k ++ [msg]).length ∧ historyCharCount
          ((old.drop k ++ [msg]).reverse.take (n + 1)) ≤ settings.sessionMaxHistoryChars := by
        rw [← List.length_reverse]
        exact le_length_keepNewest
      constructor
      · intro hlen
        have hkone : k ≤ 1 := by omega
        have hsum := (hkept.1 (by omega)).2
        rw [take_reverse_trimmed hkone hn, historyCharCount_reverse, historyCharCount_append] at hsum
        exact ⟨hkone, hsum⟩
      · rintro ⟨hkone, hsum⟩
        have hnewest : n + 1 ≤ kept := by
          refine hkept.2 ⟨by omega, ?_⟩
          rw [take_reverse_trimmed hkone hn, historyCharCount_reverse, historyCharCount_append]
          exact hsum
        omega
  · -- nothing is dropped, so everything fits
    exfalso
    refine hall ?_
    rw [← hcount]
    have hevery : (old.drop k ++ [msg]).length ≤
        (keepNewest settings.sessionMaxHistoryChars (old.drop k ++ [msg]).reverse).length := by omega
    have hsum := (le_length_keepNewest.1 hevery).2
    rwa [← List.length_reverse, List.take_length, historyCharCount_reverse] at hsum

/-! ### The message in the new history -/

theorem endsWithUser_concat (pre : List Message) (msg : Message) (goal : Text) :
    EndsWithUser (pre ++ [msg]) goal ↔ msg.role = "user".toList ∧ msg.content = goal := by
  simp [EndsWithUser]

/-- The longer one of the new history, which is never empty, and the old one. -/
theorem conversationHistoryFromState_of_ne_nil {new : List Message} (h : new ≠ []) (old : List Message) :
    conversationHistoryFromState new old = if old.length ≤ new.length then new else old := by
  rw [conversationHistoryFromState, if_neg h]
  by_cases hold : old = []
  · simp [hold]
  · rw [if_neg hold]

theorem appendMessage_of_endsWithUser (host : Host) {history : List Message} {goal : Text}
    (hstrip : strip goal = goal) (h : EndsWithUser history goal) :
    appendMessage host history "user".toList goal = history := by
  obtain ⟨last, hlast, hrole, hcontent⟩ := h
  rw [Option.mem_def] at hlast
  simp [appendMessage, hstrip, hlast, hrole, hcontent]

theorem appendMessage_of_not_endsWithUser (host : Host) {history : List Message} {goal : Text}
    (hstrip : strip goal = goal) (hgoal : goal ≠ []) (h : ¬ EndsWithUser history goal) :
    appendMessage host history "user".toList goal =
      history ++ [{ role := "user".toList, content := goal, at_ := .str host.nowIso }] := by
  have hlast : ¬ (history.getLast?.any fun last => last.role == "user".toList && last.content == goal) := by
    rw [Option.any_eq_true]
    rintro ⟨last, hlast, hsame⟩
    rw [Bool.and_eq_true, beq_iff_eq, beq_iff_eq] at hsame
    exact h ⟨last, hlast, hsame⟩
  rw [appendMessage, hstrip, if_neg hgoal, if_neg hlast]

theorem compressSessionHistory_of_off {env : Env}
    (h : env.settings.contextCompressSemanticEnabled = false) (history : List Message) :
    compressSessionHistory env history = compressConversationHistory env.host env.settings history := by
  rw [compressSessionHistory]
  split_ifs with hnil hon
  · rw [hnil, compressConversationHistory, if_pos (Or.inr rfl)]
  · simp [h] at hon
  · rfl

/-- The history of the turn ends with the message exactly when there is room for it. -/
theorem endsWithUser_iff (env : Env) {existing : Conversed} (hagree : existing.Agree) {goal : Text}
    (hstrip : strip goal = goal) (hdue : Due env goal) :
    EndsWithUser (conversationHistoryFromState (inboundHistory env existing goal) existing.history) goal ↔
      LeavesRoom env.settings existing.history goal := by
  obtain ⟨hoff, hgoal, hfit⟩ := hdue
  rw [inboundHistory, hagree, conversationHistoryFromState_self, if_neg hgoal,
    compressSessionHistory_of_off hoff]
  generalize existing.history = old
  by_cases hends : EndsWithUser old goal
  · rw [appendMessage_of_endsWithUser _ hstrip hends]
    refine iff_of_true ?_ (Or.inr (Or.inl hends))
    obtain ⟨last, hlast, hmsg⟩ := hends
    obtain ⟨older, rfl⟩ := List.getLast?_eq_some_iff.1 hlast
    obtain ⟨pre, hpre⟩ := compressConversationHistory_concat env.host (hmsg.2 ▸ hfit) older
    rw [hpre, conversationHistoryFromState_of_ne_nil (by simp)]
    split_ifs
    · exact (endsWithUser_concat pre last goal).2 hmsg
    · exact (endsWithUser_concat older last goal).2 hmsg
  · rw [appendMessage_of_not_endsWithUser _ hstrip hgoal hends]
    set msg : Message := { role := "user".toList, content := goal, at_ := .str env.host.nowIso }
    obtain ⟨pre, hpre⟩ := compressConversationHistory_concat env.host (show msg.content.length ≤ _ from hfit) old
    have hne : compressConversationHistory env.host env.settings (old ++ [msg]) ≠ [] := by simp [hpre]
    have hchoice : EndsWithUser (conversationHistoryFromState
        (compressConversationHistory env.host env.settings (old ++ [msg])) old) goal ↔
        old.length ≤ (compressConversationHistory env.host env.settings (old ++ [msg])).length := by
      rw [conversationHistoryFromState_of_ne_nil hne]
      split_ifs with hlen
      · refine iff_of_true ?_ hlen
        rw [hpre]
        exact (endsWithUser_concat pre msg goal).2 ⟨rfl, rfl⟩
      · exact iff_of_false hends hlen
    rw [hchoice, LeavesRoom]
    cases hon : env.settings.sessionCompressEnabled with
    | false =>
      refine iff_of_true ?_ (Or.inl rfl)
      rw [compressConversationHistory, if_pos (Or.inl hon)]
      simp
    | true =>
      rw [length_le_compress_iff env.host old hon (show msg.content.length ≤ _ from hfit)]
      simp [hends, msg]

theorem strip_requestGoal (request : Fields) : strip (requestGoal request) = requestGoal request :=
  strip_strip _

/-- Both copies of a prepared turn are the same list. -/
theorem prepareConversation_agree (env : Env) (w : Surroundings) (c : Companions) (row : Option Conversed)
    (sessionId : Text) (newSession : Bool) (request : Fields) :
    (prepareConversation env w c row sessionId newSession request).Agree := by
  rw [prepareConversation]
  cases continuedSession row sessionId newSession <;> rfl

theorem messageReaches_iff (sessionId : Text) (row : Option Conversed) (e : ConversationEvent)
    (h : ∀ s ∈ row, s.Agree) : MessageReaches sessionId row e ↔ FindsRoom sessionId row e := by
  cases e with
  | message env w c newSession request =>
    refine imp_congr_right fun hdue => ?_
    have hagree : (prepareConversation env w c row sessionId newSession request).Agree :=
      prepareConversation_agree env w c row sessionId newSession request
    dsimp only
    rw [hagree, and_self, prepareConversation]
    cases hcont : continuedSession row sessionId newSession with
    | some existing =>
      have hexisting : existing ∈ row := (Option.filter_eq_some_iff.1 hcont).1
      have hiff := endsWithUser_iff env (h existing hexisting) (strip_requestGoal request) hdue
      simpa [resetHistory] using hiff
    | none =>
      refine iff_of_true ?_ (by simp)
      dsimp only
      rw [if_neg hdue.2.1, appendMessage_of_not_endsWithUser _ (strip_requestGoal request) hdue.2.1
        (by simp [EndsWithUser])]
      exact (endsWithUser_concat [] _ _).2 ⟨rfl, rfl⟩
  | _ => exact Iff.rfl

/-- In a run, every message reaches its turn exactly when every message finds room. -/
theorem along_messageReaches_iff (sessionId : Text) {row : Option Conversed} (hrow : ∀ s ∈ row, s.Agree)
    (events : List ConversationEvent) :
    Along (converse sessionId) (MessageReaches sessionId) row events ↔
      Along (converse sessionId) (FindsRoom sessionId) row events :=
  along_iff (messageReaches_iff sessionId) (fun s e hs _ => converse_agree sessionId s e hs) events row hrow

/-- NOT CORRECT: a message of a user, however short, is lost where the history would drop more than two older
    ones to take it. It reaches the turn exactly when there is room: for every stored session whose copies
    agree, and in every run of a session, at every message of it. -/
theorem message_reaches_iff (sessionId : Text) :
    (∀ (existing : Conversed) (env : Env) (w : Surroundings) (c : Companions) (request : Fields),
      existing.Agree → existing.record.sessionId = sessionId → Due env (requestGoal request) →
        let prepared := prepareConversation env w c (some existing) sessionId false request
        (EndsWithUser prepared.payloadHistory (requestGoal request) ∧
            EndsWithUser prepared.history (requestGoal request) ↔
          LeavesRoom env.settings existing.history (requestGoal request))) ∧
    ∀ (row : Option Conversed) (events : List ConversationEvent), (∀ s ∈ row, s.Agree) →
      (Along (converse sessionId) (MessageReaches sessionId) row events ↔
        Along (converse sessionId) (FindsRoom sessionId) row events) := by
  constructor
  · intro existing env w c request hagree hsession hdue
    have hrow : ∀ s ∈ some existing, s.Agree := by simpa using hagree
    have hcont : continuedSession (some existing) sessionId false = some existing := by
      simp [continuedSession, Option.filter, hsession]
    have hiff := messageReaches_iff sessionId (some existing) (.message env w c false request) hrow
    simpa [MessageReaches, FindsRoom, hdue, hcont] using hiff
  · exact fun _ events hrow => along_messageReaches_iff sessionId hrow events

/-- Histories of no more than forty characters. -/
def narrow : Env where
  host := asciiHost []
  settings := { sessionMaxHistoryChars := 40 }
  query := []
  summarize _ := ⟨[], [], []⟩

def asks (text : String) : ConversationEvent :=
  .message narrow { digit := fun _ => none } plain false (PyDict.empty.put "goal" (.str text.toList))

def answers (text : String) : ConversationEvent := .finalized narrow (some (text.toList, PyDict.empty))

/-- After two turns, a longer message is lost: the history of its turn ends with the answer before. -/
theorem longer_message_lost :
    ¬ Along (converse "s1".toList) (MessageReaches "s1".toList) none
      [asks "Hi", answers "Hello", asks "Rome?", answers "Sure.",
        asks "I want to see the Forum and Palatine"] := by
  rw [along_messageReaches_iff _ (by simp)]
  decide +kernel

/-- A short third message reaches its turn. -/
theorem short_message_reaches :
    Along (converse "s1".toList) (MessageReaches "s1".toList) none
      [asks "Hi", answers "Hello", asks "Rome?", answers "Sure.", asks "And Ostia?"] :=
  ((message_reaches_iff "s1".toList).2 none _ (by simp)).2 (by decide +kernel)

end AgentLangraph.Run
