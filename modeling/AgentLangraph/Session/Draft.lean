import Mathlib.Data.Rat.Lemmas
import AgentLangraph.Lib.Trace
import AgentLangraph.Session.Review
import AgentLangraph.Session.Volatile

/-! Saving the text of a running stream (`streaming_draft.py`, `_stream_single` of `graph_runner.py`).
    Every delta puts the text so far into a copy of the whole state, the one of the last node event, and
    saves the copy.

        node event → copy          delta → copy with the text → save → copy := what was saved -/

namespace AgentLangraph.Session
open PyText Trace

/-- The `streaming_*` channels. -/
structure Streaming where
  answerText : Option Text := none
  answerStatus : Option Text := none
  thinkingText : Option Text := none
  thinkingStatus : Option Text := none
  deriving DecidableEq

/-- The whole state: what the state machine and the store look at, the draft, and the other channels. -/
structure TaskState where
  state : AgentState
  streaming : Streaming := {}
  channels : Fields := PyDict.empty
  deriving DecidableEq

def streamingStatusActive : Text := "streaming".toList

def streamingStatusCompleted : Text := "completed".toList

/-- A text that is there and not empty. -/
def isSet (t : Option Text) : Bool := t.getD [] != []

def clearStreamingThinking (t : TaskState) : TaskState :=
  if !isSet t.streaming.thinkingText && !isSet t.streaming.thinkingStatus then t
  else { t with streaming := { t.streaming with thinkingText := none, thinkingStatus := none } }

def clearStreamingDraft (t : TaskState) : TaskState :=
  clearStreamingThinking
    (if isSet t.streaming.answerText || isSet t.streaming.answerStatus then
      { t with streaming := { t.streaming with answerText := none, answerStatus := none } }
    else t)

/-- A text of nothing but space clears the draft, the thinking included. -/
def applyStreamingDraft (t : TaskState) (body status : Text) : TaskState :=
  if strip body = [] then clearStreamingDraft t
  else
    { t with
      streaming := { t.streaming with answerText := some body, answerStatus := some status } }

def applyStreamingThinking (t : TaskState) (body status : Text) : TaskState :=
  if strip body = [] then clearStreamingThinking t
  else
    { t with
      streaming := { t.streaming with thinkingText := some body, thinkingStatus := some status } }

/-- The settings; times are in seconds. -/
structure DraftConfig where
  enabled : Bool := true
  interval : ℚ := 2
  minChars : ℤ := 80

/-- `AnswerDraftPersistCtx` and `ThinkingDraftPersistCtx`. -/
structure DraftCtx where
  state : TaskState
  accumulated : Text := []
  lastSaveAt : ℚ := 0
  lastSavedLen : ℕ := 0

/-- The stored state and the two contexts of the stream. -/
structure DraftStream where
  row : TaskState
  answer : DraftCtx
  thinking : DraftCtx

/-- `StateStore.save` of a whole state: the row and the state returned. -/
def saveTask (w : Surroundings) (row t : TaskState) : Except SaveError (TaskState × TaskState) :=
  if w.tombstoned then .ok (row, t)
  else if Protects (some row.state) t.state then .ok (row, row)
  else (writeRow w (some row.state) t.state).map fun s => ({ t with state := s }, { t with state := s })

/-- The test of `maybe_persist_streaming_draft`: enabled, some text, and not too early. -/
def draftDue (c : DraftConfig) (now : ℚ) (ctx : DraftCtx) : Bool :=
  c.enabled && ctx.accumulated != [] &&
    !(decide (0 < ctx.lastSaveAt) && decide (now - ctx.lastSaveAt < c.interval) &&
      decide ((ctx.accumulated.length : ℤ) - ctx.lastSavedLen < c.minChars))

def DraftCtx.add (ctx : DraftCtx) (text : Text) : DraftCtx :=
  { ctx with accumulated := ctx.accumulated ++ text }

/-- The context after a save; one that raises has changed nothing. -/
def DraftCtx.saved (ctx : DraftCtx) (now : ℚ) (r : Except SaveError (TaskState × TaskState)) :
    DraftCtx :=
  match r with
  | .ok (_, t) =>
    { ctx with state := t, lastSaveAt := now, lastSavedLen := ctx.accumulated.length }
  | .error _ => ctx

def DraftStream.stored (σ : DraftStream) (r : Except SaveError (TaskState × TaskState)) : TaskState :=
  match r with
  | .ok (row, _) => row
  | .error _ => σ.row

/-- The draft that an answer makes due. -/
def answerDraft (ctx : DraftCtx) : TaskState :=
  applyStreamingDraft ctx.state ctx.accumulated streamingStatusActive

/-- `absorb_answer_delta`. -/
def absorbAnswerDelta (c : DraftConfig) (w : Surroundings) (now : ℚ) (text : Text)
    (σ : DraftStream) : DraftStream :=
  if text = [] then σ
  else
    let ctx := σ.answer.add text
    if draftDue c now ctx then
      let r := saveTask w σ.row (answerDraft ctx)
      { σ with row := σ.stored r, answer := ctx.saved now r }
    else { σ with answer := ctx }

/-- The test of `force_persist_thinking_draft`. -/
def thinkingDue (c : DraftConfig) (ctx : DraftCtx) : Bool := strip ctx.accumulated != [] && c.enabled

/-- The draft that `force_persist_thinking_draft` makes of a state. -/
def thinkingDraft (ctx : DraftCtx) (base : TaskState) (completed : Bool) : TaskState :=
  applyStreamingThinking base ctx.accumulated
    (if completed then streamingStatusCompleted else streamingStatusActive)

/-- `force_persist_thinking_draft`. -/
def forcePersistThinkingDraft (c : DraftConfig) (w : Surroundings) (now : ℚ) (base : TaskState)
    (completed : Bool) (σ : DraftStream) : DraftStream :=
  if thinkingDue c σ.thinking then
    let r := saveTask w σ.row (thinkingDraft σ.thinking base completed)
    { σ with row := σ.stored r, thinking := σ.thinking.saved now r }
  else σ

/-- `absorb_thinking_delta`. -/
def absorbThinkingDelta (c : DraftConfig) (w : Surroundings) (now : ℚ) (text : Text)
    (σ : DraftStream) : DraftStream :=
  if text = [] then σ
  else
    forcePersistThinkingDraft c w now (σ.thinking.add text).state false
      { σ with thinking := σ.thinking.add text }

/-- What a node event makes of its snapshot. -/
def DraftStream.latest (σ : DraftStream) (snapshot : TaskState) : TaskState :=
  let latest := if σ.answer.accumulated = [] then snapshot
    else applyStreamingDraft snapshot σ.answer.accumulated streamingStatusActive
  if σ.thinking.accumulated = [] then latest
  else applyStreamingThinking latest σ.thinking.accumulated streamingStatusActive

/-- A node event; `completes` says that the node is the one that ends the thinking. The end of the
    stream does the same with the last snapshot. -/
def nodeEvent (c : DraftConfig) (w : Surroundings) (now : ℚ) (snapshot : TaskState)
    (completes : Bool) (σ : DraftStream) : DraftStream :=
  let latest := σ.latest snapshot
  if completes ∧ thinkingDue c σ.thinking then
    let σ' := forcePersistThinkingDraft c w now latest true σ
    match saveTask w σ.row (thinkingDraft σ.thinking latest true) with
    | .ok (_, t) =>
      { σ' with answer := { σ'.answer with state := t }, thinking := { σ'.thinking with state := t } }
    | .error _ => σ'
  else
    { σ with
      answer := { σ.answer with state := latest }
      thinking := { σ.thinking with state := latest } }

inductive DraftStep
  | answerDelta (w : Surroundings) (now : ℚ) (text : Text)
  | thinkingDelta (w : Surroundings) (now : ℚ) (text : Text)
  | nodeEvent (w : Surroundings) (now : ℚ) (snapshot : TaskState) (completes : Bool)
  /-- A save of anyone else: a node, a control handler, the foreground, a session message. -/
  | save (w : Surroundings) (t : TaskState)

def DraftStream.step (c : DraftConfig) (σ : DraftStream) : DraftStep → DraftStream
  | .answerDelta w now text => absorbAnswerDelta c w now text σ
  | .thinkingDelta w now text => absorbThinkingDelta c w now text σ
  | .nodeEvent w now snapshot completes => Session.nodeEvent c w now snapshot completes σ
  | .save w t => { σ with row := σ.stored (saveTask w σ.row t) }

/-- The draft that a step saves. -/
def DraftStream.drafts (c : DraftConfig) (σ : DraftStream) :
    DraftStep → Option (Surroundings × TaskState)
  | .answerDelta w now text =>
    if text ≠ [] ∧ draftDue c now (σ.answer.add text) then
      some (w, answerDraft (σ.answer.add text))
    else none
  | .thinkingDelta w _ text =>
    if text ≠ [] ∧ thinkingDue c (σ.thinking.add text) then
      some (w, thinkingDraft (σ.thinking.add text) (σ.thinking.add text).state false)
    else none
  | .nodeEvent w _ snapshot completes =>
    if completes ∧ thinkingDue c σ.thinking then
      some (w, thinkingDraft σ.thinking (σ.latest snapshot) true)
    else none
  | .save _ _ => none

/-! ### What a save rewrites -/

/-- Everything but the payload and the keys outside the schema. -/
def core (s : AgentState) : AgentState :=
  { s with inputPayload := PyDict.empty, extras := PyDict.empty }

/-- The state that a save hands to the guard. -/
def handed (row t : TaskState) : AgentState := preserveVolatileFields (some row.state) t.state

/-- The state as it was, up to what the guard has changed in what it was handed. -/
structure SameButRepaired (before : TaskState) (given : AgentState) (after : TaskState) : Prop where
  core : core after.state = core before.state
  channels : after.channels = before.channels
  payload : ∀ key : String,
    after.state.inputPayload.get? key.toList = before.state.inputPayload.get? key.toList ∨
      after.state.inputPayload.get? key.toList ≠ given.inputPayload.get? key.toList
  extras : ∀ key : String,
    after.state.extras.get? key.toList = before.state.extras.get? key.toList ∨
      after.state.extras.get? key.toList ≠ given.extras.get? key.toList

/-- A key of the payload that the guard changes. -/
def PayloadRepaired (w : Surroundings) (s : AgentState) (key : String) : Prop :=
  if key = "fsm_state" then
    s.inputPayload.get? key.toList ≠ some (.str (guardedFsmState w s).name)
  else
    ReplanGateRuns w s ∧ ∃ v ∈ (applyReplanGate w.now s.inputPayload).get? key.toList,
      s.inputPayload.get? key.toList ≠ some v

/-- A key outside the schema that the guard changes. -/
def ExtraRepaired (w : Surroundings) (s : AgentState) (key : String) : Prop :=
  key = "fsm_state" ∧ s.extras.get? key.toList ≠ some (.str (guardedFsmState w s).name)

/-- `new_steer_batch`. -/
def newSteerBatch (existing s : AgentState) : Bool :=
  let merged := { s with extras := restoreExtras existing.extras s.extras volatileStateKeys }
  (steerAt merged).truthy && steerAt merged != steerAt existing

/-- A key of the payload that the copy does not have and the save restores. -/
def PayloadRestored (existing s : AgentState) (key : String) : Prop :=
  key ∈ payloadVolatileKeys ∧ s.inputPayload.get? key.toList = none ∧
    existing.inputPayload.get? key.toList ≠ none ∧
    ¬ (newSteerBatch existing s = true ∧ key ∈ steerBatchGateKeys)

/-- A key outside the schema that the copy does not have and the save restores. -/
def ExtraRestored (existing s : AgentState) (key : String) : Prop :=
  key ∈ volatileStateKeys ∧ s.extras.get? key.toList = none ∧ existing.extras.field key ≠ .none

/-- The copy has what is stored, apart from what the save restores and what the guard changes. -/
structure Agrees (w : Surroundings) (row t : TaskState) : Prop where
  core : core t.state = core row.state
  channels : t.channels = row.channels
  payload : ∀ key : String,
    t.state.inputPayload.get? key.toList = row.state.inputPayload.get? key.toList ∨
      PayloadRestored row.state t.state key ∨ PayloadRepaired w (handed row t) key
  extras : ∀ key : String,
    t.state.extras.get? key.toList = row.state.extras.get? key.toList ∨
      ExtraRestored row.state t.state key ∨ ExtraRepaired w (handed row t) key

theorem core_syncFsmState (w : Surroundings) (s : AgentState) : core (syncFsmState w s) = core s := by
  have hstamp : core (stampFsmState s (syncedFsmState w s)) = core s := by
    rw [stampFsmState]
    split_ifs <;> rfl
  rw [syncFsmState, syncLegacyFlagsFromFsm]
  split_ifs
  · exact hstamp
  · exact hstamp

theorem core_validate {w : Surroundings} {s s' : AgentState} (h : validate w s = .ok s') :
    core s' = core s := by
  rcases validate_cases w s h with ⟨-, rfl⟩ | ⟨-, rfl⟩
  · exact core_syncFsmState w s
  · exact core_syncFsmState w s

theorem get?_payload_validate {w : Surroundings} {s s' : AgentState} (h : validate w s = .ok s')
    {key : String} (hne : "fsm_state" ≠ key) :
    s'.inputPayload.get? key.toList = (syncFsmState w s).inputPayload.get? key.toList := by
  rcases validate_cases w s h with ⟨-, rfl⟩ | ⟨-, rfl⟩
  · rfl
  · exact PyDict.get?_update_of_eq (PyDict.get?_put_ne _ hne _)

theorem payload_validate_ne_iff {w : Surroundings} {s s' : AgentState} (h : validate w s = .ok s')
    (key : String) : s'.inputPayload.get? key.toList ≠ s.inputPayload.get? key.toList ↔
      PayloadRepaired w s key := by
  rw [PayloadRepaired]
  by_cases hkey : key = "fsm_state"
  · rw [if_pos hkey, hkey, PyDict.get?_of_field (validate_guarded w s h).fsm PyVal.noConfusion]
    exact ne_comm
  · rw [if_neg hkey, get?_payload_validate h (Ne.symm hkey),
      get?_payload_syncFsmState w s (Ne.symm hkey)]
    split_ifs with hgate
    · rw [and_iff_right hgate]
      cases (applyReplanGate w.now s.inputPayload).get? key.toList with
      | none => simp
      | some v => simp [eq_comm]
    · exact iff_of_false (fun hne => hne rfl) fun hgate' => hgate hgate'.1

theorem extras_validate_ne_iff {w : Surroundings} {s s' : AgentState} (h : validate w s = .ok s')
    (key : String) : s'.extras.get? key.toList ≠ s.extras.get? key.toList ↔
      ExtraRepaired w s key := by
  rw [ExtraRepaired]
  by_cases hkey : key = "fsm_state"
  · have hfsm : s'.extras.get? "fsm_state".toList = some (.str (guardedFsmState w s).name) := by
      rw [guardedFsmState]
      rcases validate_cases w s h with ⟨hdead, rfl⟩ | ⟨hdead, rfl⟩
      · rw [if_neg hdead, extras_fsm_syncFsmState]
      · rw [if_pos hdead]
        exact PyDict.get?_set_self _ _ _
    rw [hkey, hfsm, and_iff_right rfl]
    exact ne_comm
  · rw [(validate_guarded w s h).extras key (Ne.symm hkey)]
    exact iff_of_false (fun hne => hne rfl) fun hrep => hkey hrep.1

/-! ### What a save restores -/

theorem some_field {d : Fields} {key : String} (h : d.get? key.toList ≠ none) :
    some (d.field key) = d.get? key.toList := by
  obtain ⟨v, hv⟩ := Option.ne_none_iff_exists'.1 h
  rw [hv, PyDict.field, PyDict.getD, hv]
  rfl

theorem core_handed (row t : TaskState) : core (handed row t) = core t.state := rfl

theorem handed_payload_iff (row t : TaskState) (key : String) :
    (handed row t).inputPayload.get? key.toList = row.state.inputPayload.get? key.toList ↔
      t.state.inputPayload.get? key.toList = row.state.inputPayload.get? key.toList ∨
        PayloadRestored row.state t.state key := by
  have hget : (handed row t).inputPayload.get? key.toList = _ := get?_restorePayload
    (newSteerBatch row.state t.state) row.state.inputPayload key payloadVolatileKeys
    t.state.inputPayload
  by_cases hrest : PayloadRestored row.state t.state key
  · refine iff_of_true (hget.trans ((if_pos hrest).trans ?_)) (Or.inr hrest)
    exact some_field hrest.2.2.1
  · rw [hget.trans (if_neg hrest), or_iff_left hrest]

theorem handed_extras_iff (row t : TaskState) (key : String) :
    (handed row t).extras.get? key.toList = row.state.extras.get? key.toList ↔
      t.state.extras.get? key.toList = row.state.extras.get? key.toList ∨
        ExtraRestored row.state t.state key := by
  have hget : (handed row t).extras.get? key.toList = _ :=
    get?_restoreExtras row.state.extras key volatileStateKeys t.state.extras
  by_cases hrest : ExtraRestored row.state t.state key
  · refine iff_of_true (hget.trans ((if_pos hrest).trans ?_)) (Or.inr hrest)
    refine some_field fun hnone => hrest.2.2 ?_
    rw [PyDict.field, PyDict.getD, hnone]
    rfl
  · rw [hget.trans (if_neg hrest), or_iff_left hrest]

/-- STEP: a copy that is written changes nothing but the draft exactly when it agrees with what is
    stored. -/
theorem sameButRepaired_iff {w : Surroundings} {row t : TaskState} {s : AgentState}
    (h : writeRow w (some row.state) t.state = .ok s) :
    SameButRepaired row (handed row t) { t with state := s } ↔ Agrees w row t := by
  have hvalid : validate w (handed row t) = .ok s := validate_of_writeRow h
  have hkey : ∀ {before given after : Option PyVal} {p q : Prop},
      (after ≠ given ↔ q) → (given = before ↔ p) → (after = before ∨ after ≠ given ↔ p ∨ q) := by
    rintro before given after p q hq hp
    rw [← hq, ← hp]
    by_cases hsame : after = given
    · rw [hsame]
    · exact iff_of_true (Or.inr hsame) (Or.inr hsame)
  have hcore : core s = core t.state := (core_validate hvalid).trans (core_handed row t)
  have hpayload : ∀ key : String, _ := fun key => (hkey (payload_validate_ne_iff hvalid key)
    (handed_payload_iff row t key)).trans or_assoc
  have hextras : ∀ key : String, _ := fun key => (hkey (extras_validate_ne_iff hvalid key)
    (handed_extras_iff row t key)).trans or_assoc
  constructor
  · rintro ⟨hc, hch, hp, he⟩
    exact ⟨hcore.symm.trans hc, hch, fun key => (hpayload key).1 (hp key),
      fun key => (hextras key).1 (he key)⟩
  · rintro ⟨hc, hch, hp, he⟩
    exact ⟨hcore.trans hc, hch, fun key => (hpayload key).2 (hp key),
      fun key => (hextras key).2 (he key)⟩

/-! ### Draft saves change only the draft -/

/-- A step of the stream itself. -/
def DraftStep.ofStream : DraftStep → Bool
  | .save _ _ => false
  | _ => true

/-- A step of the stream leaves all but the draft as it was. -/
def DraftStream.DraftOnly (c : DraftConfig) (σ : DraftStream) (a : DraftStep) : Prop :=
  a.ofStream = true →
    match σ.drafts c a with
    | none => (σ.step c a).row = σ.row
    | some (_, t) => SameButRepaired σ.row (handed σ.row t) (σ.step c a).row

/-- A save of a whole state that replaces the row. -/
def writtenTask (w : Surroundings) (row t : TaskState) : Bool := written w (some row.state) t.state

/-- A copy that is about to be written agrees with what is stored. -/
def DraftStream.DraftAgrees (c : DraftConfig) (σ : DraftStream) (a : DraftStep) : Prop :=
  ∀ x ∈ σ.drafts c a, writtenTask x.1 σ.row x.2 = true → Agrees x.1 σ.row x.2

/-- What is not written leaves the row. -/
theorem DraftStream.stored_of_not_written {σ : DraftStream} {w : Surroundings} {t : TaskState}
    (h : writtenTask w σ.row t ≠ true) : σ.stored (saveTask w σ.row t) = σ.row := by
  rw [saveTask]
  split_ifs with htomb hprot
  · rfl
  · rfl
  · cases hw : writeRow w (some σ.row.state) t.state with
    | error e => rfl
    | ok s =>
      rw [Bool.not_eq_true] at htomb
      exact absurd (by simp [writtenTask, written, htomb, hprot, hw, Except.isOk, Except.toBool]) h

theorem DraftStream.stored_of_written {σ : DraftStream} {w : Surroundings} {t : TaskState}
    (h : writtenTask w σ.row t = true) : ∃ s, writeRow w (some σ.row.state) t.state = .ok s ∧
      σ.stored (saveTask w σ.row t) = { t with state := s } := by
  rw [writtenTask, written, Bool.and_eq_true, Bool.and_eq_true] at h
  obtain ⟨⟨htomb, hprot⟩, hok⟩ := h
  cases hw : writeRow w (some σ.row.state) t.state with
  | error e =>
    rw [hw] at hok
    cases hok
  | ok s =>
    refine ⟨s, rfl, ?_⟩
    rw [saveTask, if_neg (by simpa using htomb), if_neg (by simpa using hprot), hw]
    rfl

/-- The row after a step of the stream is the row, or what saving its draft makes of it. -/
theorem DraftStream.row_step (c : DraftConfig) (σ : DraftStream) {a : DraftStep}
    (h : a.ofStream = true) : (σ.step c a).row =
      match σ.drafts c a with
      | none => σ.row
      | some (w, t) => σ.stored (saveTask w σ.row t) := by
  cases a with
  | answerDelta w now text =>
    rw [step, absorbAnswerDelta, drafts]
    by_cases htext : text = []
    · rw [if_pos htext, if_neg fun hand => hand.1 htext]
    · by_cases hdue : draftDue c now (σ.answer.add text) = true
      · rw [if_neg htext, if_pos hdue, if_pos ⟨htext, hdue⟩]
      · rw [if_neg htext, if_neg hdue, if_neg fun hand => hdue hand.2]
  | thinkingDelta w now text =>
    rw [step, absorbThinkingDelta, drafts]
    by_cases htext : text = []
    · rw [if_pos htext, if_neg fun hand => hand.1 htext]
    · rw [if_neg htext, forcePersistThinkingDraft]
      by_cases hdue : thinkingDue c (σ.thinking.add text) = true
      · rw [if_pos hdue, if_pos ⟨htext, hdue⟩]
        rfl
      · rw [if_neg hdue, if_neg fun hand => hdue hand.2]
  | nodeEvent w now snapshot completes =>
    rw [step, Session.nodeEvent, drafts]
    by_cases hdue : completes = true ∧ thinkingDue c σ.thinking = true
    · rw [if_pos hdue, if_pos hdue, forcePersistThinkingDraft, if_pos hdue.2]
      change _ = σ.stored (saveTask w σ.row (thinkingDraft σ.thinking (σ.latest snapshot) true))
      cases saveTask w σ.row (thinkingDraft σ.thinking (σ.latest snapshot) true) <;> rfl
    · rw [if_neg hdue, if_neg hdue]
  | save w t => cases h

/-- STEP: a step of the stream changes only the draft exactly when its copy agrees. -/
theorem DraftStream.draftOnly_iff (c : DraftConfig) (σ : DraftStream) (a : DraftStep) :
    σ.DraftOnly c a ↔ σ.DraftAgrees c a := by
  rw [DraftOnly, DraftAgrees]
  by_cases hown : a.ofStream = true
  · have hrow := σ.row_step c hown
    rw [forall_prop_of_true hown]
    cases hdraft : σ.drafts c a with
    | none =>
      rw [hdraft] at hrow
      exact iff_of_true hrow fun x hx => absurd hx (by simp)
    | some x =>
      rw [hdraft] at hrow
      change SameButRepaired σ.row (handed σ.row x.2) (σ.step c a).row ↔ _
      rw [hrow]
      change SameButRepaired σ.row (handed σ.row x.2) (σ.stored (saveTask x.1 σ.row x.2)) ↔ _
      simp only [Option.mem_some_iff, forall_eq']
      by_cases hw : writtenTask x.1 σ.row x.2 = true
      · obtain ⟨s, hok, hstored⟩ := stored_of_written hw
        rw [hstored, sameButRepaired_iff hok]
        exact ⟨fun h _ => h, fun h => h hw⟩
      · rw [stored_of_not_written hw]
        refine iff_of_true ⟨rfl, rfl, fun _ => Or.inl rfl, fun _ => Or.inl rfl⟩ fun hw' => ?_
        exact absurd hw' hw
  · cases a with
    | save w t => exact iff_of_true (fun h => absurd h hown) fun x hx => absurd hx (by simp [drafts])
    | _ => exact absurd rfl hown

/-- CORRECT when it can be: in every interleaving with the saves of others the draft saves change only
    the draft exactly when every copy that is written agrees with what is stored by then. -/
theorem draft_only_iff (c : DraftConfig) (σ : DraftStream) (trace : List DraftStep) :
    Along (DraftStream.step c) (DraftStream.DraftOnly c) σ trace ↔
      Along (DraftStream.step c) (DraftStream.DraftAgrees c) σ trace :=
  along_iff (I := fun _ => True) (fun σ a _ => σ.draftOnly_iff c a) (fun _ _ _ _ => trivial) trace σ
    trivial

/-- A stream that has just begun. -/
def begunStream : DraftStream where
  row := { state := secondTurn .planned }
  answer := { state := { state := secondTurn .planned } }
  thinking := { state := { state := secondTurn .planned } }

/-- The request of a user to pause is stored in the task. -/
def pauseRequested : TaskState where
  state := { secondTurn .planned with
    interruptContext := some (PyDict.ofList [("pause_requested".toList, .bool true)]) }

/-- The next delta of the thinking takes the request back. -/
theorem pauseRequest_lost :
    let paused := begunStream.step {} (.save idleProcess pauseRequested)
    let after := paused.step {} (.thinkingDelta idleProcess 1 "first".toList)
    paused.row.state.interruptContext.isSome = true ∧ after.row.state.interruptContext = none ∧
      after.row.streaming.thinkingText = some "first".toList ∧
      ¬ paused.DraftOnly {} (.thinkingDelta idleProcess 1 "first".toList) := by
  intro paused after
  have hrun : (paused.row.state.interruptContext.isSome = true ∧ after.row.state.interruptContext = none ∧
      after.row.streaming.thinkingText = some "first".toList) ∧
      (core paused.row.state).interruptContext.isSome = true ∧
      (core after.row.state).interruptContext = none := by
    decide +kernel
  obtain ⟨⟨hpaused, hlost, htext⟩, hbefore, hafter⟩ := hrun
  refine ⟨hpaused, hlost, htext, fun h => ?_⟩
  have hcore : core after.row.state = core paused.row.state := (h rfl).core
  rw [← hcore, hafter] at hbefore
  cases hbefore

end AgentLangraph.Session
