import AgentLangraph.Lib.Trace
import AgentLangraph.Run.TurnReset

/-! The allowances of a batch (`writing_batch.py`): the chapters that are continued within a turn, and the
    turns that start by themselves. Their counters are in the payload, and a new turn pops them from its
    copy; what `merge_state` makes of that is in `TurnReset`.

        user turn ──▶ continuation … (4) ──▶ automatic turn ──▶ continuation … ──▶ automatic turn … (8)
            ▲                                                                            │
            └────────────────────────────────── user turn ───────────────────────────────┘ -/

namespace AgentLangraph.Run
open PyText Session Trace

/-! ### The companions of a turn, by the keys that they write -/

def putAll (keys : List String) (values : String → Option PyVal) (payload : Fields) : Fields :=
  keys.foldl (fun out key => match values key with
    | some v => out.put key v
    | none => out) payload

/-- What `apply_confirm_pending_delivery` sets. -/
def confirmKeys : List String :=
  ["goal", "query", "writing_operator", "interaction_goal", "interaction_goal_confidence",
    "force_write_after_reads", "pending_writing_delivery_consumed", "writing_intent", "confirm"]

/-- What `stamp_inbound_classification` sets. -/
def classificationKeys : List String := ["event_classification", "inbound_event_id"]

/-- What `_stamp_turn_policy_and_classification` sets, with the hints for a question about the source. -/
def turnPolicyKeys : List String :=
  "turn_policy_decision" :: classificationKeys ++ ["writing_intent", "turn_kind", "steer_planning_done"]

/-- The values that the companions find, where they write. -/
structure TurnValues where
  history : AgentState → Text → PyVal
  confirmed : AgentState → Fields → Option (String → Option PyVal)
  stamped : AgentState → Fields → Text → Fields → String → Option PyVal
  /-- The turn asks about the source of the session. -/
  sourceInquiry : AgentState → Fields → Bool
  goalLooksLikeConfirmOnly : Text → Bool
  turnHistory : AgentState → Fields → PyVal
  firstHistory : Text → PyVal
  classified : Fields → String → Option PyVal

def TurnValues.companions (v : TurnValues) : Companions where
  history := v.history
  applyConfirmPendingDelivery existing merged :=
    match v.confirmed existing merged with
    | some values => putAll confirmKeys values (merged.pop "pending_writing_delivery")
    | none => merged
  stampTurnPolicyAndClassification existing merged goal incoming :=
    putAll turnPolicyKeys (v.stamped existing merged goal incoming)
      (if v.sourceInquiry existing merged then merged.pop "require_planning_after_steer" else merged)
  goalLooksLikeConfirmOnly := v.goalLooksLikeConfirmOnly
  turnHistory := v.turnHistory
  firstHistory := v.firstHistory
  stampInboundClassification payload := putAll classificationKeys (v.classified payload) payload

/-! ### The continuation within a turn -/

/-- What the playbook plans for the next chapter: the parameters of its tools, laid over those of the turn,
    and their stages. -/
structure Transport where
  toolParams : PyVal → PyVal
  stages : PyVal

/-- What the continuation takes from elsewhere. -/
structure Continuation where
  /-- `intent.get("enabled")`. -/
  enabled : PyVal → Bool
  /-- The intent, enabled, from `writing_batch`. -/
  batchIntent : PyVal → PyVal
  /-- `_turn_had_successful_body_write`. -/
  bodyWritten : Bool
  project : Option WritingProject
  /-- `parse_target_chapter_from_goal`. -/
  targetChapter : Text → Option ℤ
  /-- `apply_writing_playbook` and `_execution_transport_from_actions`, where there are actions. -/
  playbook : Text → Option Transport

/-- `batch_chapters_written_this_turn`. -/
def batchChaptersWrittenThisTurn (w : Surroundings) (s : AgentState) : Option ℤ :=
  intField w s.inputPayload "writing_batch_chapters_written"

def payloadGoal (payload : Fields) : Text :=
  strip (((payload.field "goal").orElse (payload.field "query")).orElse (.str [])).toText

/-- `goal or "续写下一章"`. -/
def nextChapterGoal (goal : Text) : Text := if goal = [] then "续写下一章".toList else goal

/-- The target that the goal names, where it is a further one. -/
def Continuation.retarget (k : Continuation) (goal : Text) (p : WritingProject) : WritingProject :=
  if goal = [] then p
  else
    match k.targetChapter goal with
    | some target =>
      if target ≠ 0 ∧ p.targetChapter < target then { p with targetChapter := target } else p
    | none => p

def batchHint (p : WritingProject) : Text :=
  if p.currentChapterIncomplete then
    "Batch writing: continue chapter ".toList ++ (toString p.nextChapter).toList ++
      " (incomplete — append only to the chapter tail).".toList
  else
    "Batch writing: write chapter ".toList ++ (toString p.nextChapter).toList ++
      (if p.targetChapter = 0 then [] else " of ".toList ++ (toString p.targetChapter).toList) ++
      ". Append only the new chapter prose to the novel body file.".toList

def continuationPayload (k : Continuation) (p : WritingProject) (t : Transport) (written : ℤ)
    (payload : Fields) : Fields :=
  let out := (payload.put "writing_operator" (.str "append".toList)).put "writing_intent"
    (k.batchIntent (payload.field "writing_intent"))
  let out := (out.put "force_write_after_reads" (.bool true)).put "writing_batch_chapters_written"
    (.int (written + 1))
  let out := (out.put "tool_params" (t.toolParams (out.field "tool_params"))).put "tool_stages" t.stages
  let out := (out.put "thin_execution_profile" (.str "writing_batch".toList)).put "skip_retrieval" (.bool true)
  (out.put "route_audit_replan_feedback" (.str (batchHint p))).pop "route_audit_replan"

/-- `maybe_schedule_batch_continuation`; nothing also where `int` raises. -/
def maybeScheduleBatchContinuation (w : Surroundings) (k : Continuation) (s : AgentState) : Option AgentState :=
  let intent := s.inputPayload.field "writing_intent"
  if !(intent.truthy && k.enabled intent) then none
  else if !k.bodyWritten then none
  else
    match k.project with
    | none => none
    | some project =>
      let goal := payloadGoal s.inputPayload
      let p := k.retarget goal project
      if !batchHasRemaining p then none
      else
        match batchChaptersWrittenThisTurn w s with
        | none => none
        | some written =>
          if 4 ≤ written then none
          else
            match k.playbook (nextChapterGoal goal) with
            | none => none
            | some t =>
              some { s.mergePayload (continuationPayload k p t written s.inputPayload) with
                status := .planned
                currentNode := "planning".toList }

/-- There is a next chapter to be written, as far as everything but the allowance goes. -/
def Continuation.ready (k : Continuation) (s : AgentState) : Bool :=
  let goal := payloadGoal s.inputPayload
  (s.inputPayload.field "writing_intent").truthy && k.enabled (s.inputPayload.field "writing_intent") &&
    k.bodyWritten && k.project.any (fun p => batchHasRemaining (k.retarget goal p)) &&
    (k.playbook (nextChapterGoal goal)).isSome

/-! ### The runs of a session -/

/-- The state of a session, with what has been started in it: continuations since its turn began, and
    automatic turns since the user's last one. -/
structure BatchSession where
  state : Option AgentState := none
  scheduled : ℕ := 0
  autoTurns : ℕ := 0

inductive BatchEvent
  /-- A message of the user, with a substantive new goal. -/
  | user (v : TurnValues) (request : Fields)
  | continuation (k : Continuation)
  | auto (v : TurnValues) (b : Batch)
  /-- Whatever the graph does to the state; nothing else writes the counters. -/
  | graph (s' : AgentState)

/-- `_BATCH` counters in the payload. -/
def counterKeys : List String := ["writing_batch_chapters_written", "batch_auto_turns"]

def sameCounters (s s' : AgentState) : Bool :=
  counterKeys.all fun key => s'.inputPayload.get? key.toList = s.inputPayload.get? key.toList

/-- The request brings a counter of automatic turns that `reset_batch_turn_counter` leaves alone. -/
def bringsAutoTurns (existing : AgentState) (request : Fields) : Bool :=
  ((existing.inputPayload.update request).field "auto_batch_resume").truthy && request.has "batch_auto_turns"

namespace BatchSession

def userTurn (w : Surroundings) (sessionId : Text) (s : BatchSession) (v : TurnValues) (request : Fields) :
    BatchSession :=
  match s.state with
  | none => ⟨some (prepareSessionTurn w none sessionId false (turnPayload v.companions request)).1, 0, 0⟩
  | some existing =>
    if dropsCarryover v.companions existing request then
      ⟨some (prepareSessionTurn w (some existing) existing.sessionId false
        (turnPayload v.companions request)).1, 0, 0⟩
    else s

def step (w : Surroundings) (sessionId : Text) (s : BatchSession) : BatchEvent → BatchSession
  | .user v request => s.userTurn w sessionId v request
  | .continuation k =>
    match s.state.bind (maybeScheduleBatchContinuation w k) with
    | some next => { s with state := some next, scheduled := s.scheduled + 1 }
    | none => s
  | .auto v b =>
    match s.state.bind (prepareAutoBatchTurn v.companions w b) with
    | some next => ⟨some next, 0, s.autoTurns + 1⟩
    | none => s
  | .graph next => if s.state.any (sameCounters · next) then { s with state := some next } else s

/-- The counters are exact, so each turn gets its continuations and each user request its turns. -/
structure Exact (w : Surroundings) (s : BatchSession) (state : AgentState) : Prop where
  chapters : batchChaptersWrittenThisTurn w state = some (s.scheduled : ℤ)
  turns : intField w state.inputPayload "batch_auto_turns" = some (s.autoTurns : ℤ)
  atMostChapters : s.scheduled ≤ 4
  atMostTurns : s.autoTurns ≤ 8
  continues : ∀ k, (maybeScheduleBatchContinuation w k state).isSome ↔ k.ready state ∧ s.scheduled < 4
  resumes : ∀ c b, (prepareAutoBatchTurn c w b state).isSome ↔ shouldAutoContinueBatch b state ∧ s.autoTurns < 8

/-- The allowances of the session are exact. -/
def AllowancesExact (w : Surroundings) (s : BatchSession) : Prop := ∀ state ∈ s.state, s.Exact w state

/-- A turn begins where the counters are zero already. -/
def BeginsClean (w : Surroundings) (s : BatchSession) : BatchEvent → Prop
  | .user v request =>
    match s.state with
    | none => ∀ key ∈ counterKeys, intField w request key = some 0
    | some existing => dropsCarryover v.companions existing request →
      s.scheduled = 0 ∧
        if bringsAutoTurns existing request then intField w request "batch_auto_turns" = some 0
        else s.autoTurns = 0
  | .auto _ b => s.state.any (shouldAutoContinueBatch b) → s.autoTurns < 8 → s.scheduled = 0
  | .continuation _ | .graph _ => True

end BatchSession

/-! ### What becomes of the counters in a user's turn -/

theorem get?_putAll {key : String} : ∀ {keys : List String} (values : String → Option PyVal) (payload : Fields),
    key ∉ keys → (putAll keys values payload).get? key.toList = payload.get? key.toList
  | [], _, _, _ => rfl
  | k :: keys, values, payload, h => by
      rw [List.mem_cons, not_or] at h
      rw [putAll, List.foldl_cons, ← putAll, get?_putAll values _ h.2]
      cases values k with
      | none => rfl
      | some v => exact PyDict.get?_put_ne payload (Ne.symm h.1) v

theorem get?_popAll_ne {key : String} : ∀ {keys : List String} (payload : Fields), key ∉ keys →
    (popAll payload keys).get? key.toList = payload.get? key.toList
  | [], _, _ => rfl
  | k :: keys, payload, h => by
      rw [List.mem_cons, not_or] at h
      rw [popAll, List.foldl_cons, ← popAll, get?_popAll_ne _ h.2]
      exact PyDict.get?_pop_ne payload (Ne.symm h.1)

/-- What the companions write or pop. -/
def companionKeys : List String :=
  ["conversation_history", "goal", "pending_writing_delivery", "require_planning_after_steer"] ++
    confirmKeys ++ turnPolicyKeys

theorem get?_inboundPayload (v : TurnValues) (existing : AgentState) (request : Fields) {key : String}
    (h : key ∉ companionKeys) : (inboundPayload v.companions existing request).get? key.toList =
      (existing.inputPayload.update request).get? key.toList := by
  simp only [companionKeys, List.mem_append, List.mem_cons, List.not_mem_nil, or_false, not_or] at h
  obtain ⟨⟨⟨hhistory, hgoal, hpending, hsteer⟩, hconfirm⟩, hpolicy⟩ := h
  have hconfirmed : ∀ merged, (v.companions.applyConfirmPendingDelivery existing merged).get? key.toList =
      merged.get? key.toList := by
    intro merged
    simp only [TurnValues.companions]
    cases v.confirmed existing merged with
    | none => rfl
    | some values => rw [get?_putAll _ _ hconfirm, PyDict.get?_pop_ne _ (Ne.symm hpending)]
  have hstamped : ∀ merged goal, (v.companions.stampTurnPolicyAndClassification existing merged goal
      request).get? key.toList = merged.get? key.toList := by
    intro merged goal
    simp only [TurnValues.companions]
    rw [get?_putAll _ _ hpolicy]
    split_ifs
    · exact PyDict.get?_pop_ne _ (Ne.symm hsteer)
    · rfl
  rw [inboundPayload]
  split_ifs
  · rw [hstamped, hconfirmed, PyDict.get?_put_ne _ (Ne.symm hhistory)]
  · rw [hconfirmed, PyDict.get?_put_ne _ (Ne.symm hhistory)]
  · rw [PyDict.get?_put_ne _ (Ne.symm hgoal), hconfirmed, PyDict.get?_put_ne _ (Ne.symm hhistory)]

theorem mem_batchCounterKeys (payload : Fields) :
    "batch_auto_turns" ∈ batchCounterKeys payload ↔ (payload.field "auto_batch_resume").truthy = false := by
  rw [batchCounterKeys]
  split_ifs with hresume <;> simp [hresume]

theorem autoBatchResume_inboundPayload (v : TurnValues) (existing : AgentState) (request : Fields) :
    (inboundPayload v.companions existing request).field "auto_batch_resume" =
      (existing.inputPayload.update request).field "auto_batch_resume" :=
  PyDict.field_congr (get?_inboundPayload v existing request (by decide))

/-- The counter of automatic turns that a user's turn begins with: what is popped comes back from the old
    payload, and after an automatic turn it is not popped. -/
theorem get?_autoTurns (w : Surroundings) (v : TurnValues) (existing : AgentState) (request : Fields)
    (hdrops : dropsCarryover v.companions existing request) :
    (prepareSessionTurn w (some existing) existing.sessionId false
      (turnPayload v.companions request)).1.inputPayload.get? "batch_auto_turns".toList =
    if bringsAutoTurns existing request then request.get? "batch_auto_turns".toList
    else existing.inputPayload.get? "batch_auto_turns".toList := by
  cases hresume : ((existing.inputPayload.update request).field "auto_batch_resume").truthy with
  | false =>
    rw [bringsAutoTurns, hresume, Bool.false_and, if_neg Bool.false_ne_true]
    refine get?_prepareSessionTurn w existing request ?_
    rw [removedKeys, if_pos hdrops, List.mem_cons, List.mem_append, mem_batchCounterKeys,
      autoBatchResume_inboundPayload]
    exact Or.inr (Or.inl hresume)
  | true =>
    have hkept : "batch_auto_turns" ∉ batchCounterKeys (inboundPayload v.companions existing request) := by
      rw [mem_batchCounterKeys, autoBatchResume_inboundPayload, hresume]
      simp
    have hturn : (turnPayload v.companions request (some existing)).get? "batch_auto_turns".toList =
        (existing.inputPayload.update request).get? "batch_auto_turns".toList := by
      rw [turnPayload, clearTurnCarryover]
      rw [PyDict.get?_put_ne _ (by decide), get?_popAll_ne _ (by decide), PyDict.get?_put_ne _ (by decide),
        get?_stampSessionMode _ (by decide), buildInboundMergedPayload, if_pos hdrops,
        clearWritingOperatorCarryover, get?_popAll_ne _ (by decide), resetBatchTurnCounter,
        get?_popAll_ne _ hkept, get?_inboundPayload v existing request (by decide)]
    rw [prepareSessionTurn_of_session w rfl, get?_syncFsmState w _ (by decide),
      inputPayload_resetExecutionFields, PyDict.get?_update, hturn, PyDict.get?_update, bringsAutoTurns, hresume,
      Bool.true_and, PyDict.has]
    cases request.get? "batch_auto_turns".toList with
    | none => simp
    | some n => rfl

/-- A user's turn begins with the chapters of the turn before. -/
theorem get?_chapters (w : Surroundings) (v : TurnValues) (existing : AgentState) (request : Fields)
    (hdrops : dropsCarryover v.companions existing request) :
    (prepareSessionTurn w (some existing) existing.sessionId false
      (turnPayload v.companions request)).1.inputPayload.get? "writing_batch_chapters_written".toList =
    existing.inputPayload.get? "writing_batch_chapters_written".toList := by
  refine get?_prepareSessionTurn w existing request ?_
  rw [removedKeys, if_pos hdrops, batchCounterKeys]
  split_ifs <;> simp

/-! ### Exactness, step by step -/

theorem intField_congr (w : Surroundings) {d e : Fields} {key : String}
    (h : d.get? key.toList = e.get? key.toList) : intField w d key = intField w e key := by
  rw [intField, intField, PyDict.field_congr h]

theorem intField_update (w : Surroundings) (d : Fields) {e : Fields} {key : String} {n : ℤ}
    (h : e.get? key.toList = some (.int n)) : intField w (d.update e) key = some n := by
  have hfield : (d.update e).field key = .int n := by
    rw [PyDict.field, PyDict.getD, PyDict.get?_update, h]
    rfl
  rw [intField, hfield]
  exact PyVal.toInt?_orElse_int w.digit n

theorem isSome_maybeScheduleBatchContinuation {w : Surroundings} {k : Continuation} {s : AgentState} {n : ℤ}
    (h : batchChaptersWrittenThisTurn w s = some n) :
    (maybeScheduleBatchContinuation w k s).isSome ↔ k.ready s ∧ n < 4 := by
  rw [maybeScheduleBatchContinuation, Continuation.ready]
  cases henabled : (s.inputPayload.field "writing_intent").truthy &&
      k.enabled (s.inputPayload.field "writing_intent") with
  | false => simp
  | true =>
    cases hwritten : k.bodyWritten with
    | false => simp
    | true =>
      cases hproject : k.project with
      | none => simp
      | some project =>
        cases hremaining : batchHasRemaining (k.retarget (payloadGoal s.inputPayload) project) with
        | false => simp [hremaining]
        | true =>
          simp only [Bool.not_true, Bool.false_eq_true, if_false, hremaining, h, Option.any_some, Bool.and_true,
            Bool.true_and]
          by_cases hn : 4 ≤ n
          · simp [hn, Int.not_lt.2 hn]
          · simp only [if_neg hn, Int.not_le.1 hn, and_true]
            cases k.playbook (nextChapterGoal (payloadGoal s.inputPayload)) <;> simp

theorem isSome_prepareAutoBatchTurn {c : Companions} {w : Surroundings} {b : Batch} {s : AgentState} {n : ℤ}
    (h : intField w s.inputPayload "batch_auto_turns" = some n) :
    (prepareAutoBatchTurn c w b s).isSome ↔ shouldAutoContinueBatch b s ∧ n < 8 := by
  rw [prepareAutoBatchTurn, h]
  cases hready : shouldAutoContinueBatch b s with
  | false => simp
  | true =>
    cases hproject : b.project with
    | none => simp [shouldAutoContinueBatch, hproject] at hready
    | some p =>
      by_cases hn : 8 ≤ n
      · simp [hn, Int.not_lt.2 hn]
      · simp [hn, Int.not_le.1 hn]

/-- A continuation counts one more chapter, and leaves the automatic turns. -/
theorem maybeScheduleBatchContinuation_counts {w : Surroundings} {k : Continuation} {s s' : AgentState} {n : ℤ}
    (h : batchChaptersWrittenThisTurn w s = some n) (hs' : maybeScheduleBatchContinuation w k s = some s') :
    batchChaptersWrittenThisTurn w s' = some (n + 1) ∧
      s'.inputPayload.get? "batch_auto_turns".toList = s.inputPayload.get? "batch_auto_turns".toList := by
  obtain ⟨p, t, hpayload⟩ : ∃ p t, s'.inputPayload =
      s.inputPayload.update (continuationPayload k p t n s.inputPayload) := by
    simp only [maybeScheduleBatchContinuation, h] at hs'
    split at hs'
    · cases hs'
    split at hs'
    · cases hs'
    split at hs'
    · cases hs'
    split at hs'
    · cases hs'
    split at hs'
    · cases hs'
    split at hs'
    · cases hs'
    · rw [Option.some.injEq] at hs'
      exact ⟨_, _, by rw [← hs']; rfl⟩
  rw [batchChaptersWrittenThisTurn, hpayload]
  have hchapters : (continuationPayload k p t n s.inputPayload).get? "writing_batch_chapters_written".toList =
      some (.int (n + 1)) := by
    simp (disch := decide) only [continuationPayload, PyDict.get?_put_ne, PyDict.get?_pop_ne]
    exact PyDict.get?_set_self ..
  have hturns : (continuationPayload k p t n s.inputPayload).get? "batch_auto_turns".toList =
      s.inputPayload.get? "batch_auto_turns".toList := by
    simp (disch := decide) only [continuationPayload, PyDict.get?_put_ne, PyDict.get?_pop_ne]
  exact ⟨intField_update w _ hchapters, PyDict.get?_update_of_eq hturns⟩

/-- An automatic turn counts one more, and leaves the chapters. -/
theorem prepareAutoBatchTurn_counts {c : Companions} {w : Surroundings} {b : Batch} {s s' : AgentState} {n : ℤ}
    (h : intField w s.inputPayload "batch_auto_turns" = some n) (hs' : prepareAutoBatchTurn c w b s = some s') :
    intField w s'.inputPayload "batch_auto_turns" = some (n + 1) ∧
      s'.inputPayload.get? "writing_batch_chapters_written".toList =
        s.inputPayload.get? "writing_batch_chapters_written".toList := by
  refine ⟨?_, (prepareAutoBatchTurn_keeps hs').2 _ (by decide)⟩
  rw [prepareAutoBatchTurn, h] at hs'
  split_ifs at hs'
  cases hproject : b.project with
  | none => simp [hproject] at hs'
  | some p =>
    simp only [hproject] at hs'
    split_ifs at hs'
    rw [Option.some.injEq] at hs'
    have hcopy : (autoBatchPayload b p n s.inputPayload).get? "batch_auto_turns".toList = some (.int (n + 1)) := by
      simp (disch := decide) only [autoBatchPayload, PyDict.get?_put_ne]
      exact PyDict.get?_set_self ..
    rw [← hs', inputPayload_resetExecutionFields]
    refine intField_update w _ ?_
    rw [clearTurnCarryover, PyDict.get?_put_ne _ (by decide), get?_popAll_ne _ (by decide),
      PyDict.get?_put_ne _ (by decide), hcopy]

/-- The first turn begins with the counters of its request. -/
theorem get?_firstTurn (v : TurnValues) (request : Fields) {key : String} (h : key ∈ counterKeys) :
    (turnPayload v.companions request none).get? key.toList = request.get? key.toList := by
  have hapart : key ≠ "session_mode" ∧ key ≠ "conversation_history" ∧ key ∉ classificationKeys := by
    revert key
    decide
  have hstamped : (stampSessionMode (request.put "conversation_history"
      (v.companions.firstHistory (requestGoal request)))).get? key.toList = request.get? key.toList := by
    rw [get?_stampSessionMode _ (Ne.symm hapart.1), PyDict.get?_put_ne _ (Ne.symm hapart.2.1)]
  rw [turnPayload]
  split_ifs
  · exact (PyDict.get?_update_of_eq (get?_putAll _ _ hapart.2.2)).trans hstamped
  · exact hstamped

namespace BatchSession

theorem exact_of_counts {w : Surroundings} {s : BatchSession} {state : AgentState}
    (hchapters : batchChaptersWrittenThisTurn w state = some (s.scheduled : ℤ))
    (hturns : intField w state.inputPayload "batch_auto_turns" = some (s.autoTurns : ℤ)) (h4 : s.scheduled ≤ 4)
    (h8 : s.autoTurns ≤ 8) : s.Exact w state := by
  refine ⟨hchapters, hturns, h4, h8, fun k => ?_, fun c b => ?_⟩
  · rw [isSome_maybeScheduleBatchContinuation hchapters]
    exact and_congr_right fun _ => by omega
  · rw [isSome_prepareAutoBatchTurn hturns]
    exact and_congr_right fun _ => by omega

/-- At the start of a turn the counters are exact where they are zero. -/
theorem exact_zero_iff {w : Surroundings} {state : AgentState} :
    Exact w ⟨some state, 0, 0⟩ state ↔ batchChaptersWrittenThisTurn w state = some 0 ∧
      intField w state.inputPayload "batch_auto_turns" = some 0 :=
  ⟨fun h => ⟨h.chapters, h.turns⟩, fun h => exact_of_counts h.1 h.2 (Nat.zero_le 4) (Nat.zero_le 8)⟩

theorem allowancesExact_some {w : Surroundings} {s : BatchSession} {state : AgentState} (h : s.state = some state) :
    s.AllowancesExact w ↔ s.Exact w state := by
  rw [AllowancesExact, h]
  exact ⟨fun h => h state rfl, fun h state' hstate' => Option.some.inj hstate' ▸ h⟩

theorem user_exact_iff {w : Surroundings} {s : BatchSession} {existing : AgentState} (h : s.Exact w existing)
    {v : TurnValues} {request : Fields} (hdrops : dropsCarryover v.companions existing request)
    {next : AgentState} (hnext : (prepareSessionTurn w (some existing) existing.sessionId false
      (turnPayload v.companions request)).1 = next) :
    Exact w ⟨some next, 0, 0⟩ next ↔ s.scheduled = 0 ∧
      if bringsAutoTurns existing request then intField w request "batch_auto_turns" = some 0
      else s.autoTurns = 0 := by
  have hchapters : batchChaptersWrittenThisTurn w next = some (s.scheduled : ℤ) := by
    rw [← h.chapters, ← hnext]
    exact intField_congr w (get?_chapters w v existing request hdrops)
  have hturns := get?_autoTurns w v existing request hdrops
  rw [hnext] at hturns
  rw [exact_zero_iff, hchapters, Option.some.injEq, Int.natCast_eq_zero]
  refine and_congr_right fun _ => ?_
  split_ifs with hbrings
  · rw [if_pos hbrings] at hturns
    rw [intField_congr w hturns]
  · rw [if_neg hbrings] at hturns
    rw [intField_congr w hturns, h.turns, Option.some.injEq, Int.natCast_eq_zero]

theorem auto_exact_iff {w : Surroundings} {s : BatchSession} {existing next : AgentState} (h : s.Exact w existing)
    {c : Companions} {b : Batch} (hnext : prepareAutoBatchTurn c w b existing = some next) :
    Exact w ⟨some next, 0, s.autoTurns + 1⟩ next ↔ s.scheduled = 0 := by
  obtain ⟨hturns, hkept⟩ := prepareAutoBatchTurn_counts h.turns hnext
  have hchapters : batchChaptersWrittenThisTurn w next = some (s.scheduled : ℤ) := by
    rw [← h.chapters]
    exact intField_congr w hkept
  have h8 : s.autoTurns < 8 := ((h.resumes c b).1 (by rw [hnext]; rfl)).2
  constructor
  · intro hexact
    have := hexact.chapters
    rw [hchapters, Option.some.injEq] at this
    exact Int.natCast_eq_zero.1 this
  · intro hzero
    refine exact_of_counts ?_ hturns (Nat.zero_le 4) h8
    rw [hchapters, hzero]

theorem continuation_exact {w : Surroundings} {s : BatchSession} {existing next : AgentState}
    (h : s.Exact w existing) {k : Continuation} (hnext : maybeScheduleBatchContinuation w k existing = some next) :
    Exact w ⟨some next, s.scheduled + 1, s.autoTurns⟩ next := by
  obtain ⟨hchapters, hkept⟩ := maybeScheduleBatchContinuation_counts h.chapters hnext
  have h4 : s.scheduled < 4 := ((h.continues k).1 (by rw [hnext]; rfl)).2
  refine exact_of_counts hchapters ?_ h4 h.atMostTurns
  rw [intField_congr w hkept, h.turns]

/-- A step keeps the allowances exact just where it begins clean. -/
theorem step_exact_iff {w : Surroundings} {s : BatchSession} (h : s.AllowancesExact w) (sessionId : Text)
    (e : BatchEvent) : (s.step w sessionId e).AllowancesExact w ↔ s.BeginsClean w e := by
  cases e with
  | user v request =>
    rw [step, userTurn, BeginsClean]
    cases hstate : s.state with
    | none =>
      have hfirst : ∀ key ∈ counterKeys, intField w (turnPayload v.companions request none) key =
          intField w request key := fun key hkey => intField_congr w (get?_firstTurn v request hkey)
      dsimp only
      rw [allowancesExact_some rfl, exact_zero_iff, batchChaptersWrittenThisTurn]
      simp only [prepareSessionTurn, Option.filter_none, createInitialState, counterKeys, List.forall_mem_cons,
        List.not_mem_nil, false_implies, implies_true, and_true, hfirst "writing_batch_chapters_written" (by decide),
        hfirst "batch_auto_turns" (by decide)]
    | some existing =>
      have hexact := (allowancesExact_some hstate).1 h
      dsimp only
      by_cases hdrops : dropsCarryover v.companions existing request
      · rw [if_pos hdrops, allowancesExact_some rfl, user_exact_iff hexact hdrops rfl]
        exact ⟨fun h _ => h, fun h => h hdrops⟩
      · rw [if_neg hdrops]
        exact ⟨fun _ hdrops' => absurd hdrops' hdrops, fun _ => h⟩
  | continuation k =>
    rw [step, BeginsClean, iff_true]
    split
    · next next hnext =>
      obtain ⟨existing, hstate, hnext⟩ := Option.bind_eq_some_iff.1 hnext
      exact (allowancesExact_some rfl).2 (continuation_exact (h existing hstate) hnext)
    · exact h
  | auto v b =>
    rw [step, BeginsClean]
    cases hstate : s.state with
    | none => exact ⟨fun _ hready => (Bool.false_ne_true hready).elim, fun _ => h⟩
    | some existing =>
      have hexact := h existing hstate
      rw [Option.bind_some, Option.any_some]
      split
      · next next hnext =>
        obtain ⟨hready, hroom⟩ := (hexact.resumes v.companions b).1 (by rw [hnext]; rfl)
        rw [allowancesExact_some rfl, auto_exact_iff hexact hnext]
        exact ⟨fun h _ _ => h, fun h => h hready hroom⟩
      · next hnone =>
        refine ⟨fun _ hready hroom => ?_, fun _ => h⟩
        have hsome := (hexact.resumes v.companions b).2 ⟨hready, hroom⟩
        rw [hnone] at hsome
        cases hsome
  | graph next =>
    rw [step, BeginsClean, iff_true]
    split_ifs with hsame
    · obtain ⟨existing, hstate, hsame⟩ := (Option.any_eq_true _ _).1 hsame
      have hexact := h existing hstate
      simp only [sameCounters, counterKeys, List.all_cons, List.all_nil, Bool.and_true, Bool.and_eq_true,
        decide_eq_true_eq] at hsame
      refine (allowancesExact_some rfl).2 (exact_of_counts ?_ ?_ hexact.atMostChapters hexact.atMostTurns)
      · rw [← hexact.chapters]
        exact intField_congr w hsame.1
      · rw [intField_congr w hsame.2, hexact.turns]
    · exact h

/-- ALLOWANCES: in a run of a session the counters are exact at every step exactly when every turn begins
    where they are zero already. -/
theorem allowances_iff (w : Surroundings) (sessionId : Text) (trace : List BatchEvent) :
    Along (step w sessionId) (fun s e => (s.step w sessionId e).AllowancesExact w) {} trace ↔
      Along (step w sessionId) (BeginsClean w) {} trace :=
  along_iff (fun _ e h => step_exact_iff h sessionId e) (fun _ e h hclean => (step_exact_iff h sessionId e).2 hclean)
    trace _ fun _ h => by cases h

/-- A message that a chapter is written for. -/
def writeChapter : Fields :=
  (PyDict.empty.put "goal" (.str "写".toList)).put "writing_intent" (.other "\x7b'enabled': True\x7d".toList true)

/-- The second of three chapters comes next. -/
def nextChapter : Continuation where
  enabled := fun _ => true
  batchIntent := fun intent => intent
  bodyWritten := true
  project := some { nextChapter := 2, targetChapter := 3 }
  targetChapter := fun _ => none
  playbook := fun _ => some ⟨fun params => params, .other "[]".toList false⟩

/-- Companions that write nothing. -/
def noValues : TurnValues where
  history := fun _ _ => .other "[]".toList false
  confirmed := fun _ _ => none
  stamped := fun _ _ _ _ _ => none
  sourceInquiry := fun _ _ => false
  goalLooksLikeConfirmOnly := fun _ => false
  turnHistory := fun _ _ => .other "[]".toList false
  firstHistory := fun _ => .other "[]".toList false
  classified := fun _ _ => none

/-- After a continuation the user's next turn begins with one chapter counted. -/
theorem chapters_survive :
    let w : Surroundings := { digit := fun _ => none }
    let message : BatchEvent := .user noValues writeChapter
    ¬ (run (step w "t1".toList) {} [message, .continuation nextChapter, message]).AllowancesExact w := by
  intro w message hexact
  rw [run_cons, run_cons, run_cons, run_nil] at hexact
  have hrun : (step w "t1".toList (step w "t1".toList {} message) (.continuation nextChapter)).scheduled = 1 ∧
      (step w "t1".toList (step w "t1".toList {} message) (.continuation nextChapter)).state.any
        (dropsCarryover noValues.companions · writeChapter) := by
    decide +kernel
  have hclean : BeginsClean w {} message := by
    change ∀ key ∈ counterKeys, intField w writeChapter key = some 0
    decide +kernel
  have hfirst : (step w "t1".toList {} message).AllowancesExact w :=
    (step_exact_iff (fun _ h => by cases h) _ _).2 hclean
  generalize step w "t1".toList {} message = s at *
  have hsecond := (step_exact_iff hfirst "t1".toList (.continuation nextChapter)).2 trivial
  generalize step w "t1".toList s (.continuation nextChapter) = s at *
  obtain ⟨hscheduled, hdrops⟩ := hrun
  obtain ⟨existing, hstate, hdrops⟩ := (Option.any_eq_true _ _).1 hdrops
  have hthird := (step_exact_iff hsecond "t1".toList message).1 hexact
  rw [BeginsClean, hstate] at hthird
  have hzero := (hthird hdrops).1
  omega

end BatchSession
end AgentLangraph.Run
