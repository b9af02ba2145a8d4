import AgentLangraph.Run.Turn

/-! What a new turn does to the payload of the turn before (`writing_turn_reset.py`, the helpers of
    `reasoning_shortcut.py` and `writing_batch.py`). The helpers pop keys from a copy of the payload;
    `merge_state` then merges the copy into the old payload key by key, where a key that is only
    missing from the copy stays. -/

namespace AgentLangraph.Run
open PyText Session

/-- `for key in keys: out.pop(key, None)`. -/
def popAll (payload : Fields) (keys : List String) : Fields := keys.foldl PyDict.pop payload

/-- `_TURN_CARRYOVER_POP`. -/
def turnCarryoverPop : List String := ["skip_reasoning_after_tools", "route_audit_replan_feedback"]

/-- `clear_turn_carryover`. -/
def clearTurnCarryover (payload : Fields) : Fields :=
  (popAll payload turnCarryoverPop).put "skip_reasoning_after_tools" (.bool false)

/-- The keys that `reset_batch_turn_counter` pops. -/
def batchCounterKeys (payload : Fields) : List String :=
  if (payload.field "auto_batch_resume").truthy then ["writing_batch_chapters_written"]
  else ["writing_batch_chapters_written", "batch_auto_turns"]

def resetBatchTurnCounter (payload : Fields) : Fields := popAll payload (batchCounterKeys payload)

/-- The keys that `clear_writing_operator_carryover` pops after the counter. -/
def writingCarryoverKeys : List String :=
  ["writing_operator", "thin_execution_profile", "force_write_after_reads",
    "force_edit_after_reads", "route_audit_replan_feedback"]

def clearWritingOperatorCarryover (payload : Fields) : Fields :=
  popAll (resetBatchTurnCounter payload) writingCarryoverKeys

/-- `stamp_session_mode`. -/
def stampSessionMode (payload : Fields) : Fields :=
  if (payload.field "session_mode").truthy then payload
  else if (payload.field "mission").truthy ∨ textField payload "execution_mode" = "mission".toList then
    payload.put "session_mode" (.str "mission".toList)
  else payload.put "session_mode" (.str "chat".toList)

/-- `payload.get("goal") or payload.get("query") or payload.get("question") or ""`, stripped. -/
def requestGoal (payload : Fields) : Text :=
  strip ((((payload.field "goal").orElse (payload.field "query")).orElse
    (payload.field "question")).orElse (.str [])).toText

/-- What the preparation of a turn makes of the request by other means: the histories, the pending
    delivery that a confirmation restores, the policy of the turn and its classification. -/
structure Companions where
  history : AgentState → Text → PyVal
  applyConfirmPendingDelivery : AgentState → Fields → Fields
  stampTurnPolicyAndClassification : AgentState → Fields → Text → Fields → Fields
  goalLooksLikeConfirmOnly : Text → Bool
  turnHistory : AgentState → Fields → PyVal
  firstHistory : Text → PyVal
  stampInboundClassification : Fields → Fields

variable (c : Companions)

/-- The payload of `build_inbound_merged_payload` before the writing fields are dropped. -/
def inboundPayload (existing : AgentState) (payload : Fields) : Fields :=
  let merged := (existing.inputPayload.update payload).put "conversation_history"
    (c.history existing (requestGoal payload))
  let merged := c.applyConfirmPendingDelivery existing merged
  if requestGoal merged ≠ [] then
    c.stampTurnPolicyAndClassification existing merged (requestGoal merged) payload
  else if (merged.field "goal").truthy then merged
  else merged.put "goal" (.str (textField existing.inputPayload "goal"))

/-- The goal is a new one, and nothing is being confirmed. -/
def dropsCarryover (existing : AgentState) (payload : Fields) : Bool :=
  let confirmed := c.applyConfirmPendingDelivery existing
    ((existing.inputPayload.update payload).put "conversation_history"
      (c.history existing (requestGoal payload)))
  requestGoal confirmed != [] && !c.goalLooksLikeConfirmOnly (requestGoal confirmed) &&
    !((inboundPayload c existing payload).field "confirm").truthy

def buildInboundMergedPayload (existing : AgentState) (payload : Fields) : Fields :=
  if dropsCarryover c existing payload then
    clearWritingOperatorCarryover (inboundPayload c existing payload)
  else inboundPayload c existing payload

/-- What `prepare_session_turn` makes of the request, for a continued session and for a new one. -/
def turnPayload (payload : Fields) : Option AgentState → Fields
  | some existing =>
    let merged := stampSessionMode (buildInboundMergedPayload c existing payload)
    clearTurnCarryover (merged.put "conversation_history" (c.turnHistory existing merged))
  | none =>
    let stamped := stampSessionMode
      (payload.put "conversation_history" (c.firstHistory (requestGoal payload)))
    if requestGoal payload ≠ [] then stamped.update (c.stampInboundClassification stamped)
    else stamped

/-- The keys that the helpers remove for a continued session, and do not set again. -/
def removedKeys (existing : AgentState) (payload : Fields) : List String :=
  "route_audit_replan_feedback" ::
    if dropsCarryover c existing payload then
      batchCounterKeys (inboundPayload c existing payload) ++ writingCarryoverKeys
    else []

/-! ### The turn that continues a batch -/

/-- The fields of a `WritingProject` that the batch looks at. -/
structure WritingProject where
  nextChapter : ℕ := 1
  targetChapter : ℤ := 0
  currentChapterIncomplete : Bool := false

def batchHasRemaining (p : WritingProject) : Bool :=
  if p.targetChapter ≤ 0 then false
  else if p.currentChapterIncomplete then true
  else decide ((p.nextChapter : ℤ) ≤ p.targetChapter)

/-- What the batch turn takes from elsewhere: the project, the goal of the pending batch, and the
    history with the automatic goal. -/
structure Batch where
  project : Option WritingProject
  pendingGoal : PyVal
  history : Text → PyVal

def shouldAutoContinueBatch (b : Batch) (s : AgentState) : Bool :=
  (s.inputPayload.field "pending_batch_continuation").truthy && s.status == .completed &&
    b.project.any batchHasRemaining

def autoGoal (p : WritingProject) : Text :=
  if p.targetChapter = 0 then "继续写作（自动续章）".toList
  else "继续写作（自动续章）（第".toList ++ (toString p.nextChapter).toList ++ "章，目标第".toList ++
    (toString p.targetChapter).toList ++ "章）".toList

/-- The payload of the automatic turn. -/
def autoBatchPayload (b : Batch) (p : WritingProject) (autoTurns : ℤ) (payload : Fields) : Fields :=
  let goal := strip ((b.pendingGoal.orElse (payload.field "goal")).orElse (.str [])).toText
  let out := (resetBatchTurnCounter payload).pop "pending_batch_continuation"
  let out := ((out.put "goal" (.str (autoGoal p))).put "query" (.str (autoGoal p))).put "message"
    (.str (autoGoal p))
  let out := (out.put "writing_operator" (.str "append".toList)).put "writing_intent"
    (.other "\x7b'enabled': True, 'source': 'writing_batch_auto'\x7d".toList true)
  let out := (out.put "force_write_after_reads" (.bool true)).put "thin_execution_profile"
    (.str "writing_batch".toList)
  let out := (out.put "skip_retrieval" (.bool true)).put "auto_batch_resume" (.bool true)
  let out := (out.put "batch_resume_goal" (.str goal)).put "batch_auto_turns" (.int (autoTurns + 1))
  out.put "conversation_history" (b.history (autoGoal p))

/-- `prepare_auto_batch_turn`; nothing also where `int` raises. -/
def prepareAutoBatchTurn (w : Surroundings) (b : Batch) (s : AgentState) : Option AgentState :=
  if !shouldAutoContinueBatch b s then none
  else
    match intField w s.inputPayload "batch_auto_turns", b.project with
    | some autoTurns, some p =>
      if 8 ≤ autoTurns then none
      else
        let payload := autoBatchPayload b p autoTurns s.inputPayload
        let reset := resetExecutionFields s
          (clearTurnCarryover (payload.put "conversation_history" (c.turnHistory s payload)))
        some { reset with
          sessionTurn := some (match s.sessionTurn with
            | none => 2
            | some n => if n = 0 then 2 else n + 1)
          status := .planned
          currentNode := "incremental_planning".toList }
    | _, _ => none

/-- The keys that are removed for the automatic turn, and not set again. -/
def autoRemovedKeys : List String :=
  ["pending_batch_continuation", "writing_batch_chapters_written", "route_audit_replan_feedback"]

variable {c}

/-! ### What the helpers remove -/

theorem popAll_sub : ∀ (keys : List String) (payload : Fields), (popAll payload keys).Sub payload
  | [], payload => .refl payload
  | key :: keys, payload => (popAll_sub keys (payload.pop key)).trans (PyDict.pop_sub payload key)

theorem get?_popAll : ∀ {keys : List String} {key : String} (payload : Fields), key ∈ keys →
    (popAll payload keys).get? key.toList = none
  | k :: keys, key, payload, h => by
      rcases List.mem_cons.1 h with rfl | h
      · exact (popAll_sub keys _).get?_none (PyDict.get?_erase_self payload key.toList)
      · exact get?_popAll (payload.pop k) h

theorem get?_stampSessionMode (payload : Fields) {key : String} (h : "session_mode" ≠ key) :
    (stampSessionMode payload).get? key.toList = payload.get? key.toList := by
  rw [stampSessionMode]
  split_ifs
  · rfl
  · exact PyDict.get?_put_ne _ h _
  · exact PyDict.get?_put_ne _ h _

/-- What the payload has lost, and what it loses here, is gone. -/
theorem get?_clearTurnCarryover {payload : Fields} {key : String}
    (hne : "skip_reasoning_after_tools" ≠ key)
    (h : payload.get? key.toList = none ∨ key = "route_audit_replan_feedback") :
    (clearTurnCarryover payload).get? key.toList = none := by
  rw [clearTurnCarryover, PyDict.get?_put_ne _ hne]
  rcases h with h | rfl
  · exact (popAll_sub _ _).get?_none h
  · exact get?_popAll payload (by decide)

theorem get?_clearWritingOperatorCarryover {payload : Fields} {key : String}
    (h : key ∈ batchCounterKeys payload ++ writingCarryoverKeys) :
    (clearWritingOperatorCarryover payload).get? key.toList = none := by
  rcases List.mem_append.1 h with h | h
  · exact (popAll_sub _ _).get?_none (get?_popAll payload h)
  · exact get?_popAll _ h

theorem batchCounterKeys_subset (payload : Fields) :
    batchCounterKeys payload ⊆ ["writing_batch_chapters_written", "batch_auto_turns"] := by
  rw [batchCounterKeys]
  split_ifs
  · simp
  · exact List.Subset.refl _

/-- Nothing that is written later is one of the keys that are removed. -/
theorem removedKeys_apart {existing : AgentState} {payload : Fields} {key : String}
    (h : key ∈ removedKeys c existing payload) :
    key ∉ ["session_mode", "conversation_history", "skip_reasoning_after_tools"] ∧
      key ∉ "fsm_state" :: gateKeys := by
  have hall : ∀ key ∈ "route_audit_replan_feedback" ::
      (["writing_batch_chapters_written", "batch_auto_turns"] ++ writingCarryoverKeys),
      key ∉ ["session_mode", "conversation_history", "skip_reasoning_after_tools"] ∧
        key ∉ "fsm_state" :: gateKeys := by decide
  refine hall key ?_
  rw [removedKeys, List.mem_cons] at h
  rw [List.mem_cons, List.mem_append]
  refine h.imp_right fun h => ?_
  split_ifs at h
  · exact (List.mem_append.1 h).imp_left fun h => batchCounterKeys_subset _ h
  · cases h

theorem get?_turnPayload {existing : AgentState} {payload : Fields} {key : String}
    (h : key ∈ removedKeys c existing payload) :
    (turnPayload c payload (some existing)).get? key.toList = none := by
  have hapart := (removedKeys_apart h).1
  simp only [List.mem_cons, List.not_mem_nil, or_false, not_or] at hapart
  refine get?_clearTurnCarryover (Ne.symm hapart.2.2) ?_
  rcases List.mem_cons.1 h with rfl | h
  · exact Or.inr rfl
  · left
    rw [PyDict.get?_put_ne _ (Ne.symm hapart.2.1), get?_stampSessionMode _ (Ne.symm hapart.1),
      buildInboundMergedPayload]
    split_ifs at h ⊢
    · exact get?_clearWritingOperatorCarryover h
    · cases h

/-! ### What comes back -/

theorem inputPayload_resetExecutionFields (s : AgentState) (payload : Fields) :
    (resetExecutionFields s payload).inputPayload = s.inputPayload.update payload := rfl

/-- What the copy lacks is in the merged payload as it was in the old one. -/
theorem get?_resetExecutionFields (s : AgentState) {payload : Fields} {key : String}
    (h : payload.get? key.toList = none) :
    (resetExecutionFields s payload).inputPayload.get? key.toList =
      s.inputPayload.get? key.toList := PyDict.get?_update_of_none h

/-- A key that is removed is in the payload of the new turn as it was in that of the old one. -/
theorem get?_prepareSessionTurn (w : Surroundings) (existing : AgentState) (payload : Fields)
    {key : String} (h : key ∈ removedKeys c existing payload) :
    (prepareSessionTurn w (some existing) existing.sessionId false
      (turnPayload c payload)).1.inputPayload.get? key.toList =
        existing.inputPayload.get? key.toList := by
  rw [prepareSessionTurn_of_session w rfl, get?_syncFsmState w _ (removedKeys_apart h).2]
  exact get?_resetExecutionFields existing (get?_turnPayload h)

theorem get?_autoBatchPayload (b : Batch) (p : WritingProject) (autoTurns : ℤ) (payload : Fields)
    {key : String} (h : key ∈ autoRemovedKeys) (hne : key ≠ "route_audit_replan_feedback") :
    (autoBatchPayload b p autoTurns payload).get? key.toList = none := by
  simp only [autoRemovedKeys, List.mem_cons, List.not_mem_nil, or_false, hne] at h
  rcases h with rfl | rfl
  · simp (disch := decide) only [autoBatchPayload, PyDict.get?_put_ne]
    exact PyDict.get?_erase_self _ _
  · simp (disch := decide) only [autoBatchPayload, PyDict.get?_put_ne, PyDict.get?_pop_ne]
    refine get?_popAll payload ?_
    rw [batchCounterKeys]
    split_ifs <;> decide

/-- An automatic turn is prepared for a pending batch, and merges its payload into that of the turn
    before. -/
theorem prepareAutoBatchTurn_eq_some {w : Surroundings} {b : Batch} {s s' : AgentState}
    (h : prepareAutoBatchTurn c w b s = some s') :
    shouldAutoContinueBatch b s ∧ ∃ p autoTurns history, s'.inputPayload = s.inputPayload.update
      (clearTurnCarryover ((autoBatchPayload b p autoTurns s.inputPayload).put
        "conversation_history" history)) := by
  rw [prepareAutoBatchTurn] at h
  split_ifs at h with hready
  cases hturns : intField w s.inputPayload "batch_auto_turns" with
  | none => simp [hturns] at h
  | some autoTurns =>
    cases hproject : b.project with
    | none => simp [hturns, hproject] at h
    | some p =>
      simp only [hturns, hproject] at h
      split_ifs at h
      rw [Option.some.injEq] at h
      refine ⟨by simpa using hready, p, autoTurns,
        c.turnHistory s (autoBatchPayload b p autoTurns s.inputPayload), ?_⟩
      rw [← h, ← inputPayload_resetExecutionFields]

/-- The same for the automatic turn; the pending batch, without which there is none, is there. -/
theorem prepareAutoBatchTurn_keeps {w : Surroundings} {b : Batch} {s s' : AgentState}
    (h : prepareAutoBatchTurn c w b s = some s') :
    s.inputPayload.has "pending_batch_continuation" ∧
      ∀ key ∈ autoRemovedKeys, s'.inputPayload.get? key.toList = s.inputPayload.get? key.toList := by
  obtain ⟨hready, p, autoTurns, history, hpayload⟩ := prepareAutoBatchTurn_eq_some h
  simp only [shouldAutoContinueBatch, Bool.and_eq_true] at hready
  refine ⟨PyDict.has_of_truthy hready.1.1, fun key hkey => ?_⟩
  have hapart : key ≠ "skip_reasoning_after_tools" ∧ key ≠ "conversation_history" := by
    clear hpayload
    revert key
    decide
  rw [hpayload]
  refine PyDict.get?_update_of_none (get?_clearTurnCarryover (Ne.symm hapart.1) ?_)
  rw [or_iff_not_imp_right]
  intro hne
  rw [PyDict.get?_put_ne _ (Ne.symm hapart.2), get?_autoBatchPayload b p autoTurns _ hkey hne]

/-- A new turn of a session has none of the keys that the helpers remove exactly when the turn before
    had none of them; an automatic turn always has one. -/
theorem reset_iff (c : Companions) (w : Surroundings) :
    (∀ (existing : AgentState) (payload : Fields),
      (∀ key ∈ removedKeys c existing payload,
        (prepareSessionTurn w (some existing) existing.sessionId false
          (turnPayload c payload)).1.inputPayload.has key = false) ↔
      ∀ key ∈ removedKeys c existing payload, existing.inputPayload.has key = false) ∧
    ∀ (b : Batch) (s s' : AgentState), prepareAutoBatchTurn c w b s = some s' →
      ¬ ∀ key ∈ autoRemovedKeys, s'.inputPayload.has key = false := by
  constructor
  · intro existing payload
    refine forall₂_congr fun key hkey => ?_
    rw [PyDict.has, PyDict.has, get?_prepareSessionTurn w existing payload hkey]
  · intro b s s' hs' hnone
    obtain ⟨hpending, hkeeps⟩ := prepareAutoBatchTurn_keeps hs'
    have hmem : "pending_batch_continuation" ∈ autoRemovedKeys := by decide
    have hgone := hnone _ hmem
    rw [PyDict.has, hkeeps _ hmem] at hgone
    rw [PyDict.has, hgone] at hpending
    cases hpending

/-- Companions that add nothing of their own. -/
def plain : Companions where
  history := fun _ _ => .other "[]".toList false
  applyConfirmPendingDelivery := fun _ merged => merged
  stampTurnPolicyAndClassification := fun _ merged _ _ => merged
  goalLooksLikeConfirmOnly := fun _ => false
  turnHistory := fun _ _ => .other "[]".toList false
  firstHistory := fun _ => .other "[]".toList false
  stampInboundClassification := fun payload => payload

def afterReplan : AgentState where
  taskId := "t1".toList
  sessionId := "t1".toList
  status := .completed
  sessionTurn := some 1
  inputPayload := PyDict.empty.put "route_audit_replan_feedback" (.str "feedback".toList)

/-- The feedback of a replan is still there in the next turn. -/
theorem feedback_survives :
    "route_audit_replan_feedback" ∈
        removedKeys plain afterReplan (PyDict.empty.put "goal" (.str "hello".toList)) ∧
      (prepareSessionTurn { digit := fun _ => none } (some afterReplan) afterReplan.sessionId false
        (turnPayload plain (PyDict.empty.put "goal" (.str "hello".toList)))).1.inputPayload.has
          "route_audit_replan_feedback" = true := by
  refine ⟨List.mem_cons_self, ?_⟩
  rw [PyDict.has, get?_prepareSessionTurn _ _ _ List.mem_cons_self]
  decide

end AgentLangraph.Run
