import AgentLangraph.Session.State

/-! The session state machine (`session_fsm.py`) and the guard that runs before every save
    (`invariant_guard.py`). `fsm_state` is stored in the payload and recomputed from the gates and
    the run registry; nothing here ever changes the status of the task. -/

namespace AgentLangraph.Session
open PyText

inductive FsmState
  | idle | running | replanning | waitingUser
  deriving DecidableEq

def FsmState.name : FsmState → Text
  | .idle => "IDLE".toList
  | .running => "RUNNING".toList
  | .replanning => "REPLANNING".toList
  | .waitingUser => "WAITING_USER".toList

/-- `raw in VALID_FSM_STATES`. -/
def fsmStateOf (raw : PyVal) : Option FsmState :=
  [FsmState.idle, .running, .replanning, .waitingUser].find? fun f => raw = .str f.name

/-- `_explicit_fsm_state`. -/
def explicitFsmState (s : AgentState) : Option FsmState :=
  fsmStateOf ((s.inputPayload.field "fsm_state").orElse (s.extras.field "fsm_state"))

/-- `contract_replan_required`. -/
def contractReplanRequired (payload : Fields) : Bool :=
  (payload.field "require_planning_after_contract_invalidation").truthy

/-- `_legacy_replan_pending`. -/
def legacyReplanPending (s : AgentState) : Bool :=
  contractReplanRequired s.inputPayload ||
    (s.inputPayload.field "require_planning_after_steer").truthy &&
      !(s.inputPayload.field "steer_planning_done").truthy ||
    (s.inputPayload.field "foreground_replan_dispatch").truthy

/-- `is_graph_run_active(task_id, run_id)` for a run id that is not empty. -/
def isGraphRunActive (w : Surroundings) (runId : Text) : Bool := w.activeRun == some runId

/-- `_active_graph_run`. -/
def activeGraphRun (w : Surroundings) (s : AgentState) : Bool :=
  match s.executionRun with
  | none => false
  | some run =>
    !(run.field "cancelled").truthy && textField run "run_id" != [] && s.taskId != [] &&
      isGraphRunActive w (textField run "run_id")

/-- `derive_fsm_from_legacy`. -/
def deriveFsmFromLegacy (w : Surroundings) (s : AgentState) : FsmState :=
  if s.reviewRequired then .waitingUser
  else if legacyReplanPending s then .replanning
  else if activeGraphRun w s then .running
  else .idle

def getFsmState (w : Surroundings) (s : AgentState) : FsmState :=
  (explicitFsmState s).getD (deriveFsmFromLegacy w s)

def setFsmState (s : AgentState) (f : FsmState) : AgentState :=
  (s.mergePayload (s.inputPayload.put "fsm_state" (.str f.name))).mergeExtra "fsm_state"
    (.str f.name)

/-- The record of a retired turn contract, as far as it differs from one time to the next. -/
def invalidationRecord (now : Text) : PyVal :=
  .other ("\x7b'at': '".toList ++ now ++ "', 'reason': 'steer'\x7d".toList) true

/-- `apply_replan_gate`: the turn contract is retired. -/
def applyReplanGate (now : Text) (payload : Fields) : Fields :=
  let out := ((((payload.clear "turn_contract").clear "selected_tools").clear "tool_params").clear
    "tool_stages")
  let out := out.put "require_planning_after_contract_invalidation" (.bool true)
  let out := out.put "turn_contract_invalidation" (invalidationRecord now)
  let out := out.put "require_planning_after_steer" (.bool true)
  let out := out.put "steer_planning_done" (.bool false)
  out.pop "skip_planning_llm"

/-- The payload that `sync_legacy_flags_from_fsm` merges in each state. -/
def legacyFlagsOf (now : Text) (payload : Fields) : FsmState → Fields
  | .replanning =>
    if (payload.field "require_planning_after_steer").truthy then payload
    else applyReplanGate now payload
  | .running => payload.pop "foreground_replan_dispatch"
  | .idle =>
    if (payload.field "steer_planning_done").truthy then
      ((payload.pop "require_planning_after_steer").pop "foreground_replan_dispatch").pop
        "pending_replan"
    else payload
  | .waitingUser => payload

/-- `sync_legacy_flags_from_fsm`. What is only popped comes back in the merge. -/
def syncLegacyFlagsFromFsm (w : Surroundings) (s : AgentState) : AgentState :=
  if legacyFlagsOf w.now s.inputPayload (getFsmState w s) ≠ s.inputPayload then
    s.mergePayload (legacyFlagsOf w.now s.inputPayload (getFsmState w s))
  else s

/-- The state `sync_fsm_state` writes. -/
def syncedFsmState (w : Surroundings) (s : AgentState) : FsmState :=
  let derived := deriveFsmFromLegacy w s
  if derived = .replanning ∨ derived = .waitingUser then derived
  else
    match fsmStateOf (s.inputPayload.field "fsm_state") with
    | some current =>
      if current = .running ∧ derived = .idle ∧ (s.status.endsFailed ∨ s.status = .cancelled) then
        .idle
      else current
    | none => derived

def stampFsmState (s : AgentState) (current : FsmState) : AgentState :=
  if s.inputPayload.field "fsm_state" ≠ .str current.name then setFsmState s current
  else s.mergeExtra "fsm_state" (.str current.name)

def syncFsmState (w : Surroundings) (s : AgentState) : AgentState :=
  syncLegacyFlagsFromFsm w (stampFsmState s (syncedFsmState w s))

/-- `transition_fsm`. -/
def transitionFsm (w : Surroundings) (s : AgentState) (f : FsmState) : AgentState :=
  let updated := setFsmState s f
  match f with
  | .replanning =>
    if (updated.inputPayload.field "require_planning_after_steer").truthy then updated
    else updated.mergePayload (applyReplanGate w.now updated.inputPayload)
  | .running => updated.mergePayload (updated.inputPayload.pop "foreground_replan_dispatch")
  | _ => updated

/-! ### The guard -/

inductive SaveError
  /-- `InvariantViolation`, with its id and message. -/
  | invariantViolation (id message : Text)
  /-- `int` of something that is no number. -/
  | valueError
  deriving DecidableEq

/-- The issues of a synchronised state, in the order in which they are found. -/
def issues (w : Surroundings) (s : AgentState) : List (Text × Text) :=
  let fsm := getFsmState w s
  (if legacyReplanPending s ∧ fsm ≠ .replanning ∧ fsm ≠ .waitingUser then
    [("I1".toList, "legacy replan pending but fsm_state=".toList ++ fsm.name)] else []) ++
  (if fsm = .replanning ∧ s.status = .running ∧ (s.inputPayload.field "execution_grant").truthy ∧
      ¬ (s.inputPayload.field "foreground_replan_dispatch").truthy then
    [("I3".toList, "REPLANNING with execution_grant without dispatch".toList)] else [])

/-- A synchronised state is refused or, outside strict mode, made to wait for the user. -/
def guardIssues (w : Surroundings) (s : AgentState) : Except SaveError AgentState :=
  match issues w s with
  | [] => .ok s
  | (id, message) :: _ =>
    if w.strict then .error (.invariantViolation id message) else .ok (setFsmState s .waitingUser)

/-- `validate`. -/
def validate (w : Surroundings) (s : AgentState) : Except SaveError AgentState :=
  guardIssues w (syncFsmState w s)

/-- `validate_session_snapshot`: of its four fields only the revision can be malformed. -/
def validateSessionSnapshot (w : Surroundings) (s : AgentState) : Except SaveError Unit :=
  match intField w s.inputPayload "intent_revision" with
  | some _ => .ok ()
  | none => .error .valueError

/-! ### What synchronising never touches -/

/-- The fields that the state machine only carries along. -/
structure Untouched (s s' : AgentState) : Prop where
  status : s'.status = s.status
  sessionTurn : s'.sessionTurn = s.sessionTurn
  executionRun : s'.executionRun = s.executionRun
  interruptContext : s'.interruptContext = s.interruptContext
  revision : s'.inputPayload.field "intent_revision" = s.inputPayload.field "intent_revision"

theorem Untouched.refl (s : AgentState) : Untouched s s := ⟨rfl, rfl, rfl, rfl, rfl⟩

theorem Untouched.trans {s₁ s₂ s₃ : AgentState} (h : Untouched s₁ s₂) (h' : Untouched s₂ s₃) :
    Untouched s₁ s₃ :=
  ⟨h'.status.trans h.status, h'.sessionTurn.trans h.sessionTurn,
    h'.executionRun.trans h.executionRun, h'.interruptContext.trans h.interruptContext,
    h'.revision.trans h.revision⟩

theorem untouched_mergePayload {s : AgentState} {payload : Fields}
    (h : payload.field "intent_revision" = s.inputPayload.field "intent_revision") :
    Untouched s (s.mergePayload payload) :=
  ⟨rfl, rfl, rfl, rfl, PyDict.field_update_of_eq h⟩

theorem untouched_mergeExtra (s : AgentState) (key : String) (v : PyVal) :
    Untouched s (s.mergeExtra key v) := ⟨rfl, rfl, rfl, rfl, rfl⟩

theorem untouched_setFsmState (s : AgentState) (f : FsmState) : Untouched s (setFsmState s f) :=
  (untouched_mergePayload (PyDict.field_put_ne _ (by decide) _)).trans (untouched_mergeExtra _ _ _)

/-- The keys that the legacy flags are kept in. -/
def gateKeys : List String :=
  ["turn_contract", "selected_tools", "tool_params", "tool_stages",
    "require_planning_after_contract_invalidation", "turn_contract_invalidation",
    "require_planning_after_steer", "steer_planning_done", "skip_planning_llm"]

/-- The replan gate writes its own keys only. -/
theorem get?_applyReplanGate (now : Text) (payload : Fields) {key : String} (h : key ∉ gateKeys) :
    (applyReplanGate now payload).get? key.toList = payload.get? key.toList := by
  simp only [gateKeys, List.mem_cons, List.not_mem_nil, or_false, not_or] at h
  obtain ⟨h₁, h₂, h₃, h₄, h₅, h₆, h₇, h₈, h₉⟩ := h
  rw [applyReplanGate, PyDict.get?_pop_ne _ (Ne.symm h₉), PyDict.get?_put_ne _ (Ne.symm h₈),
    PyDict.get?_put_ne _ (Ne.symm h₇), PyDict.get?_put_ne _ (Ne.symm h₆),
    PyDict.get?_put_ne _ (Ne.symm h₅), PyDict.get?_clear_ne _ (Ne.symm h₄),
    PyDict.get?_clear_ne _ (Ne.symm h₃), PyDict.get?_clear_ne _ (Ne.symm h₂),
    PyDict.get?_clear_ne _ (Ne.symm h₁)]

theorem field_applyReplanGate (now : Text) (payload : Fields) {key : String} (h : key ∉ gateKeys) :
    (applyReplanGate now payload).field key = payload.field key :=
  PyDict.field_congr (get?_applyReplanGate now payload h)

theorem untouched_stampFsmState (s : AgentState) (f : FsmState) :
    Untouched s (stampFsmState s f) := by
  rw [stampFsmState]
  split_ifs
  · exact untouched_setFsmState s f
  · exact untouched_mergeExtra _ _ _

/-- Merged back, the flags have changed no other key. -/
theorem get?_merge_legacyFlagsOf (now : Text) (payload : Fields) (f : FsmState) {key : String}
    (h : f = .replanning → key ∉ gateKeys) :
    (payload.update (legacyFlagsOf now payload f)).get? key.toList = payload.get? key.toList := by
  cases f with
  | replanning =>
    rw [legacyFlagsOf]
    split_ifs
    · exact (PyDict.Sub.refl _).get?_update _
    · exact PyDict.get?_update_of_eq (get?_applyReplanGate _ _ (h rfl))
  | running => exact (PyDict.pop_sub _ _).get?_update _
  | idle =>
    rw [legacyFlagsOf]
    split_ifs
    · exact (((PyDict.pop_sub _ _).trans (PyDict.pop_sub _ _)).trans
        (PyDict.pop_sub _ _)).get?_update _
    · exact (PyDict.Sub.refl _).get?_update _
  | waitingUser => exact (PyDict.Sub.refl _).get?_update _

theorem get?_syncLegacyFlagsFromFsm (w : Surroundings) (s : AgentState) {key : String}
    (h : getFsmState w s = .replanning → key ∉ gateKeys) :
    (syncLegacyFlagsFromFsm w s).inputPayload.get? key.toList = s.inputPayload.get? key.toList := by
  rw [syncLegacyFlagsFromFsm]
  split_ifs
  · exact get?_merge_legacyFlagsOf _ _ _ h
  · rfl

theorem field_syncLegacyFlagsFromFsm (w : Surroundings) (s : AgentState) {key : String}
    (h : getFsmState w s = .replanning → key ∉ gateKeys) :
    (syncLegacyFlagsFromFsm w s).inputPayload.field key = s.inputPayload.field key :=
  PyDict.field_congr (get?_syncLegacyFlagsFromFsm w s h)

theorem untouched_syncLegacyFlagsFromFsm (w : Surroundings) (s : AgentState) :
    Untouched s (syncLegacyFlagsFromFsm w s) := by
  have hrev : (syncLegacyFlagsFromFsm w s).inputPayload.field "intent_revision" =
      s.inputPayload.field "intent_revision" := field_syncLegacyFlagsFromFsm w s fun _ => by decide
  rw [syncLegacyFlagsFromFsm] at hrev ⊢
  split_ifs at hrev ⊢
  · exact ⟨rfl, rfl, rfl, rfl, hrev⟩
  · exact .refl s

theorem untouched_syncFsmState (w : Surroundings) (s : AgentState) :
    Untouched s (syncFsmState w s) :=
  (untouched_stampFsmState s _).trans (untouched_syncLegacyFlagsFromFsm w _)

theorem untouched_transitionFsm (w : Surroundings) (s : AgentState) (f : FsmState) :
    Untouched s (transitionFsm w s f) := by
  have hset := untouched_setFsmState s f
  cases f with
  | replanning =>
    simp only [transitionFsm]
    split_ifs
    · exact hset
    · exact hset.trans (untouched_mergePayload (field_applyReplanGate _ _ (by decide)))
  | running =>
    have hpop : ((setFsmState s .running).inputPayload.pop "foreground_replan_dispatch").field
        "intent_revision" = (setFsmState s .running).inputPayload.field "intent_revision" :=
      PyDict.field_pop_ne _ (by decide)
    exact hset.trans (untouched_mergePayload hpop)
  | idle => exact hset
  | waitingUser => exact hset

theorem guardIssues_untouched {w : Surroundings} {s s' : AgentState}
    (h : guardIssues w s = .ok s') : Untouched s s' := by
  rw [guardIssues] at h
  split at h
  · rw [← Except.ok.inj h]
    exact .refl s
  · split_ifs at h
    rw [← Except.ok.inj h]
    exact untouched_setFsmState s _

theorem validate_untouched {w : Surroundings} {s s' : AgentState} (h : validate w s = .ok s') :
    Untouched s s' := (untouched_syncFsmState w s).trans (guardIssues_untouched h)

/-! ### The guard refuses running states only -/

theorem fsmStateOf_name (f : FsmState) : fsmStateOf (.str f.name) = some f := by
  cases f <;> decide

theorem getFsmState_of_field {w : Surroundings} {s : AgentState} {f : FsmState}
    (h : s.inputPayload.field "fsm_state" = .str f.name) : getFsmState w s = f := by
  have htrue : (PyVal.str f.name).truthy = true := by cases f <;> decide
  rw [getFsmState, explicitFsmState, h, PyVal.orElse, if_pos htrue, fsmStateOf_name]
  rfl

theorem field_stampFsmState (s : AgentState) (f : FsmState) :
    (stampFsmState s f).inputPayload.field "fsm_state" = .str f.name := by
  rw [stampFsmState]
  split_ifs with hne
  · exact PyDict.field_update_put_self _ _ _
  · exact not_not.1 hne

theorem get?_stampFsmState_ne (s : AgentState) (f : FsmState) {key : String}
    (h : "fsm_state" ≠ key) :
    (stampFsmState s f).inputPayload.get? key.toList = s.inputPayload.get? key.toList := by
  rw [stampFsmState]
  split_ifs
  · exact PyDict.get?_update_of_eq (PyDict.get?_put_ne _ h _)
  · rfl

theorem field_stampFsmState_ne (s : AgentState) (f : FsmState) {key : String}
    (h : "fsm_state" ≠ key) :
    (stampFsmState s f).inputPayload.field key = s.inputPayload.field key :=
  PyDict.field_congr (get?_stampFsmState_ne s f h)

/-- Synchronising writes the state and its gates only. -/
theorem get?_syncFsmState (w : Surroundings) (s : AgentState) {key : String}
    (h : key ∉ "fsm_state" :: gateKeys) :
    (syncFsmState w s).inputPayload.get? key.toList = s.inputPayload.get? key.toList := by
  rw [List.mem_cons, not_or] at h
  rw [syncFsmState, get?_syncLegacyFlagsFromFsm w _ fun _ => h.2, get?_stampFsmState_ne _ _ (Ne.symm h.1)]

theorem getFsmState_syncFsmState (w : Surroundings) (s : AgentState) :
    getFsmState w (syncFsmState w s) = syncedFsmState w s := by
  refine getFsmState_of_field ?_
  rw [syncFsmState, field_syncLegacyFlagsFromFsm w _ fun _ => by decide]
  exact field_stampFsmState _ _

theorem extras_syncLegacyFlagsFromFsm (w : Surroundings) (s : AgentState) :
    (syncLegacyFlagsFromFsm w s).extras = s.extras := by
  rw [syncLegacyFlagsFromFsm]
  split_ifs <;> rfl

theorem extras_fsm_syncFsmState (w : Surroundings) (s : AgentState) :
    (syncFsmState w s).extras.get? "fsm_state".toList = some (.str (syncedFsmState w s).name) := by
  rw [syncFsmState, extras_syncLegacyFlagsFromFsm, stampFsmState]
  split_ifs <;> exact PyDict.get?_set_self _ _ _

theorem legacyReplanPending_congr {s s' : AgentState}
    (h : ∀ key ∈ ["require_planning_after_contract_invalidation", "require_planning_after_steer",
      "steer_planning_done", "foreground_replan_dispatch"],
      s'.inputPayload.field key = s.inputPayload.field key) :
    legacyReplanPending s' = legacyReplanPending s := by
  simp only [List.forall_mem_cons] at h
  obtain ⟨h₁, h₂, h₃, h₄, -⟩ := h
  rw [legacyReplanPending, legacyReplanPending, contractReplanRequired, contractReplanRequired, h₁,
    h₂, h₃, h₄]

/-- A pending replan is never synchronised to running or idle. -/
theorem legacyReplanPending_syncFsmState {w : Surroundings} {s : AgentState}
    (h₁ : syncedFsmState w s ≠ .replanning) (h₂ : syncedFsmState w s ≠ .waitingUser) :
    legacyReplanPending (syncFsmState w s) = false := by
  have hderived : ¬ (deriveFsmFromLegacy w s = .replanning ∨
      deriveFsmFromLegacy w s = .waitingUser) := by
    intro hd
    have heq : syncedFsmState w s = deriveFsmFromLegacy w s := by
      rw [syncedFsmState]
      exact if_pos hd
    rw [heq] at h₁ h₂
    exact hd.elim h₁ h₂
  have hbefore : legacyReplanPending s = false := by
    by_contra hpending
    rw [deriveFsmFromLegacy] at hderived
    split_ifs at hderived <;> simp_all
  have hget : getFsmState w (stampFsmState s (syncedFsmState w s)) ≠ .replanning := by
    rwa [getFsmState_of_field (field_stampFsmState s _)]
  rw [← hbefore]
  refine legacyReplanPending_congr fun key hkey => ?_
  have hne : "fsm_state" ≠ key := by
    rintro rfl
    simp at hkey
  rw [syncFsmState, field_syncLegacyFlagsFromFsm w _ fun hr => absurd hr hget,
    field_stampFsmState_ne s _ hne]

/-- Only a running state can be refused or degraded. -/
theorem validate_of_ne_running {w : Surroundings} {s : AgentState} (h : s.status ≠ .running) :
    validate w s = .ok (syncFsmState w s) := by
  have hstatus : (syncFsmState w s).status ≠ .running := by
    rwa [(untouched_syncFsmState w s).status]
  have hnil : issues w (syncFsmState w s) = [] := by
    rw [issues, getFsmState_syncFsmState, if_neg, if_neg]
    · rfl
    · rintro ⟨-, hr, -⟩
      exact hstatus hr
    · rintro ⟨hpending, h₁, h₂⟩
      rw [legacyReplanPending_syncFsmState h₁ h₂] at hpending
      exact absurd hpending (by decide)
  rw [validate, guardIssues, hnil]

end AgentLangraph.Session
