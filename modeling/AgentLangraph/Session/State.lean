import AgentLangraph.Lib.PyVal

/-! The state of a task (`state.py`): its status, its turn, the payload of the request and the
    records of the running graph. The other channels are carried along by every function modelled
    here and read by none; they are left out. Everything is about one task. -/

namespace AgentLangraph.Session
open PyText

inductive TaskStatus
  | new | planned | retrieved | toolExecuted | reasoned | policyChecked | waitingReview
  | reviewResolved | completed | running | paused | rejected | failed | toolFailed | reasonFailed
  | deadLetter | abandoned | cancelled | timedOut
  deriving DecidableEq

/-- `_TERMINAL_PROTECT_STATUSES`. -/
def terminalProtectStatuses : List TaskStatus :=
  [.timedOut, .cancelled, .completed, .deadLetter, .failed, .rejected, .abandoned]

def TaskStatus.Terminal (s : TaskStatus) : Prop := s ∈ terminalProtectStatuses

instance (s : TaskStatus) : Decidable s.Terminal := inferInstanceAs (Decidable (_ ∈ _))

/-- `status.endswith("FAILED")`. -/
def TaskStatus.endsFailed : TaskStatus → Bool
  | .failed | .toolFailed | .reasonFailed => true
  | _ => false

/-- `status.value`. -/
def TaskStatus.value : TaskStatus → Text
  | .new => "NEW".toList
  | .planned => "PLANNED".toList
  | .retrieved => "RETRIEVED".toList
  | .toolExecuted => "TOOL_EXECUTED".toList
  | .reasoned => "REASONED".toList
  | .policyChecked => "POLICY_CHECKED".toList
  | .waitingReview => "WAITING_REVIEW".toList
  | .reviewResolved => "REVIEW_RESOLVED".toList
  | .completed => "COMPLETED".toList
  | .running => "RUNNING".toList
  | .paused => "PAUSED".toList
  | .rejected => "REJECTED".toList
  | .failed => "FAILED".toList
  | .toolFailed => "TOOL_FAILED".toList
  | .reasonFailed => "REASON_FAILED".toList
  | .deadLetter => "DEAD_LETTER".toList
  | .abandoned => "ABANDONED".toList
  | .cancelled => "CANCELLED".toList
  | .timedOut => "TIMED_OUT".toList

/-- `AgentState`, with the keys outside the schema (such as `fsm_state`) in `extras`. -/
structure AgentState where
  taskId : Text
  sessionId : Text
  status : TaskStatus := .new
  currentNode : Text := "api".toList
  sessionTurn : Option ℕ := none
  inputPayload : Fields := PyDict.empty
  reviewRequired : Bool := false
  executionRun : Option Fields := none
  interruptContext : Option Fields := none
  extras : Fields := PyDict.empty
  deriving DecidableEq

/-- `merge_state(state, input_payload=payload)`, which merges payloads key by key. -/
def AgentState.mergePayload (s : AgentState) (payload : Fields) : AgentState :=
  { s with inputPayload := s.inputPayload.update payload }

/-- `merge_state(state, key=v)` for a key outside the schema. -/
def AgentState.mergeExtra (s : AgentState) (key : String) (v : PyVal) : AgentState :=
  { s with extras := s.extras.put key v }

@[simp] theorem mergePayload_status (s : AgentState) (payload : Fields) :
    (s.mergePayload payload).status = s.status := rfl

@[simp] theorem mergePayload_inputPayload (s : AgentState) (payload : Fields) :
    (s.mergePayload payload).inputPayload = s.inputPayload.update payload := rfl

@[simp] theorem mergePayload_executionRun (s : AgentState) (payload : Fields) :
    (s.mergePayload payload).executionRun = s.executionRun := rfl

@[simp] theorem mergePayload_interruptContext (s : AgentState) (payload : Fields) :
    (s.mergePayload payload).interruptContext = s.interruptContext := rfl

@[simp] theorem mergePayload_reviewRequired (s : AgentState) (payload : Fields) :
    (s.mergePayload payload).reviewRequired = s.reviewRequired := rfl

@[simp] theorem mergePayload_sessionTurn (s : AgentState) (payload : Fields) :
    (s.mergePayload payload).sessionTurn = s.sessionTurn := rfl

@[simp] theorem mergeExtra_status (s : AgentState) (key : String) (v : PyVal) :
    (s.mergeExtra key v).status = s.status := rfl

@[simp] theorem mergeExtra_inputPayload (s : AgentState) (key : String) (v : PyVal) :
    (s.mergeExtra key v).inputPayload = s.inputPayload := rfl

@[simp] theorem mergeExtra_executionRun (s : AgentState) (key : String) (v : PyVal) :
    (s.mergeExtra key v).executionRun = s.executionRun := rfl

@[simp] theorem mergeExtra_interruptContext (s : AgentState) (key : String) (v : PyVal) :
    (s.mergeExtra key v).interruptContext = s.interruptContext := rfl

@[simp] theorem mergeExtra_sessionTurn (s : AgentState) (key : String) (v : PyVal) :
    (s.mergeExtra key v).sessionTurn = s.sessionTurn := rfl

/-- `state.get(key) or {}` for a record. -/
def recordOr (r : Option Fields) : Fields := r.getD PyDict.empty

/-- What a function reads besides its arguments: the registry of active runs, the tombstones, the
    configuration, and the Unicode table behind `int` and `lower`. -/
structure Surroundings where
  /-- `_active_run_by_task[task_id]`. -/
  activeRun : Option Text := none
  tombstoned : Bool := false
  /-- `INVARIANT_GUARD_STRICT`, else `APP_ENV != "production"`. -/
  strict : Bool := true
  digit : Char → Option ℕ
  /-- `datetime.now(timezone.utc).isoformat()`. -/
  now : Text := "2026-01-01T00:00:00+00:00".toList

/-- `int(d.get(key) or 0)`. -/
def intField (w : Surroundings) (d : Fields) (key : String) : Option ℤ :=
  ((d.field key).orElse (.int 0)).toInt? w.digit

/-- `str(d.get(key) or "")`. -/
def textField (d : Fields) (key : String) : Text := ((d.field key).orElse (.str [])).toText

end AgentLangraph.Session
