import AgentLangraph.Session.State

/-! The single convergence gate of a turn (`converge.py`): from the tool results and the plan of a
    turn it reads whether the turn is done, goes on, is planned again or is closed. It writes
    nothing; what it costs to plan again is up to the routers. -/

namespace AgentLangraph.Graph
open PyText Session

/-- The inner result of a tool. -/
structure ToolOutcome where
  status : Text
  replacements : ℤ := 0
  deriving DecidableEq

structure ToolResult where
  tool : Text
  status : Text := []
  error : Bool := false
  result : Option ToolOutcome := none
  /-- `non_retryable`, or an artifact that was not found. -/
  nonRetryable : Bool := false
  deriving DecidableEq

structure PlannedAction where
  type : Text
  /-- `params.name`, for a `run_tool`. -/
  name : Text := []
  /-- `rename_cleanup_obviated`, for an `rm_path`. -/
  cleanupObviated : Bool := false
  deriving DecidableEq

/-- What the services below the gate and the routers answer about the whole state. -/
structure Judgement where
  writingIntentActive : Bool := false
  writeBudgetExhausted : Bool := false
  readLoopShouldForceWrite : Bool := false
  artifactEditNeedsWrite : Bool := false
  requiresSideEffects : Bool := false
  contractFulfilled : Bool := true
  falsePromise : Bool := false
  explicitAsk : Bool := false
  persistedWrite : Bool := false
  batchContinuationReady : Bool := false
  narrateAnswerReady : Bool := false
  /-- `reasoning_terminal_blocked_reason`. -/
  terminalBlocked : Option Text := none
  /-- `validate_turn_contract_execution`. -/
  contractIssues : List Text := []
  sourceInquiry : Bool := false
  /-- `degrade_to_writing_playbook_state` finds an operator and a manifest. -/
  playbook : Bool := false
  writingRouteAllowed : Bool := false
  deriving DecidableEq

/-- The state of the graph, as far as the gate and the routers read it. -/
structure GraphState where
  status : TaskStatus := .running
  toolResults : List ToolResult := []
  plannedActions : List PlannedAction := []
  editsAttempted : ℕ := 0
  editsApplied : ℕ := 0
  /-- The summary or answer of the reasoning, else the final answer. -/
  answer : Text := []
  errors : List Text := []
  lastAuditAction : Text := []
  retryCount : ℕ := 0
  guardPassed : Bool := true
  contractTools : List Text := []
  /-- `route_audit` of the payload: whether it is aligned, and its issues. -/
  aligned : Bool := true
  issues : List Text := []
  /-- `route_audit_replan` of the payload. -/
  routeAuditReplan : Bool := false
  /-- `planning_revision_count`, which is no channel of the graph. -/
  planningRevisionCount : Option ℤ := none
  judgement : Judgement := {}
  deriving DecidableEq

/-- `NEXT_*`. -/
inductive Next
  | proceed | replan | finalize | forceWrite
  deriving DecidableEq

structure ConvergeResult where
  done : Bool
  next : Next
  reason : Text
  deriving DecidableEq

def sideEffectTools : List String :=
  ["write_text_artifact", "append_text_artifact", "edit_text_artifact", "write_file", "append_file",
    "replace_in_file", "move_path", "copy_path", "touch_file", "mkdir_path", "rm_path"]

/-- `str(item.get("status") or "ok") in ("ok", "cached")`. -/
def ToolResult.ok (r : ToolResult) : Bool :=
  r.status = [] || r.status = "ok".toList || r.status = "cached".toList

/-- `is_edit_applied`. -/
def isEditApplied (r : Option ToolOutcome) : Bool :=
  match r with
  | none => false
  | some o => o.status = "ok".toList && 1 ≤ o.replacements

/-- `_edit_counts`: attempted and applied. -/
def editCounts (s : GraphState) : ℕ × ℕ :=
  if s.editsAttempted ≠ 0 then (s.editsAttempted, s.editsApplied)
  else
    let edits := s.toolResults.filter fun r => r.tool = "edit_text_artifact".toList
    (edits.length, (edits.filter fun r => isEditApplied r.result).length)

/-- The registry tool of a planned action that must have run. -/
def PlannedAction.tool (a : PlannedAction) : Text :=
  if a.type = "write_artifact".toList then "write_text_artifact".toList
  else if a.type = "edit_artifact".toList then "edit_text_artifact".toList
  else if a.type = "run_tool".toList then a.name
  else []

/-- `_pending_planned_actions`. -/
def pendingPlannedActions (s : GraphState) : List Text :=
  let executedOk := (s.toolResults.filter ToolResult.ok).map ToolResult.tool
  (s.plannedActions.filter fun a => a.tool ≠ [] ∧ a.tool ∉ executedOk ∧
    ¬ (a.tool = "rm_path".toList ∧ a.cleanupObviated)).map PlannedAction.type

/-- `_exploratory_actions_only`. -/
def exploratoryActionsOnly (s : GraphState) : Bool :=
  s.plannedActions != [] && !s.plannedActions.any fun a =>
    a.type ∈ ["answer".toList, "run_code".toList, "write_artifact".toList, "edit_artifact".toList,
      "run_tool".toList]

/-- `_tool_counts_as_side_effect`. -/
def toolCountsAsSideEffect (r : ToolResult) : Bool :=
  r.ok && if r.tool = "edit_text_artifact".toList then isEditApplied r.result
    else r.tool ∈ sideEffectTools.map String.toList

/-- `_read_loop_detected`, with `READ_LOOP_THRESHOLD`. -/
def readLoopDetected (rs : List ToolResult) : Bool :=
  !rs.any toolCountsAsSideEffect &&
    3 ≤ (rs.filter fun r => r.tool = "read_text_artifact".toList && r.ok).length

/-- `evaluate_convergence`. -/
def evaluateConvergence (s : GraphState) : ConvergeResult :=
  let j := s.judgement
  let (attempted, applied) := editCounts s
  if attempted ≠ 0 then
    if attempted ≤ applied then ⟨true, .proceed, "edit_applied".toList⟩
    else if j.writingIntentActive then
      if j.writeBudgetExhausted then ⟨false, .finalize, "write_budget_exhausted".toList⟩
      else ⟨false, .forceWrite, "edit_not_applied_force_write".toList⟩
    else ⟨false, .replan, "edit_not_applied".toList⟩
  else if readLoopDetected s.toolResults then
    if j.readLoopShouldForceWrite then
      if j.writeBudgetExhausted then ⟨false, .finalize, "write_budget_exhausted".toList⟩
      else ⟨false, .forceWrite, "read_loop_force_write".toList⟩
    else if j.artifactEditNeedsWrite then ⟨false, .replan, "artifact_edit_needs_write".toList⟩
    else ⟨false, .finalize, "read_loop".toList⟩
  else if pendingPlannedActions s ≠ [] then
    ⟨false, .replan, "actions_pending:".toList ++
      List.intercalate ",".toList (pendingPlannedActions s)⟩
  else if exploratoryActionsOnly s ∧ s.toolResults ≠ [] then
    ⟨false, .replan, "exploration_needs_replan".toList⟩
  else if j.requiresSideEffects then
    if j.contractFulfilled then ⟨true, .proceed, "contract_fulfilled".toList⟩
    else ⟨false, .replan, "contract_unfulfilled".toList⟩
  else if strip s.answer ≠ [] then
    if j.writingIntentActive ∧ ¬ j.persistedWrite then
      if j.falsePromise then ⟨false, .forceWrite, "writing_false_promise".toList⟩
      else if ¬ j.explicitAsk then ⟨false, .forceWrite, "writing_answer_without_persist".toList⟩
      else ⟨true, .proceed, "answer_ready".toList⟩
    else ⟨true, .proceed, "answer_ready".toList⟩
  else ⟨false, .proceed, "no_signal".toList⟩

end AgentLangraph.Graph
