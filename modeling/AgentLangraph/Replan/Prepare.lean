import AgentLangraph.Session.Fsm
import AgentLangraph.Plan.Transport
import AgentLangraph.Plan.Audit

/-! The state that planning is entered with (`incremental_planning.py`): which nodes of the old plan are
    stale, and the payload with its replan flags. A payload is copied, changed and merged back, so a flag
    that is only popped from the copy is still there after the merge. -/

namespace AgentLangraph.Replan
open PyText AgentLangraph.Session
open AgentLangraph.Tool (Action)

structure PlanNode where
  id : Text
  description : Text
  status : Text
  deriving DecidableEq

structure Invalidation where
  scope : Text
  targets : List Text := []
  status : Text
  reason : Text
  deriving DecidableEq

/-- What `analyze_plan_impact` returns. -/
structure Impact where
  eventType : Text
  invalidations : List Invalidation
  fullReplan : Bool
  localOnly : Bool
  deriving DecidableEq

/-- The state of a task with the channels that planning reads or writes. -/
structure PlanState extends AgentState where
  eventType : Text := []
  executionVersion : PyVal := .none
  plan : List Text := []
  planGraph : List PlanNode := []
  planInvalidations : Option Impact := none
  plannedActions : List Action := []
  selectedTools : List Text := []
  skipRetrieval : PyVal := .none
  retryCount : ℤ := 0
  /-- `reflection_result.retry_planning`. -/
  retryPlanning : Bool := false
  planningRevisionCount : ℕ := 0
  errors : List Text := []

/-- `merge_state(state, input_payload=payload)`. -/
def PlanState.merge (s : PlanState) (payload : Fields) : PlanState :=
  { s with toAgentState := s.mergePayload payload }

@[simp] theorem merge_inputPayload (s : PlanState) (payload : Fields) :
    (s.merge payload).inputPayload = s.inputPayload.update payload := rfl

@[simp] theorem merge_planningRevisionCount (s : PlanState) (payload : Fields) :
    (s.merge payload).planningRevisionCount = s.planningRevisionCount := rfl

/-- How planning looks into values: letters, the elements of a list by `str`, and the digits of `int`. -/
structure Reading where
  surroundings : Surroundings
  letters : Tool.Letters
  items : PyVal → Option (List Text)

/-- `payload.get("target_files") or payload.get("steer_target_files") or []`, where that is a list. -/
def targetFiles (rd : Reading) (payload : Fields) : List Text :=
  (rd.items ((payload.field "target_files").orElse (payload.field "steer_target_files"))).getD []

/-- The invalidations of an event. -/
def eventInvalidations (eventType : Text) (targets : List Text) : List Invalidation :=
  if eventType = "interrupt".toList then
    [{ scope := "all_pending".toList, status := "invalid".toList, reason := "interrupt".toList }]
  else if eventType = "redirect".toList then
    [{ scope := "goal".toList, status := "must_rerun".toList, reason := "redirect".toList }]
  else if eventType = "clarification".toList then
    if targets ≠ [] then []
    else [{ scope := "constraints".toList, status := "stale".toList, reason := "clarification".toList }]
  else if eventType = "reject".toList then
    [{ scope := "output_plan".toList, status := "invalid".toList, reason := "reject".toList }]
  else if eventType = "resume".toList then
    [{ scope := "checkpoint".toList, status := "valid".toList, reason := "resume".toList }]
  else []

/-- `analyze_plan_impact`. -/
def analyzePlanImpact (rd : Reading) (s : PlanState) : Impact :=
  let eventType := if s.eventType = [] then "new_task".toList else s.eventType
  let targets := targetFiles rd s.inputPayload
  { eventType := eventType
    invalidations := eventInvalidations eventType targets ++
      if targets = [] then []
      else [{ scope := "files".toList, targets := targets, status := "must_rerun".toList,
              reason := "file_scope_change".toList }]
    fullReplan := eventType ∈ ["interrupt".toList, "redirect".toList, "new_task".toList]
    localOnly := eventType = "clarification".toList && !(s.inputPayload.field "replace_goal").truthy }

/-- `build_plan_graph_from_plan`. -/
def buildPlanGraphFromPlan (plan : List Text) : List PlanNode :=
  plan.zipIdx.map fun (step, idx) =>
    { id := "step-".toList ++ (toString (idx + 1)).toList, description := step, status := "valid".toList }

/-- What an invalidation makes of the status of a node. -/
def Invalidation.statusOf (inv : Invalidation) (rd : Reading) (node : PlanNode) : Text :=
  if inv.scope ∈ ["all_pending".toList, "goal".toList, "output_plan".toList] then
    if node.status ≠ "valid".toList ∨ inv.status ∈ ["invalid".toList, "must_rerun".toList] then inv.status
    else node.status
  else if inv.scope = "files".toList then
    if inv.targets.any fun t => contains (rd.letters.lower node.description) (rd.letters.lower t) then
      inv.status
    else node.status
  else if inv.scope = "constraints".toList then
    if node.status = "valid".toList then "stale".toList else node.status
  else node.status

/-- `apply_plan_invalidations`. -/
def applyPlanInvalidations (rd : Reading) (graph : List PlanNode) (invs : List Invalidation) :
    List PlanNode :=
  invs.foldl (fun nodes inv => nodes.map fun node => { node with status := inv.statusOf rd node }) graph

/-- `_execution_version`. -/
def executionVersionOf (rd : Reading) (s : PlanState) : ℤ :=
  ((s.executionVersion.orElse (.int 1)).toInt? rd.surroundings.digit).getD 1

/-- `prepare_incremental_planning_state`. -/
def prepareIncrementalPlanningState (rd : Reading) (s : PlanState) : PlanState :=
  let impact := analyzePlanImpact rd s
  let graph := if s.planGraph = [] then buildPlanGraphFromPlan s.plan else s.planGraph
  let version := executionVersionOf rd s + if impact.fullReplan then 1 else 0
  let payload := if impact.localOnly then
      (s.inputPayload.pop "require_planning_after_steer").put "incremental_plan_update" (.bool true)
    else s.inputPayload
  { s.merge payload with
    planGraph := applyPlanInvalidations rd graph impact.invalidations
    planInvalidations := some impact
    executionVersion := .int version }

end AgentLangraph.Replan
