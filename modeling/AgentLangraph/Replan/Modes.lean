import AgentLangraph.Replan.Prepare

/-! The passes that planning runs over the state: the pre-planning (`pre_planning.py`,
    `intent_observation.py`), the mode contract (`mode_resolution.py`, `mode_execution.py`) and the route
    audit behind the plan (`route_audit/`). Each copies the payload, writes its keys and merges the copy
    back. What an observation, a resolution or an audit finds is a function of the state here, and so is
    the dictionary or list that is put under a key. -/

namespace AgentLangraph.Replan
open PyText AgentLangraph.Session AgentLangraph.Plan
open AgentLangraph.Tool (Action NodeState)

/-- `IntentObservationResult` and the snapshot it is frozen in, as far as the payload gets them. -/
structure Observation where
  /-- `snapshot_hit`. -/
  cached : Bool := false
  planningSource : Text := "rule:default".toList
  interactionGoal : Text := []
  confidence : PyVal := .none

/-- What the passes find in a state. -/
structure Passes where
  config : Config
  /-- `cfg.enabled` of the route audit. -/
  auditEnabled : Bool := true
  /-- The list or dictionary that is put under a key of the payload. -/
  container : String → PlanState → Fields → PyVal
  isDict : PyVal → Bool
  observe : PlanState → Observation
  /-- The mode before the plan, and the one behind it, which a frozen intent may hold. -/
  resolve : PlanState → Resolution
  resolveBehind : PlanState → Resolution
  judge : PlanState → Judgement
  /-- `rewrite_manuscript_filenames_for_code` changes a name. -/
  rewrites : PlanState → Bool := fun _ => false
  /-- A question, or a retry that writes nothing, is left to full reasoning. -/
  fullReasoning : PlanState → Bool := fun _ => false
  writingEnabled : PlanState → Bool := fun _ => false

/-- `payload[key] = v` for a list or dictionary `v`. -/
def Passes.box (p : Passes) (s : PlanState) (payload : Fields) (key : String) : Fields :=
  payload.put key (p.container key s payload)

variable (p : Passes)

/-- `payload["route_audit"] = audit`, merged. -/
def mergeAudit (s : PlanState) : PlanState := s.merge (p.box s s.inputPayload "route_audit")

/-! ### The mode contract -/

/-- The contract is of `qa_mode`, and an edit of an artifact keeps its tools under it. -/
def qaKeepsEdit (r : Resolution) (c : ModeContract) (payload : Fields) : Bool :=
  r.targetMode = "qa_mode".toList && !(p.config.resident && c.allowedTools ≠ []) &&
    textField payload "thin_execution_profile" = "artifact_edit".toList

/-- A mode with a part of its own in `apply_mode_contract_to_state`. -/
def knownModes : List Text := ["engineering_mode".toList, "qa_mode".toList, "manuscript_mode".toList]

/-- The payload that `apply_mode_contract_to_state` merges. -/
def contractPayload (r : Resolution) (c : ModeContract) (s : PlanState) : Fields :=
  let payload := modePayload r c s.inputPayload
  let payload := p.box s payload "mode_resolution"
  let payload := p.box s payload "effective_mode_contract"
  let payload := p.box s payload "delivery_plan"
  let payload := if c.forbidRoutes ≠ [] ∨ r.targetMode ∈ knownModes then p.box s payload "writing_intent"
    else payload
  let payload := if (payload.field "tool_params").truthy ∧ r.targetMode ∈ knownModes.tail ∧
      ¬ qaKeepsEdit p r c s.inputPayload then p.box s payload "tool_params" else payload
  let payload := if r.targetMode ∈ knownModes ∧ ¬ qaKeepsEdit p r c s.inputPayload then
      payload.pop "mission" else payload
  p.box s payload "route_audit"

/-- What the contract reads of a state. -/
def PlanState.node (s : PlanState) : NodeState :=
  { taskId := s.taskId, selectedTools := s.selectedTools, payload := s.inputPayload,
    writingEnabled := p.writingEnabled s }

/-- `apply_mode_contract_to_state`. -/
def applyModeContractToState (r : Resolution) (s : PlanState) : PlanState :=
  match r.contract with
  | none => s
  | some c =>
    { s.merge (contractPayload p r c s) with
      selectedTools := (applyMode p.config r.targetMode c (s.node p)).tools
      skipRetrieval := ((contractPayload p r c s).get? "skip_retrieval".toList).getD s.skipRetrieval }

/-- `apply_mode_isolation_if_needed`. -/
def applyModeIsolationIfNeeded (r : Resolution) (s : PlanState) : PlanState :=
  if r.switchAction = "isolate".toList ∧ r.targetMode = "engineering_mode".toList ∧
      (s.inputPayload.field "mission").truthy then
    let payload := (s.inputPayload.put "engineering_turn" (.bool true)).put "mode_isolated" (.bool true)
    s.merge (if p.isDict (s.inputPayload.field "writing_intent") then p.box s payload "writing_intent"
      else payload)
  else s

/-- The isolation and the contract of a resolution. -/
def applyResolution (r : Resolution) (s : PlanState) : PlanState :=
  applyModeContractToState p r (applyModeIsolationIfNeeded p r s)

/-- `run_mode_resolution_pipeline`. -/
def runModeResolutionPipeline (s : PlanState) : PlanState := applyResolution p (p.resolveBehind s) s

/-! ### Before the plan -/

/-- `apply_session_source_inquiry_payload_hints`, for an inquiry. -/
def sourceInquiryHints (s : PlanState) (payload : Fields) : Fields :=
  ((((p.box s payload "writing_intent").put "turn_kind" (.str "narrate_only".toList)).pop
    "require_planning_after_steer").put "steer_planning_done" (.bool true))

/-- The payload that an observation leaves, with the snapshot that it is frozen in. -/
def observedPayload (o : Observation) (s : PlanState) : Fields :=
  let payload := if o.cached then
      (s.inputPayload.put "intent_snapshot_hit" (.bool true)).put "intent_snapshot_source"
        (.str "frozen".toList)
    else
      ((p.box s s.inputPayload "intent_snapshot").put "intent_snapshot_hit" (.bool false)).put
        "planning_required_source" (.str o.planningSource)
  let payload := p.box s payload "route_audit"
  if o.interactionGoal = [] then payload
  else
    let payload := (payload.put "interaction_goal" (.str o.interactionGoal)).put
      "interaction_goal_confidence" o.confidence
    if o.interactionGoal = "session_source_inquiry".toList then sourceInquiryHints p s payload
    else payload

/-- `apply_intent_observation_to_state`. -/
def applyIntentObservationToState (o : Observation) (s : PlanState) : PlanState :=
  s.merge (observedPayload p o s)

/-- `run_pre_planning_pipeline`. -/
def runPrePlanningPipeline (s : PlanState) : PlanState :=
  let s := mergeAudit p s
  let s := applyIntentObservationToState p (p.observe s) s
  let s := applyResolution p (p.resolve s) s
  s.merge (s.inputPayload.put "pre_planning_completed" (.bool true))

/-! ### Behind the plan -/

/-- `_attach_delivery_metadata`. -/
def attachMetadata (a : Audit) (s : PlanState) (payload : Fields) : Fields :=
  p.box s ((p.box s payload "delivery_plan").put "artifact_profile" (.str a.artifactProfile)) "route_audit"

/-- The payload that the corrections of an audit come to. -/
def correctedPayload (a : Audit) (s : PlanState) : Fields :=
  let payload := s.inputPayload
  let payload := if .disableWritingIntent ∈ a.corrections then p.box s payload "writing_intent" else payload
  let payload := if .stripWritingTools ∈ a.corrections then p.box s payload "tool_params" else payload
  let payload := if .rewriteToolFilenames ∈ a.corrections ∧ p.rewrites s then p.box s payload "tool_params"
    else payload
  if .forceSlowReasoning ∈ a.corrections then
    (payload.put "force_slow_reasoning" (.bool true)).put "skip_reasoning_after_tools" (.bool false)
  else payload

/-- `apply_route_corrections`. -/
def applyCorrections (a : Audit) (s : PlanState) : PlanState :=
  if a.issues = [] ∨ a.corrections = [] then s.merge (attachMetadata p a s s.inputPayload)
  else
    { s.merge (attachMetadata p a s (correctedPayload p a s)) with
      selectedTools := if .stripWritingTools ∈ a.corrections then
          s.selectedTools.filter (· ∉ writingToolNames)
        else s.selectedTools }

/-- `normalize_reasoning_policy`. -/
def normalizeReasoningPolicy (s : PlanState) : PlanState :=
  s.merge (if p.fullReasoning s then s.inputPayload.put "skip_reasoning_after_tools" (.bool false)
    else s.inputPayload)

/-- `run_route_audit_pipeline`. -/
def auditRoute (s : PlanState) : PlanState :=
  if p.auditEnabled then
    let a := auditPlannedRoute (p.judge s)
    let bound := runModeResolutionPipeline p
      (normalizeReasoningPolicy p (applyCorrections p a (mergeAudit p s)))
    if a.issues = [] then bound else normalizeReasoningPolicy p (mergeAudit p bound)
  else runModeResolutionPipeline p s

end AgentLangraph.Replan
