import AgentLangraph.Replan.Modes
import AgentLangraph.Run.Controller

/-! The planning node (`planning_node.py`): the thin paths, the plan of the model with one revision, and
    what is left of a plan when something raises. The node works on its own binding of the state, so what
    an exception leaves is the state as it was bound last. -/

namespace AgentLangraph.Replan
open PyText AgentLangraph.Session AgentLangraph.Plan
open AgentLangraph.Tool (Action)
open AgentLangraph.Artifact (DraftTool)

/-- What ends a planning early. -/
inductive Failure
  | budget (detail : Text)
  | retryable (detail : Text)
  | other (detail : Text)
  deriving DecidableEq

/-- Where something can raise, by the state that is bound there. -/
inductive Stage
  | start | revised | entered | prePlanned | fallback
  deriving DecidableEq

/-- `apply_writing_playbook`. -/
structure Playbook where
  actions : List Action := []
  plan : List Text := []
  patched : Bool := false

/-- What the answer of the planning model comes to. -/
structure Draft where
  actions : List Action := []
  plan : List Text := []
  tools : List Text := []
  writingOperator : Text := []
  playbookPatched : Bool := false
  writePatched : Bool := false
  staged : Bool := false
  hasDag : Bool := false
  skipRetrieval : Bool := false
  /-- `risk_level` is HIGH or CRITICAL. -/
  risky : Bool := false

/-- What planning finds in a state, and what its model answers. -/
structure Planner extends Passes where
  reading : Reading
  maxRetryCount : ℤ := 3
  artifactEditFastPath : Bool := true
  raises : Stage → PlanState → Option Failure := fun _ _ => none
  planningRequired : PlanState → Bool := fun _ => true
  needsExecutor : PlanState → Bool := fun _ => false
  isSourceInquiry : Text → Option PlanState → Bool := fun _ _ => false
  isConversationalQa : Text → Bool := fun _ => false
  isPureGreeting : Text → Bool := fun _ => false
  isArtifactEdit : PlanState → Text → Bool := fun _ _ => false
  editFilename : PlanState → Text → Text := fun _ _ => []
  draftTool : Text → Text → DraftTool := fun _ _ => .write
  /-- `resolve_writing_playbook_operator`, and `classify_writing_operator` alone. -/
  playbookOperator : PlanState → Text := fun _ => []
  writingOperator : PlanState → Text := fun _ => []
  manifestExists : PlanState → Bool := fun _ => false
  /-- The playbook of an operator, told whether it must write. -/
  playbook : Bool → Text → PlanState → Playbook := fun _ _ _ => {}
  engineeringTools : PlanState → List Text := fun _ => []
  draft : PlanState → Except Failure Draft
  /-- `validation.should_replan`. -/
  shouldReplan : PlanState → Bool := fun _ => false

variable (p : Planner)

/-- `str(payload.get("goal") or payload.get("query") or "")`. -/
def goalText (s : PlanState) : Text :=
  (((s.inputPayload.field "goal").orElse (s.inputPayload.field "query")).orElse (.str [])).toText

/-- The goal, stripped. -/
def goalOf (s : PlanState) : Text := strip (goalText s)

/-! ### Which path is taken -/

/-- `planning_must_run_llm`. -/
def planningMustRunLlm (s : PlanState) : Bool :=
  (s.inputPayload.field "plan_validation_feedback").truthy || s.retryPlanning ||
    (s.inputPayload.field "require_planning_after_steer").truthy &&
      !(s.inputPayload.field "steer_planning_done").truthy ||
    p.needsExecutor s &&
      ((s.inputPayload.field "route_audit_replan").truthy ||
        (s.inputPayload.field "route_audit_replan_feedback").truthy || s.planningRevisionCount > 0)

/-- `should_skip_session_source_inquiry_planning`. -/
def shouldSkipSourceInquiry (s : PlanState) : Bool :=
  (s.inputPayload.field "pre_planning_completed").truthy && p.isSourceInquiry (goalOf s) (some s)

/-- `should_skip_qa_planning_llm`. -/
def shouldSkipQa (s : PlanState) : Bool :=
  (s.inputPayload.field "pre_planning_completed").truthy &&
    textField s.inputPayload "target_mode" = "qa_mode".toList && !planningMustRunLlm p s &&
    !p.isArtifactEdit s (goalOf s) && !p.isSourceInquiry (goalOf s) none &&
    p.isConversationalQa (goalOf s)

/-- `should_skip_planning_llm`. -/
def shouldSkipPlanningLlm (s : PlanState) : Bool :=
  (s.inputPayload.field "pre_planning_completed").truthy &&
    textField s.inputPayload "target_mode" = "engineering_mode".toList &&
    (!p.planningRequired s || !p.isConversationalQa (goalOf s) && !planningMustRunLlm p s)

/-! ### The thin paths -/

/-- `_finish_thin`. -/
def finishThin (s : PlanState) (payload : Fields) (plan tools : List Text) (actions : List Action)
    (pinMode skipRetrieval : Bool) : PlanState :=
  let audited := auditRoute p.toPasses
    { s.merge payload with
      plan := plan, plannedActions := actions, selectedTools := tools,
      skipRetrieval := .bool skipRetrieval, reviewRequired := false, status := .planned,
      currentNode := "planning".toList }
  let pinned := textField payload "target_mode"
  if pinMode ∧ pinned ≠ [] then
    audited.merge ((audited.inputPayload.put "target_mode" (.str pinned)).put "current_mode" (.str pinned))
  else audited

def answerAction : Action := ⟨.answer, PyDict.empty⟩

/-- `{**payload.get("tool_params", {}), **tool_params}` raises where the key is there without a dictionary. -/
def putTransport (s : PlanState) (payload : Fields) : Except Failure Fields :=
  if (payload.get? "tool_params".toList).all p.isDict then
    .ok (p.box s (p.box s payload "tool_params") "tool_stages")
  else .error (.other "TypeError".toList)

/-- The tools that actions ride on. -/
def toolsOfActions (s : PlanState) (actions : List Action) : List Text :=
  (executionTransport s.taskId (p.draftTool s.taskId) actions).tools

/-- Session source inquiry: retrieve the source domain, then answer. -/
def sourceInquiryThin (s : PlanState) : PlanState :=
  let query := if goalOf s = [] then "session source material".toList else goalOf s
  let payload := (((p.box s s.inputPayload "writing_intent").put "thin_execution_profile"
    (.str "session_source_qa".toList)).put "turn_kind" (.str "narrate_only".toList)).pop
      "require_planning_after_steer"
  finishThin p s payload ["retrieve session source".toList, "answer about loaded material".toList] []
    [⟨.retrieve, PyDict.ofList [("query".toList, .str query),
      ("domains".toList, .other "['source']".toList true)]⟩, answerAction] false false

/-- `artifact_edit_thin_actions`. -/
def artifactEditThinActions (s : PlanState) : List Action :=
  let filename := p.editFilename s (goalOf s)
  if filename = [] then []
  else
    [⟨.readArtifact, PyDict.ofList [("filename".toList, .str filename)]⟩,
      ⟨.writeArtifact, PyDict.ofList [("filename".toList, .str filename)]⟩]

/-- An edit of an artifact: read, then write. -/
def artifactEditThin (s : PlanState) : Except Failure PlanState := do
  let actions := artifactEditThinActions p s
  let payload ← putTransport p s s.inputPayload
  return finishThin p s (p.box s (payload.put "thin_execution_profile" (.str "artifact_edit".toList))
      "writing_intent")
    ["读取已有产物".toList, "生成修订内容".toList, "写回文件".toList] (toolsOfActions p s actions) actions
    false true

/-- Conversational questions. -/
def qaThin (s : PlanState) : PlanState :=
  finishThin p s ((p.box s s.inputPayload "writing_intent").put "thin_execution_profile"
      (.str "qa_direct".toList))
    [if p.isPureGreeting (goalOf s) then "respond greeting".toList else "respond directly".toList] []
    [answerAction] true true

/-- Engineering: the repository is delivered without a plan of the model. -/
def engineeringThin (s : PlanState) : PlanState :=
  finishThin p s (p.box s s.inputPayload "writing_intent")
    ["pre_planning: interaction_mode=engineering".toList,
      "engineering_bounded: generate files, write session, run verify_backend".toList]
    (p.engineeringTools s) [⟨.runCode, PyDict.ofList [("goal".toList, .str (goalText s))]⟩] true true

/-- The playbook of a writing operator, where the plan needs no model. -/
def thinPlaybook (s : PlanState) : Option (Text × Playbook) :=
  let operator := p.playbookOperator s
  let forceWrite := (s.inputPayload.field "force_write_after_reads").truthy ||
    textField s.inputPayload "thin_execution_profile" = "writing_batch".toList
  let found := p.playbook forceWrite operator s
  if operator ≠ [] ∧ ¬ (s.inputPayload.field "latest_steer_message").truthy ∧
      ¬ (s.inputPayload.field "planning_must_run_llm").truthy ∧ p.manifestExists s ∧
      found.actions.length ≠ 0 ∧ found.patched then
    some (operator, found)
  else none

/-- The payload of a playbook. -/
def playbookPayload (s : PlanState) (operator : Text) : Except Failure Fields := do
  let payload ← putTransport p s s.inputPayload
  return p.box s (payload.put "writing_operator" (.str operator)) "writing_intent"

def playbookThin (s : PlanState) (operator : Text) (found : Playbook) : Except Failure PlanState := do
  let payload ← playbookPayload p s operator
  return finishThin p s (payload.put "thin_execution_profile" (.str "writing_playbook".toList)) found.plan
    (toolsOfActions p s found.actions) found.actions true false

/-! ### The plan of the model -/

/-- The payload that a draft is merged with. -/
def draftPayload (d : Draft) (s : PlanState) : Except Failure Fields :=
  let payload := s.inputPayload
  let payload := if d.writingOperator = [] then payload
    else payload.put "writing_operator" (.str d.writingOperator)
  let payload := if d.playbookPatched then p.box s payload "writing_intent" else payload
  let payload := if d.writePatched then
      let profile := textField payload "thin_execution_profile"
      p.box s (payload.put "thin_execution_profile"
        (.str (if profile = [] then "artifact_edit".toList else profile))) "writing_intent"
    else payload
  let payload := p.box s payload "writing_intent"
  let payload := p.box s payload "tool_params"
  let payload := if d.staged then p.box s payload "tool_stages" else payload
  let payload := if d.hasDag then p.box s payload "tool_dag" else payload
  match Run.bumpIntentRevision p.reading.surroundings payload with
  | some payload => .ok payload
  | none => .error (.other "ValueError".toList)

/-- The state with the plan of a draft. -/
def withDraft (d : Draft) (s : PlanState) (payload : Fields) : PlanState :=
  { s.merge payload with
    plan := d.plan, plannedActions := d.actions, selectedTools := d.tools,
    skipRetrieval := .bool d.skipRetrieval, reviewRequired := d.risky, status := .planned,
    currentNode := "planning".toList }

/-- The state that a rejected plan is planned again from. The audit is only popped from the copy. -/
def rejected (s : PlanState) : PlanState :=
  { s.merge ((p.box s s.inputPayload "plan_validation_feedback").pop "route_audit") with
    planningRevisionCount := s.planningRevisionCount + 1
    plan := [], plannedActions := [], selectedTools := [], status := .new }

/-- `degrade_to_writing_playbook_state`. -/
def degradeToWritingPlaybook (s : PlanState) : Except Failure (Option PlanState) := do
  let operator := if p.writingOperator s = [] then textField s.inputPayload "writing_operator"
    else p.writingOperator s
  let found := p.playbook false operator s
  if operator = [] ∨ ¬ p.manifestExists s ∨ found.actions.length = 0 ∨ ¬ found.patched then return none
  else
    let payload ← playbookPayload p s operator
    return some
      { s.merge (payload.put "thin_execution_profile" (.str "writing_playbook".toList)) with
        plan := found.plan, plannedActions := found.actions
        selectedTools := toolsOfActions p s found.actions
        skipRetrieval := .bool false, status := .planned, currentNode := "planning".toList }

/-- `max_revisions`. -/
def maxRevisions : ℕ := 1

/-- Full planning by the model; `again` is the node itself. -/
def llmPlan (again : PlanState → Except Failure PlanState) (s : PlanState) : Except Failure PlanState := do
  let d ← p.draft s
  let payload ← draftPayload p d s
  let updated := withDraft d s payload
  if p.shouldReplan updated ∧ updated.planningRevisionCount < maxRevisions then again (rejected p updated)
  else if p.shouldReplan updated then
    return auditRoute p.toPasses ((← degradeToWritingPlaybook p updated).getD updated)
  else return auditRoute p.toPasses updated

/-! ### The node -/

/-- The path that is taken from the state behind the pre-planning. -/
def route (again : PlanState → Except Failure PlanState) (s : PlanState) : Except Failure PlanState :=
  match p.raises .prePlanned s with
  | some e => .error e
  | none =>
    if shouldSkipSourceInquiry p s then .ok (sourceInquiryThin p s)
    else if p.artifactEditFastPath ∧ p.isArtifactEdit s (goalOf s) ∧
        (artifactEditThinActions p s).length ≠ 0 then artifactEditThin p s
    else if shouldSkipQa p s then .ok (qaThin p s)
    else if shouldSkipPlanningLlm p s then .ok (engineeringThin p s)
    else
      match thinPlaybook p s with
      | some (operator, found) => playbookThin p s operator found
      | none => llmPlan p again s

/-- The answer that a planning falls back to when the model cannot be reached. -/
def fallbackAnswer (s : PlanState) : PlanState :=
  finishThin p s (if (s.inputPayload.field "writing_intent").truthy then s.inputPayload
      else p.box s s.inputPayload "writing_intent")
    ["answer user directly".toList] [] [answerAction] true true

/-- The playbook that it falls back to instead, where there is one. -/
def fallbackPlaybook (s : PlanState) : Option (Text × Playbook) :=
  let operator := p.writingOperator s
  let found := p.playbook false operator s
  if operator ≠ [] ∧ p.manifestExists s ∧ found.actions.length ≠ 0 ∧ found.patched then
    some (operator, found)
  else none

/-- The plan that is fallen back to when the model cannot be reached. -/
def fallback (s : PlanState) : Except Failure PlanState :=
  match fallbackPlaybook p s with
  | some (operator, found) => do
    let payload ← playbookPayload p s operator
    return finishThin p s payload found.plan (toolsOfActions p s found.actions) found.actions true false
  | none => .ok (fallbackAnswer p s)

/-- The handlers of `planning_node`; what raises in them goes through. -/
def handle (s : PlanState) : Failure → Except Failure PlanState
  | .budget detail =>
    .ok { s with errors := s.errors ++ ["planning budget: ".toList ++ detail], status := .failed,
                 currentNode := "planning".toList }
  | .retryable _ =>
    match p.raises .fallback s with
    | some e => .error e
    | none => fallback p s
  | .other detail =>
    match p.raises .fallback s with
    | some e => .error e
    | none =>
      .ok { s with errors := s.errors ++ ["planning: ".toList ++ detail], retryCount := s.retryCount + 1,
                   status := .failed, currentNode := "planning".toList }

/-- `record_planning_mode_entry`, which writes into the payload itself. -/
def recordModeEntry (s : PlanState) : PlanState :=
  if textField s.inputPayload "target_mode" = [] then s
  else { s with inputPayload := s.inputPayload.put "_mode_at_planning_enter"
                  (.str (textField s.inputPayload "target_mode")) }

/-- A plan that is asked for again counts as a revision. -/
def revise (s : PlanState) : PlanState :=
  if s.retryPlanning ∨ (s.inputPayload.field "route_audit_replan").truthy then
    { s.merge (p.box s s.inputPayload "route_audit_replan_feedback") with
      planningRevisionCount := s.planningRevisionCount + 1, retryPlanning := false }
  else s

/-- The state that the pre-planning is entered with. -/
def enter (s : PlanState) : PlanState :=
  (recordModeEntry s).merge ((recordModeEntry s).inputPayload.pop "turn_contract")

/-- A tool failed for good: the failure is not healed by a new plan. -/
def exhausted (s : PlanState) : Bool :=
  s.status = .toolFailed && s.currentNode = "tool_execution".toList && p.maxRetryCount ≤ s.retryCount

/-- What raises is handled with the state that is bound there. -/
def guarded (stage : Stage) (s : PlanState) (next : Except Failure PlanState) : Except Failure PlanState :=
  match p.raises stage s with
  | some e => handle p s e
  | none => next

/-- The plan for the state behind the pre-planning, or what is left of it. -/
def finish (again : PlanState → Except Failure PlanState) (s : PlanState) : Except Failure PlanState :=
  match route p again s with
  | .ok out => .ok out
  | .error e => handle p s e

/-- The body of `planning_node`; `again` is the node itself. -/
def planOnce (again : PlanState → Except Failure PlanState) (s : PlanState) : Except Failure PlanState :=
  if exhausted p s then .ok { s with currentNode := "planning".toList }
  else
    guarded p .start s
      (guarded p .revised (revise p s)
        (guarded p .entered (enter (revise p s))
          (finish p again (runPrePlanningPipeline p.toPasses (enter (revise p s))))))

/-- The node with so many revisions left. -/
def planWithin : ℕ → PlanState → Except Failure PlanState
  | 0 => planOnce p fun _ => .error (.other "RecursionError".toList)
  | n + 1 => planOnce p (planWithin n)

/-- `planning_node`. -/
def planningNode (s : PlanState) : Except Failure PlanState :=
  planWithin p (maxRevisions - s.planningRevisionCount) s

end AgentLangraph.Replan
