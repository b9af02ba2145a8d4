import AgentLangraph.Tool.Events

/-! The route audit after planning (`route_audit/`), with the mode contract behind it (`mode_resolution.py`,
    `mode_execution.py`). A plan is carried three times: as actions, as selected tools with parameters, and
    as stages. The corrections of the audit strip the second copy alone, and the tool node prefers the
    other two.

        planned_actions ─────────────────────────────▶ execute_actions
        selected_tools, tool_params ── strip ──▶ ┐
        tool_stages, tool_dag ───────────────────┴──▶ execute_tool_stages -/

namespace AgentLangraph.Plan
open PyText Logged AgentLangraph.Tool
open AgentLangraph.Artifact (Raise ActionType DraftTool textOr writeTool appendTool editTool readTool)

/-- `WRITING_TOOL_NAMES`. -/
def writingToolNames : List Text := [writeTool, appendTool]

/-! ### The audit -/

inductive Correction
  | disableWritingIntent | forceSlowReasoning | stripWritingTools | rewriteToolFilenames
  deriving DecidableEq

/-- What the audit finds in a state: the kind of its task, the route it takes, the actions of the rules
    that match, and what a delivery of writing lacks. -/
structure Judgement where
  kind : Text
  plannedRoute : Text
  actions : List Text := []
  deliveryIssues : List Text := []

structure Audit where
  inferredKind : Text
  plannedRoute : Text
  issues : List Text := []
  corrections : List Correction := []
  artifactProfile : Text

/-- `should_strip_writing_tools`, which comes down to the route. -/
def shouldStripWritingTools (route : Text) : Bool := route ≠ "writing_tools_only".toList

/-- The corrections that the action of a rule asks for. -/
def correctionsOf (route action : Text) : List Correction :=
  if action = "disable_writing_force_reasoning".toList then
    [.disableWritingIntent, .forceSlowReasoning,
      if shouldStripWritingTools route then .stripWritingTools else .rewriteToolFilenames]
  else if action = "disable_writing".toList then [.disableWritingIntent, .stripWritingTools]
  else []

/-- `_resolve_artifact_profile`. -/
def resolveArtifactProfile (kind route : Text) : Text :=
  if kind = "code".toList ∨ route = "writing_code_artifact".toList then "source_code".toList
  else if route = "writing_outline".toList then "outline".toList
  else if route = "writing_artifact".toList then "manuscript_prose".toList
  else "plain_text".toList

def conflictIssue (j : Judgement) (action : Text) : Text :=
  "task_kind=".toList ++ j.kind ++ " conflicts with planned_route=".toList ++ j.plannedRoute ++
    " (rule action=".toList ++ action ++ ")".toList

/-- `audit_planned_route`. -/
def auditPlannedRoute (j : Judgement) : Audit where
  inferredKind := j.kind
  plannedRoute := j.plannedRoute
  issues := j.actions.map (conflictIssue j) ++ j.deliveryIssues
  corrections := (j.actions.flatMap (correctionsOf j.plannedRoute)).eraseDups
  artifactProfile := resolveArtifactProfile j.kind j.plannedRoute

/-- A correction never comes without an issue. -/
theorem issues_ne_nil {j : Judgement} {c : Correction} (h : c ∈ (auditPlannedRoute j).corrections) :
    (auditPlannedRoute j).issues ≠ [] := by
  obtain ⟨action, haction, -⟩ := List.mem_flatMap.1 (List.mem_eraseDups.1 h)
  refine List.append_ne_nil_of_left_ne_nil ?_ _
  exact List.ne_nil_of_mem (List.mem_map_of_mem haction)

/-! ### The corrections -/

/-- What the settings say of the correction of file names and of the mode contracts. -/
structure Config where
  /-- `QA_MODE_TOOLS_RESIDENT`. -/
  resident : Bool := false
  /-- A file name of code, and none of a manuscript's body. -/
  keepsName : Text → Bool
  /-- `default_code_filename`. -/
  codeName : NodeState → Text

/-- `{k: v for k, v in tool_params.items() if k not in WRITING_TOOL_NAMES}`. -/
def withoutWriting (tp : PyDict Text Fields) : PyDict Text Fields :=
  tp.filterKeys fun tool => tool ∉ writingToolNames

/-- `rewrite_manuscript_filenames_for_code`. -/
def rewriteFilenames (cfg : Config) (x : NodeState) : PyDict Text Fields :=
  writingToolNames.foldl (fun tp tool =>
    match tp.get? tool with
    | some p =>
      if cfg.keepsName (strip (textOr p "filename")) then tp
      else tp.set tool (p.put "filename" (.str (cfg.codeName x)))
    | none => tp) x.toolParams

def correct (cfg : Config) (corrections : List Correction) (x : NodeState) : NodeState :=
  let x := if .disableWritingIntent ∈ corrections then { x with writingEnabled := false } else x
  let x := if .stripWritingTools ∈ corrections then
      { x with selectedTools := x.selectedTools.filter (· ∉ writingToolNames)
               toolParams := withoutWriting x.toolParams }
    else x
  let x := if .rewriteToolFilenames ∈ corrections then { x with toolParams := rewriteFilenames cfg x } else x
  if .forceSlowReasoning ∈ corrections then
    { x with payload := (x.payload.put "force_slow_reasoning" (.bool true)).put
               "skip_reasoning_after_tools" (.bool false) }
  else x

/-- `payload["route_audit"] = audit`. -/
def withAudit (a : Audit) (x : NodeState) : NodeState :=
  { x with auditKind := .str a.inferredKind, auditProfile := .str a.artifactProfile }

/-- `_attach_delivery_metadata`. -/
def attachDeliveryMetadata (a : Audit) (x : NodeState) : NodeState :=
  withAudit a { x with payload := x.payload.put "artifact_profile" (.str a.artifactProfile) }

/-- `apply_route_corrections`. -/
def applyRouteCorrections (cfg : Config) (a : Audit) (x : NodeState) : NodeState :=
  attachDeliveryMetadata a (if a.issues = [] ∨ a.corrections = [] then x else correct cfg a.corrections x)

/-! ### The mode contract -/

structure ModeContract where
  allowedTools : List Text := []
  forbidRoutes : List Text := []
  path : Text := "reasoning".toList

structure Resolution where
  intentKind : Text
  targetMode : Text
  switchAction : Text := []
  switchReason : Text := []
  contract : Option ModeContract := none

/-- `_ARTIFACT_TOOLS`. -/
def artifactTools : List Text := [readTool, writeTool, appendTool, editTool]

/-- `_ENGINEERING_TOOLS`. -/
def engineeringTools : List Text :=
  ["mkdir_path".toList, "write_file".toList, "read_file".toList, "verify_backend".toList,
    "ls_path".toList]

/-- `strip_tools_for_mode`, with the tools of engineering forbidden. -/
def stripToolsForMode (tools allowed : List Text) : List Text :=
  (if allowed = [] then tools else tools.filter (· ∈ allowed)).filter (· ∉ engineeringTools)

/-- A route of writing is forbidden by the guards of a contract. -/
def forbidsWriting (c : ModeContract) : Bool :=
  c.forbidRoutes.any fun route =>
    startswith route "writing".toList || decide (route = "mission_writing".toList)

/-- What a mode leaves of a plan: its tools, their parameters, and whether it may write. -/
structure Kept where
  tools : List Text
  params : PyDict Text Fields
  writing : Bool

/-- `_strip_disallowed_tool_params`. -/
def paramsOf (tools : List Text) (tp : PyDict Text Fields) : PyDict Text Fields :=
  tp.filterKeys fun tool => tool ∈ tools

/-- `apply_qa_mode_contract`. -/
def applyQaMode (resident : Bool) (c : ModeContract) (x : NodeState) : Kept :=
  let edits := textOr x.payload "thin_execution_profile" = "artifact_edit".toList
  if resident ∧ c.allowedTools ≠ [] then
    let tools := stripToolsForMode x.selectedTools c.allowedTools
    { tools := tools, params := paramsOf tools x.toolParams,
      writing := decide edits || x.writingEnabled ||
        tools.any fun t => decide (t ∈ writingToolNames) || decide (t = editTool) }
  else if edits then
    { tools := x.selectedTools.filter (· ∈ artifactTools), params := x.toolParams, writing := true }
  else
    { tools := (stripToolsForMode x.selectedTools []).filter (· ∉ writingToolNames),
      params := x.toolParams.filterKeys fun t => t ∉ writingToolNames ++ engineeringTools,
      writing := false }

/-- `apply_manuscript_mode_contract`. -/
def applyManuscriptMode (c : ModeContract) (x : NodeState) : Kept :=
  let tools := if c.allowedTools = [] then x.selectedTools
    else stripToolsForMode x.selectedTools c.allowedTools
  { tools := tools, params := paramsOf tools x.toolParams, writing := true }

/-- What the contract of a mode leaves. -/
def applyMode (cfg : Config) (mode : Text) (c : ModeContract) (x : NodeState) : Kept :=
  if mode = "engineering_mode".toList then
    { tools := c.allowedTools.filter (· ≠ []), params := x.toolParams, writing := false }
  else if mode = "qa_mode".toList then applyQaMode cfg.resident c x
  else if mode = "manuscript_mode".toList then applyManuscriptMode c x
  else { tools := x.selectedTools, params := x.toolParams, writing := x.writingEnabled }

/-- What the contract of a mode writes into the payload. -/
def modePayload (r : Resolution) (c : ModeContract) (p : Fields) : Fields :=
  let p := (((((p.put "intent_kind" (.str r.intentKind)).put "target_mode" (.str r.targetMode)).put
    "current_mode" (.str r.targetMode)).put "mode_switch_action" (.str r.switchAction)).put
    "mode_switch_reason" (.str r.switchReason)).put "execution_path" (.str c.path)
  if r.targetMode = "engineering_mode".toList then
    ((p.put "artifact_profile" (.str "engineering_project".toList)).put "disable_mission_auto"
      (.bool true)).put "skip_retrieval" (.bool true)
  else if r.targetMode = "manuscript_mode".toList then p.put "skip_retrieval" (.bool false)
  else p

/-- `apply_mode_contract_to_state`. -/
def applyModeContract (cfg : Config) (r : Resolution) (x : NodeState) : NodeState :=
  match r.contract with
  | none => x
  | some c =>
    let guarded := if forbidsWriting c then { x with writingEnabled := false } else x
    let kept := applyMode cfg r.targetMode c guarded
    { x with
      payload := modePayload r c x.payload
      selectedTools := kept.tools
      toolParams := kept.params
      writingEnabled := kept.writing
      auditKind := .str r.intentKind
      auditProfile := if r.targetMode = "engineering_mode".toList then .str "engineering_project".toList
        else x.auditProfile }

/-- `run_route_audit_pipeline`, with the audit enabled: the audit, its corrections, the contract of the mode
    that the task resolves to, and the audit once more if it found anything. -/
def runRouteAuditPipeline (cfg : Config) (judge : NodeState → Judgement) (resolve : NodeState → Resolution)
    (x : NodeState) : NodeState :=
  let a := auditPlannedRoute (judge x)
  let corrected := applyRouteCorrections cfg a (withAudit a x)
  let bound := applyModeContract cfg (resolve corrected) corrected
  if a.issues = [] then bound else withAudit (auditPlannedRoute (judge bound)) bound

/-! ### What the audit leaves of the copies of a plan -/

/-- The copies that no correction looks at. -/
structure SamePlan (x y : NodeState) : Prop where
  taskId : y.taskId = x.taskId
  plannedActions : y.plannedActions = x.plannedActions
  toolStages : y.toolStages = x.toolStages
  toolDag : y.toolDag = x.toolDag

theorem SamePlan.refl (x : NodeState) : SamePlan x x := ⟨rfl, rfl, rfl, rfl⟩

theorem SamePlan.trans {x y z : NodeState} (h : SamePlan x y) (h' : SamePlan y z) : SamePlan x z :=
  ⟨h'.taskId.trans h.taskId, h'.plannedActions.trans h.plannedActions, h'.toolStages.trans h.toolStages,
    h'.toolDag.trans h.toolDag⟩

theorem samePlan_correct (cfg : Config) (corrections : List Correction) (x : NodeState) :
    SamePlan x (correct cfg corrections x) := by
  rw [correct]
  split_ifs <;> exact ⟨rfl, rfl, rfl, rfl⟩

theorem samePlan_applyRouteCorrections (cfg : Config) (a : Audit) (x : NodeState) :
    SamePlan x (applyRouteCorrections cfg a x) := by
  rw [applyRouteCorrections]
  split_ifs
  · exact ⟨rfl, rfl, rfl, rfl⟩
  · exact (samePlan_correct cfg a.corrections x).trans ⟨rfl, rfl, rfl, rfl⟩

theorem samePlan_applyModeContract (cfg : Config) (r : Resolution) (x : NodeState) :
    SamePlan x (applyModeContract cfg r x) := by
  rw [applyModeContract]
  cases r.contract with
  | none => exact .refl x
  | some c => exact ⟨rfl, rfl, rfl, rfl⟩

/-- The audit leaves the actions and the stages of a plan as they are. -/
theorem samePlan_pipeline (cfg : Config) (judge : NodeState → Judgement) (resolve : NodeState → Resolution)
    (x : NodeState) : SamePlan x (runRouteAuditPipeline cfg judge resolve x) := by
  have hcorrected : SamePlan x (applyRouteCorrections cfg (auditPlannedRoute (judge x))
      (withAudit (auditPlannedRoute (judge x)) x)) :=
    (show SamePlan x (withAudit _ x) from ⟨rfl, rfl, rfl, rfl⟩).trans (samePlan_applyRouteCorrections cfg _ _)
  have hbound := hcorrected.trans (samePlan_applyModeContract cfg (resolve (applyRouteCorrections cfg
    (auditPlannedRoute (judge x)) (withAudit (auditPlannedRoute (judge x)) x))) _)
  rw [runRouteAuditPipeline]
  split_ifs
  · exact hbound
  · exact hbound.trans ⟨rfl, rfl, rfl, rfl⟩

end AgentLangraph.Plan
