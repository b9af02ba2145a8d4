import AgentLangraph.Tool.Events

/-! The transport of a plan (`planning_node.py`, `planning_tools.py`, `tool_selection.py`). The actions of
    the planner and the tools that it selects beside them are merged into one list of tools, with
    parameters by name; the tool node goes by the actions as soon as one of them is executable.

        actions ──┬─────────────────────▶ planned_actions ──▶ execute_actions
                  └─ transport ─┐
        selected_tools ─────────┴─ merged ──▶ selected_tools, tool_params, tool_stages -/

namespace AgentLangraph.Plan
open PyText Logged AgentLangraph.Tool
open AgentLangraph.Artifact (Raise ActionType actionTypes DraftTool textOr writeTool appendTool editTool
  readTool needsGeneratedContent)

variable {σ : Type}

/-! ### The result of the planner -/

/-- What the planner comes to: its actions, and the tools that it selects beside them. -/
structure PlanResult where
  actions : List Action := []
  selectedTools : List Text := []
  toolParams : PyDict Text Fields := PyDict.empty
  toolDag : Option Dag := none

/-- `_RETRIEVAL_ALIASES`. -/
def retrievalAliases : List Text :=
  ["search".toList, "knowledge_search".toList, "retrieve".toList, "retrieval".toList,
    "web_search".toList, "knowledge".toList, "rag".toList, "hybrid_search".toList]

/-- `if tool not in tools: tools.append(tool)`. -/
def addNew (tools : List Text) (tool : Text) : List Text := if tool ∈ tools then tools else tools ++ [tool]

/-- `normalize_selected_tools`, the accepted ones. -/
def normalizeSelectedTools (u : Letters) (reg : Registry σ) (raw : List Text) : List Text :=
  raw.foldl (fun accepted item =>
    let name := strip item
    let lowered := u.lower name
    if name = [] ∨ lowered ∈ retrievalAliases then accepted
    else if (reg.get? name).isSome then addNew accepted name
    else if (reg.get? lowered).isSome then addNew accepted lowered
    else accepted) []

/-! ### The merge -/

structure Transport where
  tools : List Text := []
  params : PyDict Text Fields := PyDict.empty
  stages : List (List Text) := []

/-- A tool that is not in the transport gets a stage of its own. -/
def Transport.select (t : Transport) (tool : Text) : Transport :=
  if tool ∈ t.tools then t else { t with tools := t.tools ++ [tool], stages := t.stages ++ [[tool]] }

/-- `tool_params[name] = {**tool_params.get(name, {}), **params}`. -/
def mergeOne (tp : PyDict Text Fields) (name : Text) (p : Fields) : PyDict Text Fields :=
  tp.set name (((tp.get? name).getD PyDict.empty).update p)

/-- The tool and the parameters that an action rides on; an answer, a retrieval and `run_code` have none. -/
def transportCall (taskId : Text) (draft : Text → DraftTool) (a : Action) : Text × Fields :=
  match a.type with
  | .runTool => (textOr a.params "name", a.params.pop "name")
  | .writeArtifact =>
    (if taskId = [] ∨ textOr a.params "filename" = [] then writeTool
      else (draft (textOr a.params "filename")).name, a.params)
  | .editArtifact => (editTool, a.params)
  | .readArtifact => (readTool, a.params)
  | .answer | .retrieve | .runCode => ([], a.params)

def Transport.add (t : Transport) (call : Text × Fields) : Transport :=
  if call.1 = [] then t
  else { t.select call.1 with params := mergeOne t.params call.1 call.2 }

/-- `_execution_transport_from_actions`. -/
def executionTransport (taskId : Text) (draft : Text → DraftTool) (actions : List Action) : Transport :=
  (actions.map (transportCall taskId draft)).foldl Transport.add {}

/-- The parameters of the planner's own tools, over those that are there. -/
def mergeParams (base extra : PyDict Text Fields) : PyDict Text Fields :=
  extra.entries.foldl (fun tp kv => mergeOne tp kv.1 kv.2) base

/-- `str(payload.get("user_role") or "user")`. -/
def planningRole (x : NodeState) : Text :=
  ((x.payload.field "user_role").orElse (.str "user".toList)).toText

/-- `validate_tool_selection`, the valid tools. -/
def validateToolSelection (reg : Registry σ) (role : Text) (tools : List Text) : List Text :=
  tools.filterMap fun tool =>
    match reg.get? (strip tool) with
    | some spec => if strip tool ≠ [] ∧ checkPermission spec role then some (strip tool) else none
    | none => none

/-- `Action.to_dict`. -/
def toDict (a : Action) : Planned := { type := a.type.name, params := a.params }

/-- The part of `planning_node` that merges the two into one plan. -/
def transportPlan (u : Letters) (b : Backends σ) (x : NodeState) (w : σ) (result : PlanResult) : NodeState :=
  let t := executionTransport x.taskId (b.draftTool w x.taskId) result.actions
  let merged := (normalizeSelectedTools u b.registry result.selectedTools).foldl Transport.select t
  let valid := validateToolSelection b.registry (planningRole x) merged.tools
  let stages := (merged.stages.map fun stage => stage.filter (· ∈ valid)).filter (· ≠ [])
  { x with
    plannedActions := result.actions.map toDict
    selectedTools := valid
    toolParams := mergeParams (mergeParams x.toolParams result.toolParams) t.params
    toolStages := if stages = [] then x.toolStages else stages.map Stage.list
    toolDag := match result.toolDag with
      | some d => if d.nodes = [] then x.toolDag else some d
      | none => x.toolDag }

end AgentLangraph.Plan
