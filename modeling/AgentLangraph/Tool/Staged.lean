import AgentLangraph.Tool.Executor
import AgentLangraph.Tool.Guard

/-! The staged pipeline of the tool node (`tool_node.py`, `tool_dag.py`, `tool_side_effect.py`), and the
    node itself. The tools of the stages are invoked one by one, each behind the guard; a stage that only
    reads may be carried out in any order.

        tool_stages │ tool_dag │ selected_tools ── stages ──▶ params ── guard ──▶ invoke -/

namespace AgentLangraph.Tool
open PyText Logged
open AgentLangraph.Artifact (Raise Entry DraftTool textOr writeTool appendTool editTool readTool
  needsGeneratedContent blockRepeatArtifactRead)

/-! ### Stages -/

/-- `READ_ONLY_TOOLS`. -/
def readOnlyTools : List Text :=
  ["echo".toList, "calculator".toList, "get_runtime_info".toList, "summarize_text".toList,
    "ls_path".toList, "read_file".toList, "grep_file".toList, "read_text_artifact".toList,
    "verify_backend".toList, "list_task_artifacts".toList]

/-- `WRITE_TOOLS`. -/
def writeTools : List Text :=
  ["write_file".toList, "append_file".toList, "move_path".toList, "copy_path".toList,
    "replace_in_file".toList, "touch_file".toList, "mkdir_path".toList, "rm_path".toList,
    "edit_text_artifact".toList, "write_text_artifact".toList, "append_text_artifact".toList,
    "enqueue_mission_work_item".toList, "set_mission_work_plan".toList]

/-- `tool_is_read_only`. -/
def toolIsReadOnly (tool : Text) : Bool :=
  if tool ∈ writeTools then false
  else if tool ∈ readOnlyTools then true
  else startswithAny tool ["read_".toList, "get_".toList, "list_".toList]

/-- `partition_stage_by_side_effect`. -/
def partitionStage (tools : List Text) : List (List Text) :=
  let reads := tools.filter toolIsReadOnly
  let writes := tools.filter fun t => !toolIsReadOnly t
  let stages := (if reads = [] then [] else [reads]) ++ writes.map fun w => [w]
  if stages = [] then [tools] else stages

/-- `normalize_stages_for_safe_parallel`. -/
def normalizeStages (stages : List (List Text)) : List (List Text) := stages.flatMap partitionStage

/-- The names of an element of `tool_stages`. -/
def Stage.names : Stage → List Text
  | .list names => names.filter (· ≠ [])
  | .name tool => [tool]

/-- A node of `tool_dag` by its id, which stands in for its tool, and the tool for it. -/
def DagNode.entry (n : DagNode) : Option (Text × Text) :=
  let id := if n.id = [] then n.tool else n.id
  let tool := if n.tool = [] then id else n.tool
  if tool = [] then none else some (id, tool)

/-- The nodes of `tool_dag`; the last one of an id counts. -/
def Dag.tools (d : Dag) : PyDict Text Text := PyDict.ofList (d.nodes.filterMap DagNode.entry)

/-- An order that a set of tools is gone through in. -/
structure Order where
  order : List Text → List Text
  perm : ∀ l, (order l).Perm l

/-- The order of the list itself. -/
def Order.listed : Order := ⟨id, fun l => .refl l⟩

/-- The nodes whose predecessors are done, or one of a cycle. -/
def ready (o : Order) (edges : List (Text × Text)) (remaining : List Text) : List Text :=
  let free := remaining.filter fun n => !edges.any fun e => e.2 == n && e.1 ∈ remaining
  if free = [] then (o.order remaining).take 1 else o.order free

/-- The layers of `_stages_from_dag`; every round takes a node away. -/
def dagLayers (o : Order) (tools : PyDict Text Text) (edges : List (Text × Text)) :
    ℕ → List Text → List (List Text)
  | 0, _ => []
  | fuel + 1, remaining =>
    if remaining = [] then []
    else
      let now := ready o edges remaining
      now.filterMap tools.get? :: dagLayers o tools edges fuel (remaining.filter fun n => n ∉ now)

/-- `_stages_from_dag`. -/
def stagesFromDag (o : Order) (d : Dag) (selected : List Text) : List (List Text) :=
  let ids := d.tools.entries.map Prod.fst
  if ids = [] then selected.map fun t => [t] else dagLayers o d.tools d.edges ids.length ids

/-- `parse_tool_stages`. -/
def parseToolStages (o : Order) (x : NodeState) : List (List Text) :=
  let stages := (x.toolStages.map Stage.names).filter (· ≠ [])
  if stages ≠ [] then normalizeStages stages
  else
    match x.toolDag with
    | some d =>
      if d.nodes = [] then x.selectedTools.map fun t => [t]
      else normalizeStages (stagesFromDag o d x.selectedTools)
    | none => x.selectedTools.map fun t => [t]

/-! ### The parameters of a staged tool -/

variable {σ : Type} (b : Backends σ)

/-- `_tool_cfg`. -/
def toolCfg (x : NodeState) (tool : Text) : Fields := (x.toolParams.get? tool).getD PyDict.empty

/-- `{"task_id": task_id, **tool_params}`. -/
def taskParams (x : NodeState) (cfg : Fields) : Fields :=
  (PyDict.empty.put "task_id" (.str x.taskId)).update cfg

/-- The keys of an edit that are written out. -/
def editKeys : List String :=
  ["filename", "old_text", "new_text", "replace_all", "occurrence_index", "start_line", "end_line",
    "dry_run"]

/-- `str(tool_params.get(key, ""))`. -/
def textParam (cfg : Fields) (key : String) : PyVal :=
  .str ((cfg.get? key.toList).getD (.str [])).toText

/-- `bool(tool_params.get(key, False))`. -/
def boolParam (cfg : Fields) (key : String) : PyVal := .bool (cfg.field key).truthy

/-- The parameters of `edit_text_artifact`. -/
def editParams (x : NodeState) (filename : Text) (cfg : Fields) : Fields :=
  let head := PyDict.ofList
    [("task_id".toList, .str x.taskId), ("filename".toList, .str filename),
      ("old_text".toList, textParam cfg "old_text"), ("new_text".toList, textParam cfg "new_text"),
      ("replace_all".toList, boolParam cfg "replace_all"),
      ("occurrence_index".toList, cfg.field "occurrence_index"),
      ("start_line".toList, cfg.field "start_line"), ("end_line".toList, cfg.field "end_line"),
      ("dry_run".toList, boolParam cfg "dry_run")]
  head.update (editKeys.foldl PyDict.pop cfg)

/-- The profile that the content of a write is normalised for. -/
def NodeState.profile (x : NodeState) : Text :=
  (((x.payload.field "artifact_profile").orElse x.auditProfile).orElse (.str [])).toText.map Char.toLower

/-- The content of a staged write, given or drafted. -/
def stagedContent (x : NodeState) (tool filename : Text) (cfg : Fields) : Attempt σ Raise Text :=
  let content := match cfg.field "content" with
    | .none => []
    | v => if x.profile = "source_code".toList then b.normalizeCode v.toText else strip v.toText
  if needsGeneratedContent content x.goal then b.generate x tool filename x.goal else pure content

/-- The parameters of an artifact tool before its content. -/
def artifactHead (x : NodeState) (filename : Text) (cfg : Fields) : Fields :=
  let p := ((PyDict.empty.put "task_id" (.str x.taskId)).put "filename" (.str filename)).put "_agent_state"
    (.other (b.stateText x) true)
  let p := p.update cfg
  if textOr x.payload "writing_operator" = [] then p
  else p.put "writing_operator" (.str (textOr x.payload "writing_operator"))

/-- The parameters of the artifact tools beside the edit. -/
def artifactParams (x : NodeState) (tool : Text) (cfg : Fields) : Attempt σ Raise Fields := do
  let filename ← b.target x tool cfg (tool = readTool)
  if tool = readTool then pure (artifactHead b x filename cfg)
  else do
    let content ← stagedContent b x tool filename cfg
    pure (withContent (artifactHead b x filename cfg) content)

/-- `_build_tool_params`. -/
def buildToolParams (x : NodeState) (tool : Text) : Attempt σ Raise Fields :=
  let cfg := toolCfg x tool
  if tool = "echo".toList then
    pure (PyDict.empty.put "message" (.str (if x.goal = [] then b.payloadJson x else x.goal)))
  else if tool = "summarize_text".toList then
    pure (PyDict.empty.put "text" (.str (if x.goal = [] then b.contextJson x else x.goal)))
  else if tool = "calculator".toList then
    let expression := (cfg.field "expression").orElse (b.mathExpression x.goal)
    if expression.truthy then pure (PyDict.empty.put "expression" (.str expression.toText))
    else .raise (.valueError
      "calculator requires expression in tool_params or a math goal".toList)
  else if tool = editTool then do
    let filename ← b.target x tool cfg true
    pure (editParams x filename cfg)
  else if tool = writeTool ∨ tool = appendTool ∨ tool = readTool then artifactParams b x tool cfg
  else if tool = "verify_backend".toList then
    pure ((((PyDict.empty.put "task_id" (.str x.taskId)).put "intent_kind" (.str x.intentKind)).put "goal"
      (.str x.goal)).update cfg)
  else pure (taskParams x cfg)

/-- `resolve_imprecise_edit_as_write`. -/
def resolveImpreciseEditAsWrite (x : NodeState) (tool : Text) (p : Fields) : Attempt σ Raise (Text × Fields) :=
  if tool ≠ editTool ∨ editHasTarget p ∨ ¬ x.writingEnabled then pure (tool, p)
  else do
    let content ← resolveWriteContent b x p
    pure (writeTool, withContent p content)

/-- The part of `_invoke` before the guard. -/
def prepareStaged (x : NodeState) (tool : Text) : Attempt σ Raise (Text × Fields) := do
  b.control
  let p ← buildToolParams b x tool
  resolveImpreciseEditAsWrite b x tool p

/-- What comes of a call that the guard refuses, or that repeats a read. -/
inductive Outcome
  | blocked (issues : List Text)
  | repeated (r : Artifact.Result)
  | done (o : Output)

/-- `_invoke` of `tool_execution_node`. -/
def stagedInvoke (u : Letters) (x : NodeState) (tool : Text) : Act σ Outcome := do
  let (tool, p) ← inside (prepareStaged b x tool)
  let spec ← .lift (b.registry.get tool)
  if checkToolParamsSafe u tool p spec x.goal x.userRole ≠ [] then
    pure (.blocked (checkToolParamsSafe u tool p spec x.goal x.userRole))
  else
    match if tool = readTool then blockRepeatArtifactRead b.settings x.rows (textOr p "filename") else none with
    | some r => pure (.repeated r)
    | none => do
      let o ← invokeToolWithGuards b.registry tool p x.userRole
      pure (.done o)

/-- A tool of a stage; an exception becomes an outcome of its own. -/
def stagedStep (u : Letters) (x : NodeState) (tool : Text) : Act σ Unit :=
  .caught (stagedInvoke b u x tool >>= fun _ => pure ()) fun _ => ()

/-- The order that the tools of all stages are invoked in: a stage of several tools that only read is
    parallel. -/
def stagedOrder (o : Order) (stages : List (List Text)) : List Text :=
  stages.flatMap fun stage => if 1 < stage.length ∧ stage.all toolIsReadOnly then o.order stage else stage

/-- `execute_tool_stages`. -/
def executeToolStages (u : Letters) (o : Order) (x : NodeState) : Act σ Unit :=
  .forEach (stagedStep b u x) (stagedOrder o (parseToolStages o x))

/-! ### The node -/

/-- `has_planned_actions`. -/
def hasPlannedActions (x : NodeState) : Bool :=
  x.plannedActions.any fun raw =>
    raw.isDict && decide (raw.type ∉ ["answer".toList, "retrieve".toList])

/-- `tool_execution_node`, behind its checks that the run is neither paused nor cancelled. -/
def toolExecutionNode (u : Letters) (o : Order) (x : NodeState) : Act σ Unit := fun s =>
  if hasPlannedActions x then
    match executeActions b x.plannedActions (Exec.start x s) with
    | (t, r) => (⟨t.world.world, t.log⟩, r)
  else executeToolStages b u o x s

end AgentLangraph.Tool
