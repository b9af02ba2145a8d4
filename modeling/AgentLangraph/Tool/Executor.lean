import AgentLangraph.Tool.Registry

/-! The planned pipeline of the tool node (`execute_actions` of `action_executor.py`), as far as it decides
    which tools are asked for, with which parameters. What the tools do is `σ`; how the results are
    counted for the convergence gate is in `Artifact.Executor`. -/

namespace AgentLangraph.Tool
open PyText Logged
open AgentLangraph.Artifact (Raise Entry ActionType actionTypes DraftTool textOr writeTool appendTool
  editTool readTool errorEntry raisedEntry okEntry blockedEntry needsGeneratedContent
  blockRepeatArtifactRead)

/-- An element of `planned_actions`. -/
structure Planned where
  isDict : Bool := true
  type : Text := []
  params : Fields := PyDict.empty
  /-- What `dict` or `float` raises on its other fields. -/
  malformed : Option Raise := none

structure Action where
  type : ActionType
  params : Fields

/-- `Action.from_dict(raw if isinstance(raw, dict) else {})`. -/
def Planned.action (raw : Planned) : Except Raise Action :=
  match if raw.isDict then raw.malformed else none with
  | some e => .error e
  | none =>
    let type := if raw.isDict then strip raw.type else []
    match actionTypes.find? fun ty => ty.name = type with
    | some ty => .ok ⟨ty, raw.params⟩
    | none => .error (.valueError ("unknown action type: ".toList ++ type))

/-- An element of `tool_stages`. -/
inductive Stage
  | list (names : List Text)
  | name (tool : Text)

/-- A node of `tool_dag`, with what it has for `id` and `tool`. -/
structure DagNode where
  id : Text := []
  tool : Text := []

/-- `tool_dag`: its nodes and its edges. -/
structure Dag where
  nodes : List DagNode := []
  edges : List (Text × Text) := []

/-- What the tool node reads of the state. -/
structure NodeState where
  taskId : Text
  plannedActions : List Planned := []
  selectedTools : List Text := []
  toolResults : List Entry := []
  /-- The tool results in the observations. -/
  observed : List Entry := []
  /-- The entries of the payload that are neither lists nor dictionaries. -/
  payload : Fields := PyDict.empty
  /-- The entries of `tool_params` that are dictionaries. -/
  toolParams : PyDict Text Fields := PyDict.empty
  toolStages : List Stage := []
  toolDag : Option Dag := none
  /-- `writing_intent.enabled`. -/
  writingEnabled : Bool := false
  /-- `route_audit.inferred_kind` and `route_audit.artifact_profile`. -/
  auditKind : PyVal := .none
  auditProfile : PyVal := .none

/-- `str(payload.get("user_role", "user"))`. -/
def NodeState.userRole (x : NodeState) : Text :=
  ((x.payload.get? "user_role".toList).getD (.str "user".toList)).toText

/-- `str(payload.get("goal") or payload.get("query") or "")`. -/
def NodeState.goal (x : NodeState) : Text :=
  (((x.payload.field "goal").orElse (x.payload.field "query")).orElse (.str [])).toText

/-- `str(payload.get("goal") or payload.get("query") or payload.get("question") or "")`. -/
def NodeState.writeGoal (x : NodeState) : Text :=
  ((((x.payload.field "goal").orElse (x.payload.field "query")).orElse
    (x.payload.field "question")).orElse (.str [])).toText

/-- `str(payload.get("intent_kind") or audit.get("inferred_kind") or "code")`. -/
def NodeState.intentKind (x : NodeState) : Text :=
  (((x.payload.field "intent_kind").orElse x.auditKind).orElse (.str "code".toList)).toText

/-- `iter_tool_result_rows`. -/
def NodeState.rows (x : NodeState) : List Entry := x.toolResults ++ x.observed

/-- The handlers of session files that `run_engineering_bounded` calls. -/
inductive CodeTool
  | mkdirPath | writeFile | readFile
  deriving DecidableEq

def CodeTool.name : CodeTool → Text
  | .mkdirPath => "mkdir_path".toList
  | .writeFile => "write_file".toList
  | .readFile => "read_file".toList

/-- What the node works with, on a world `σ`: the registry, the handlers of the artifacts, the project
    files, the models. -/
structure Backends (σ : Type) where
  registry : Registry σ
  settings : Artifact.Settings := {}
  /-- `_artifact_handler` and `handle_append_text_artifact`, by the name of the tool. -/
  artifact : Text → Fields → Attempt σ Raise Output
  /-- `body_draft_tool_name`, of a task and a file. -/
  draftTool : σ → Text → Text → DraftTool
  /-- `generate_artifact_content`, of a state, a tool, a file and a goal. -/
  generate : NodeState → Text → Text → Text → Attempt σ Raise Text
  /-- `str` of the state. -/
  stateText : NodeState → Text
  /-- `check_for_control_signal`. -/
  control : Attempt σ Raise Unit
  /-- The rounds of `run_engineering_bounded`, which plans and then repairs, with the session files of
      each round and the tool that each is handled by. -/
  codeRounds : ℕ := 0
  codeFiles : NodeState → ℕ → Attempt σ Raise (List (CodeTool × Fields))
  /-- The rest of `run_engineering_bounded`: the tool results it leaves. -/
  code : NodeState → Attempt σ Raise (List Entry)
  /-- The file that `resolve_artifact_target` finds for a tool, and whether it has to be there. -/
  target : NodeState → Text → Fields → Bool → Attempt σ Raise Text
  /-- `normalize_code_content`, `extract_math_expression`, and `json.dumps` of the payload and of its
      context. -/
  normalizeCode : Text → Text := id
  mathExpression : Text → PyVal := fun _ => .none
  payloadJson : NodeState → Text := fun _ => []
  contextJson : NodeState → Text := fun _ => []

/-- A world of no state where no tool is registered and nothing is drafted. -/
def bareWorld : Backends Unit where
  registry := PyDict.empty
  artifact := fun _ _ => pure {}
  draftTool := fun _ _ _ => .write
  generate := fun _ _ _ _ => pure []
  stateText := fun _ => []
  control := pure ()
  codeFiles := fun _ _ => pure []
  code := fun _ => pure []
  target := fun _ _ _ _ => pure []

variable {σ : Type} (b : Backends σ)

/-- `params.setdefault("task_id", task_id)`. -/
def withTask (taskId : Text) (p : Fields) : Fields :=
  if p.has "task_id" then p else p.put "task_id" (.str taskId)

/-- `isinstance(v, list) and v`. -/
def isFullList : PyVal → Bool
  | .other ('[' :: _) full => full
  | _ => false

/-- `_edit_has_target`. -/
def editHasTarget (p : Fields) : Bool :=
  isFullList (p.field "edits") || decide (p.field "start_line" ≠ .none) ||
    strip (textOr p "old_text") != []

/-- `"" if raw is None else str(raw).strip()`. -/
def givenContent (p : Fields) : Text :=
  match p.field "content" with
  | .none => []
  | v => strip v.toText

/-- `_resolve_write_content`. -/
def resolveWriteContent (x : NodeState) (p : Fields) : Attempt σ Raise Text :=
  if ¬ needsGeneratedContent (givenContent p) x.writeGoal then pure (givenContent p)
  else if textOr p "filename" = [] then
    .raise (.valueError "write_artifact requires params.filename".toList)
  else do
    let tool ← .ask fun w => b.draftTool w x.taskId (textOr p "filename")
    b.generate x tool.name (textOr p "filename") x.writeGoal

/-- A handler is called without the registry. -/
def direct (tool : Text) (p : Fields) : Act σ Output := do
  note (.invoked tool p)
  called tool p (b.artifact tool)

/-- A call whose exceptions become entries. -/
def entryOf (x : Act σ Output) (ok : Output → Entry) (raised : Raise → Entry) : Act σ Entry :=
  .caught (x >>= fun o => pure (ok o)) raised

/-! ### One action -/

/-- The name and the parameters that a `run_tool` is invoked with: a write that needs its text drafted
    goes to the tool for the draft. -/
def redirectRunTool (x : NodeState) (name : Text) (p : Fields) : Attempt σ Raise (Text × Fields) :=
  if (name = writeTool ∨ name = appendTool) ∧ textOr p "filename" ≠ [] ∧
      needsGeneratedContent (givenContent p) x.goal then do
    let tool ← .ask fun w => b.draftTool w x.taskId (textOr p "filename")
    let content ← b.generate x tool.name (textOr p "filename") x.goal
    pure (tool.name, p.put "content" (.str content))
  else pure (name, p)

/-- The entry of a `run_tool` that came through. -/
def ranEntry (name : Text) (o : Output) : Entry :=
  if o.result.status = "error".toList then
    errorEntry name (.valueError (if o.result.error = [] then "tool failed".toList else o.result.error))
      ActionType.runTool.name [] false
  else
    { tool := strip name, status := "ok".toList, actionType := ActionType.runTool.name,
      result := some o.result }

/-- The entry of a `run_tool` that raised. -/
def refusedEntry (name : Text) (e : Raise) : Entry :=
  match e with
  | .keyError _ => errorEntry name e ActionType.runTool.name "unknown_tool".toList true
  | .permissionError _ => errorEntry name e ActionType.runTool.name "permission_denied".toList true
  | _ => errorEntry name e ActionType.runTool.name [] false

/-- `_execute_run_tool`. -/
def executeRunTool (x : NodeState) (p : Fields) : Act σ Entry :=
  if textOr p "name" = [] then
    pure (errorEntry "run_tool".toList (.valueError "run_tool action requires params.name".toList)
      ActionType.runTool.name [] true)
  else do
    let (name, p) ← inside
      (redirectRunTool b x (textOr p "name") (withTask x.taskId (p.pop "name")))
    entryOf (invokeToolWithGuards b.registry name p x.userRole) (ranEntry name) (refusedEntry name)

/-- The parameters of a write carry the state, for the run fence. -/
def withState (x : NodeState) (p : Fields) : Fields :=
  p.put "_agent_state" (.other (b.stateText x) true)

def withContent (p : Fields) (content : Text) : Fields := p.put "content" (.str content)

/-- The part of `_execute_artifact` that writes. -/
def executeWrite (x : NodeState) (p : Fields) : Act σ Entry := do
  let content ← inside (resolveWriteContent b x p)
  let tool ← inside (.ask fun w => b.draftTool w x.taskId (textOr p "filename"))
  entryOf (direct b tool.name (withContent p content)) (fun o => okEntry tool.name .writeArtifact o.result)
    (raisedEntry tool.name .writeArtifact)

/-- An edit without a target, carried out as a write of the whole file. -/
def executeImprecise (x : NodeState) (p : Fields) : Act σ Entry := do
  let content ← inside (resolveWriteContent b x p)
  entryOf (direct b writeTool (withContent p content))
    (fun o => okEntry writeTool .editArtifact { o.result with mode := "write_fallback".toList })
    (raisedEntry editTool .editArtifact)

/-- The part of `_execute_artifact` that reads. -/
def executeRead (x : NodeState) (p : Fields) : Act σ Entry :=
  match blockRepeatArtifactRead b.settings x.rows (textOr p "filename") with
  | some blocked => pure (blockedEntry blocked)
  | none =>
    entryOf (direct b readTool p) (fun o => okEntry readTool .readArtifact o.result)
      (raisedEntry readTool .readArtifact)

/-- The entry of an action that the executor carries out itself. -/
def executeEntry (x : NodeState) (a : Action) : Act σ Entry :=
  let p := withTask x.taskId a.params
  match a.type with
  | .writeArtifact => executeWrite b x (withState b x p)
  | .editArtifact =>
    if editHasTarget p then
      entryOf (direct b editTool (withState b x p)) (fun o => okEntry editTool .editArtifact o.result)
        (raisedEntry editTool .editArtifact)
    else executeImprecise b x (withState b x p)
  | .readArtifact => executeRead b x p
  | _ => executeRunTool b x a.params

/-! ### All actions of a turn -/

/-- The world, with `current` and `results` of `execute_actions`. -/
structure Exec (σ : Type) where
  world : σ
  current : NodeState
  results : List Entry := []

/-- Before the first action. -/
def Exec.start (x : NodeState) (s : Logged σ Event) : Logged (Exec σ) Event :=
  ⟨{ world := s.world, current := x, results := x.toolResults }, s.log⟩

/-- A program of the node, run inside the loop. -/
def within {α : Type} (x : NodeState → Act σ α) : Act (Exec σ) α := fun s =>
  match x s.world.current ⟨s.world.world, s.log⟩ with
  | (t, r) => (⟨{ s.world with world := t.world }, t.log⟩, r)

/-- A change of the locals of the loop. -/
def onLoop (f : Exec σ → Exec σ) : Act (Exec σ) Unit := .change fun s => { s with world := f s.world }

/-- A result is appended. -/
def record (e : Entry) : Act (Exec σ) Unit := onLoop fun s => { s with results := s.results ++ [e] }

/-- A session file of `run_engineering_bounded`, in the directory of the state's task; one that cannot be
    written is passed over. -/
def writeCodeFile (x : NodeState) (file : CodeTool × Fields) : Act σ Unit :=
  .caught (direct b file.1.name (file.2.put "task_id" (.str x.taskId)) >>= fun _ => pure ()) fun _ => ()

/-- `run_engineering_bounded`. -/
def runEngineeringBounded (x : NodeState) : Act σ (List Entry) := do
  .forEach (fun n => inside (b.codeFiles x n) >>= .forEach (writeCodeFile b x)) (List.range b.codeRounds)
  inside (b.code x)

/-- The results so far become those of the state. -/
def Exec.handOver (s : Exec σ) : Exec σ :=
  { s with current := { s.current with toolResults := s.results } }

/-- The state that `run_code` gives back, with its results and the kind it went by. -/
def Exec.takeBack (results : List Entry) (s : Exec σ) : Exec σ :=
  let payload := s.current.payload.put "intent_kind" (.str s.current.intentKind)
  { s with results := results, current := { s.current with toolResults := results, payload := payload } }

/-- `run_code`. -/
def runCode : Act (Exec σ) Unit := do
  onLoop Exec.handOver
  let results ← within (runEngineeringBounded b)
  onLoop (Exec.takeBack results)

/-- An action of the planner is carried out; an answer and a retrieval are left to their nodes. -/
def Exec.perform (a : Action) : Act (Exec σ) Unit :=
  match a.type with
  | .answer | .retrieve => pure ()
  | .runCode => runCode b
  | _ => within (fun x => executeEntry b x a) >>= record

/-- One round of the loop of `execute_actions`. -/
def Exec.step (raw : Planned) : Act (Exec σ) Unit :=
  match raw.action with
  | .error e => record (errorEntry "planned_action".toList e "invalid".toList [] true)
  | .ok a => Exec.perform b a

/-- `execute_actions`. -/
def executeActions (actions : List Planned) : Act (Exec σ) Unit := .forEach (Exec.step b) actions

end AgentLangraph.Tool
