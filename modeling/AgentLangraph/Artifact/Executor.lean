import AgentLangraph.Artifact.Content

/-! The executor of planned actions (`action_executor.py`, `domain/action.py`, and the guard of repeated
    reads, `artifact_read_guard.py`). Every action that is executed adds one entry to the tool results;
    an exception that the executor does not catch ends it, and leaves on disk what was done before. -/

namespace AgentLangraph.Artifact
open PyText

inductive ActionType
  | answer | retrieve | readArtifact | writeArtifact | editArtifact | runTool | runCode
  deriving DecidableEq

def ActionType.name : ActionType → Text
  | .answer => "answer".toList
  | .retrieve => "retrieve".toList
  | .readArtifact => "read_artifact".toList
  | .writeArtifact => "write_artifact".toList
  | .editArtifact => "edit_artifact".toList
  | .runTool => "run_tool".toList
  | .runCode => "run_code".toList

def actionTypes : List ActionType :=
  [.answer, .retrieve, .readArtifact, .writeArtifact, .editArtifact, .runTool, .runCode]

/-- An element of `planned_actions`. -/
structure Planned where
  type : Text
  params : Params := {}
  /-- What `dict` or `float` raises on its other fields. -/
  malformed : Option Raise := none

structure Action where
  type : ActionType
  params : Params

/-- `Action.from_dict`. -/
def Planned.action (raw : Planned) : Except Raise Action :=
  match raw.malformed with
  | some e => .error e
  | none =>
    match actionTypes.find? fun ty => ty.name = strip raw.type with
    | some ty => .ok ⟨ty, raw.params⟩
    | none => .error (.valueError ("unknown action type: ".toList ++ strip raw.type))

/-- An entry of `tool_results`. -/
structure Entry where
  tool : Text
  status : Text := []
  actionType : Text := []
  error : Text := []
  errorCode : Text := []
  nonRetryable : Bool := false
  filename : Text := []
  path : Text := []
  /-- `params.filename`. -/
  paramsFilename : Text := []
  result : Option Result := none
  deriving DecidableEq

/-- `str(exc)`. -/
def Raise.message : Raise → Text
  | .fileNotFound m | .valueError m | .permissionError m | .runCancelled m | .other _ m => m
  | .keyError key => "'".toList ++ key ++ "'".toList

/-- `_error_entry`. -/
def errorEntry (tool : Text) (e : Raise) (actionType errorCode : Text) (nonRetryable : Bool) : Entry where
  tool := tool
  status := "error".toList
  actionType := actionType
  error := e.message
  errorCode := errorCode
  nonRetryable := nonRetryable
  result := some { status := "error".toList, error := e.message, errorCode := errorCode,
                   nonRetryable := nonRetryable }

/-- The three `except` clauses of an artifact action. -/
def raisedEntry (tool : Text) (ty : ActionType) (e : Raise) : Entry :=
  match e with
  | .fileNotFound _ => errorEntry tool e ty.name "artifact_not_found".toList true
  | .valueError _ => errorEntry tool e ty.name [] true
  | _ => errorEntry tool e ty.name [] false

def okEntry (tool : Text) (ty : ActionType) (r : Result) : Entry where
  tool := tool
  status := "ok".toList
  actionType := ty.name
  result := some r

/-- The tool behind an artifact action (`ACTION_TOOL_NAMES`). -/
def writeTool : Text := "write_text_artifact".toList

def appendTool : Text := "append_text_artifact".toList

def editTool : Text := "edit_text_artifact".toList

def readTool : Text := "read_text_artifact".toList

/-! ### Repeated reads -/

/-- `Path(name).name.strip()`. -/
def artifactBasename (filename : Text) : Text :=
  strip (((splitSlash filename).filter fun p => p ≠ [] ∧ p ≠ ".".toList).getLast?.getD [])

/-- `_filename_from_tool_result`. -/
def Entry.basename (e : Entry) : Text :=
  let r := e.result.getD {}
  match [r.filename, e.filename, List.intercalate "/".toList r.path, e.path, e.paramsFilename].find?
      (· ≠ []) with
  | some name => artifactBasename name
  | none => []

/-- A read of a file that went well. -/
def Entry.isReadOf (e : Entry) (target : Text) : Bool :=
  e.tool = readTool && (e.status = [] || e.status = "ok".toList || e.status = "cached".toList) &&
    e.basename = target

/-- `count_artifact_reads`. -/
def countArtifactReads (rows : List Entry) (filename : Text) : ℕ :=
  if artifactBasename filename = [] then 0
  else rows.countP fun e => e.isReadOf (artifactBasename filename)

/-- `find_last_artifact_read`. -/
def findLastArtifactRead (rows : List Entry) (filename : Text) : Option Result :=
  if artifactBasename filename = [] then none
  else
    rows.reverse.findSome? fun e =>
      if e.isReadOf (artifactBasename filename) then e.result.filter fun r => r.content.isSome else none

/-- `block_repeat_artifact_read`. -/
def blockRepeatArtifactRead (cfg : Settings) (rows : List Entry) (filename : Text) : Option Result :=
  if countArtifactReads rows filename < max 1 cfg.maxReadsSameFile then none
  else
    match findLastArtifactRead rows filename with
    | some cached => some { cached with status := "cached".toList }
    | none => some
        { filename := artifactBasename filename, status := "blocked".toList,
          error := "read_text_artifact limit reached for ".toList ++ artifactBasename filename,
          errorCode := "read_repeat_limit".toList, nonRetryable := true }

/-! ### One action -/

/-- `_edit_has_target`. -/
def editHasTarget (p : Params) : Bool :=
  p.edits != [] || decide (p.fields.field "start_line" ≠ .none) || strip (textOr p.fields "old_text") != []

/-- The parameters of a tool call: the task of the state where the planner names none. -/
def callParams (turn : Turn) (p : Params) : Params :=
  match p.fields.get? "task_id".toList with
  | some _ => p
  | none => { p with fields := p.fields.put "task_id" (.str turn.taskId) }

def Params.withContent (p : Params) (content : Text) : Params :=
  { p with fields := p.fields.put "content" (.str content) }

/-- A handler whose exceptions become entries. -/
def entryOf {α : Type} (x : Ws α) (ok : α → Entry) (raised : Raise → Entry) : Ws Entry :=
  .caught (x >>= fun a => pure (ok a)) raised

/-- The state that actions are executed with (`current`). -/
structure Exec where
  ws : Workspace := {}
  turn : Turn
  /-- What `should_accept_write` says of the state. -/
  fence : Except Raise Bool := .ok true
  toolResults : List Entry := []
  /-- The tool results in the observations. -/
  observed : List Entry := []

/-- `iter_tool_result_rows`. -/
def Exec.rows (x : Exec) : List Entry := x.toolResults ++ x.observed

/-- An element of `actions_executed`. -/
structure Executed where
  type : Text
  status : Text
  tool : Text := []
  deriving DecidableEq

/-- `turn_facts`, as far as the executor writes them. -/
structure TurnFacts where
  actionsExecuted : List Executed := []
  editsAttempted : Option ℕ := none
  editsApplied : Option ℕ := none
  editApplied : Option Bool := none
  writeVerified : Option Bool := none
  deriving DecidableEq

/-- The part of `_execute_artifact` that writes. -/
def executeWrite (t : Tools) (s : Supply) (x : Exec) (p : Params) : Ws Entry := do
  let content ← onDisk (resolveWriteContent t s x.turn p)
  let ws ← .ask id
  match bodyDraftToolName t.codec ws.disk x.turn.taskId (textOr p.fields "filename") with
  | .append =>
    entryOf (onDisk (handleAppendTextArtifact t (some x.fence) (p.withContent content)))
      (okEntry appendTool .writeArtifact) (raisedEntry appendTool .writeArtifact)
  | .write =>
    entryOf (onDisk (handleWriteTextArtifact t (some x.fence) (p.withContent content)))
      (okEntry writeTool .writeArtifact) (raisedEntry writeTool .writeArtifact)

/-- An edit without a target, carried out as a write of the whole file. -/
def executeImprecise (t : Tools) (s : Supply) (x : Exec) (p : Params) : Ws Entry := do
  let content ← onDisk (resolveWriteContent t s x.turn p)
  entryOf (onDisk (handleWriteTextArtifact t (some x.fence) (p.withContent content)))
    (fun r => okEntry writeTool .editArtifact { r with mode := "write_fallback".toList })
    (raisedEntry editTool .editArtifact)

/-- The entry of a read that is not let through to the disk. -/
def blockedEntry (r : Result) : Entry where
  tool := readTool
  status := if r.status = [] then "cached".toList else r.status
  actionType := ActionType.readArtifact.name
  error := r.error
  errorCode := if r.error = [] then [] else r.errorCode
  nonRetryable := decide (r.error ≠ []) && r.nonRetryable
  result := some r

/-- The part of `_execute_artifact` that reads. -/
def executeRead (t : Tools) (x : Exec) (p : Params) : Ws Entry :=
  match blockRepeatArtifactRead t.settings x.rows (textOr p.fields "filename") with
  | some blocked => pure (blockedEntry blocked)
  | none =>
    entryOf (handleReadTextArtifact t p) (okEntry readTool .readArtifact)
      (raisedEntry readTool .readArtifact)

/-- An edit with a target. -/
def executePrecise (t : Tools) (p : Params) : Ws Entry :=
  entryOf (onDisk (handleEditTextArtifact t p)) (okEntry editTool .editArtifact)
    (raisedEntry editTool .editArtifact)

/-- What a registry tool returns. -/
structure Invoked where
  tool : Text
  result : Option Result := none

/-- An action, and what comes from outside while it is carried out. -/
structure Step where
  planned : Planned
  supply : Supply := {}
  /-- The time of the disk. -/
  now : ℕ := 0
  /-- `invoke_tool_with_guards`. -/
  invoke : Text → Params → Ws Invoked := fun name _ => pure { tool := name }
  /-- `run_engineering_bounded`, with the status it ends in. -/
  code : Attempt (Exec × TurnFacts) Raise Text := pure []

/-- The name and the parameters that a `run_tool` is invoked with: a write that needs its text drafted
    goes to the tool for the draft. -/
def redirectRunTool (t : Tools) (s : Supply) (turn : Turn) (name : Text) (p : Params) :
    Io (Text × Params) := do
  let filename := textOr p.fields "filename"
  let content := match p.fields.field "content" with
    | .none => []
    | v => strip v.toText
  if (name = writeTool ∨ name = appendTool) ∧ filename ≠ [] ∧
      needsGeneratedContent content turn.toolGoal then
    let d ← .ask id
    let tool := bodyDraftToolName t.codec d turn.taskId filename
    let drafted ← generateArtifactContent t s turn tool filename turn.toolGoal
    pure (tool.name, p.withContent drafted)
  else pure (name, p)

/-- `_execute_run_tool`. -/
def executeRunTool (t : Tools) (step : Step) (x : Exec) (p : Params) : Ws Entry := do
  let name := textOr p.fields "name"
  if name = [] then
    pure (errorEntry "run_tool".toList (.valueError "run_tool action requires params.name".toList)
      ActionType.runTool.name [] true)
  else
    let (name, p) ← onDisk (redirectRunTool t step.supply x.turn name
      (callParams x.turn { p with fields := p.fields.pop "name" }))
    entryOf (step.invoke name p)
      (fun invoked =>
        let r := invoked.result.getD {}
        if r.status = "error".toList then
          errorEntry name (.valueError (if r.error = [] then "tool failed".toList else r.error))
            ActionType.runTool.name [] false
        else
          { tool := invoked.tool, status := "ok".toList, actionType := ActionType.runTool.name,
            result := invoked.result })
      (fun e =>
        match e with
        | .keyError _ => errorEntry name e ActionType.runTool.name "unknown_tool".toList true
        | .permissionError _ => errorEntry name e ActionType.runTool.name "permission_denied".toList true
        | _ => errorEntry name e ActionType.runTool.name [] false)

/-- The entry of an action that the executor carries out itself. -/
def executeEntry (t : Tools) (step : Step) (x : Exec) (a : Action) : Ws Entry :=
  let p := callParams x.turn a.params
  match a.type with
  | .writeArtifact => executeWrite t step.supply x p
  | .editArtifact =>
    if editHasTarget p then executePrecise t p else executeImprecise t step.supply x p
  | .readArtifact => executeRead t x p
  | _ => executeRunTool t step x a.params

/-! ### All actions of a turn -/

/-- `is_edit_applied`. -/
def isEditApplied (r : Option Result) : Bool :=
  match r with
  | none => false
  | some r => r.status = "ok".toList && 1 ≤ r.replacements.getD 0

/-- The state and the locals of `execute_actions`. -/
structure Run where
  exec : Exec
  results : List Entry := []
  facts : TurnFacts := {}
  executed : List Executed := []
  attempted : ℕ := 0
  applied : ℕ := 0

/-- What is left on disk. -/
def Run.onWorkspace (r : Run) (ws : Workspace) : Run := { r with exec := { r.exec with ws := ws } }

/-- An entry is recorded; an edit is counted. -/
def Run.record (r : Run) (ty : ActionType) (e : Entry) : Run :=
  { r with
    results := r.results ++ [e]
    executed := r.executed ++
      [{ type := ty.name, status := if e.status = [] then "ok".toList else e.status, tool := e.tool }]
    attempted := if ty = .editArtifact then r.attempted + 1 else r.attempted
    applied := if ty = .editArtifact ∧ isEditApplied e.result then r.applied + 1 else r.applied }

/-- The clock of the disk goes on. -/
def Workspace.at (ws : Workspace) (now : ℕ) : Workspace := { ws with disk := { ws.disk with now := now } }

/-- An action that has an entry of its own. -/
def Run.execute (t : Tools) (step : Step) (a : Action) : Attempt Run Raise Unit := fun r =>
  match executeEntry t step r.exec a (r.exec.ws.at step.now) with
  | (ws, .ok e) => ((r.onWorkspace ws).record a.type e, .ok ())
  | (ws, .error e) => (r.onWorkspace ws, .error e)

/-- `run_code`, which is given the results so far and gives others back. -/
def Run.runCode (step : Step) : Attempt Run Raise Unit := fun r =>
  match step.code ({ r.exec with toolResults := r.results }, r.facts) with
  | ((x, facts), .ok status) =>
    ({ r with
        exec := x, results := x.toolResults, facts := facts
        executed := r.executed ++ [{ type := ActionType.runCode.name, status := status }] }, .ok ())
  | ((x, _), .error e) => (r.onWorkspace x.ws, .error e)

/-- One round of the loop of `execute_actions`. -/
def Run.step (t : Tools) (step : Step) : Attempt Run Raise Unit :=
  match step.planned.action with
  | .error e => .change fun r =>
    { r with
      results := r.results ++ [errorEntry "planned_action".toList e "invalid".toList [] true]
      executed := r.executed ++ [{ type := "invalid".toList, status := "error".toList }] }
  | .ok a =>
    match a.type with
    | .answer | .retrieve => .change fun r =>
      { r with executed := r.executed ++ [{ type := a.type.name, status := "deferred".toList }] }
    | .runCode => Run.runCode step
    | _ => Run.execute t step a

/-- The loop of `execute_actions`. -/
def Run.steps (t : Tools) (steps : List Step) : Attempt Run Raise Unit := .forEach (Run.step t) steps

/-! ### The facts of the turn -/

/-- `str(item.get("status") or "") in ("ok", "success")`. -/
def Entry.wentWell (e : Entry) : Bool := e.status = "ok".toList || e.status = "success".toList

/-- `_read_sizes_from_tool_results`. -/
def readSizes (rows : List Entry) : PyDict Text ℕ :=
  rows.foldl (fun sizes e =>
    let r := e.result.getD {}
    if e.tool = readTool ∧ e.wentWell ∧ strip r.filename ≠ [] then
      sizes.set (strip r.filename) (if r.totalChars ≠ 0 then r.totalChars
        else utf8Len (r.rawContent.getD (r.content.getD [])))
    else sizes) PyDict.empty

/-- `write_unchanged_after_read`. -/
def writeUnchangedAfterRead (rows : List Entry) : Bool :=
  (rows.reverse.findSome? fun e =>
    let r := e.result.getD {}
    if e.tool = writeTool ∧ e.wentWell then
      ((readSizes rows).get? (strip r.filename)).map fun prior =>
        r.bytes == 0 || 0 < prior && r.bytes == prior
    else none).getD false

/-- `annotate_write_honesty`. -/
def annotateWriteHonesty (facts : TurnFacts) (rows : List Entry) : TurnFacts :=
  if writeUnchangedAfterRead rows then { facts with writeVerified := some false }
  else if rows.any fun e => e.tool = writeTool && e.wentWell then
    { facts with writeVerified := some true }
  else facts

/-- What the loop has counted goes into the facts. -/
def Run.countedFacts (r : Run) : TurnFacts :=
  let facts := { r.facts with actionsExecuted := r.executed }
  if r.attempted = 0 then facts
  else
    { facts with
      editsAttempted := some r.attempted
      editsApplied := some r.applied
      editApplied := some (r.applied = r.attempted) }

/-- The end of `execute_actions`. -/
def Run.finish (r : Run) : Run :=
  { r with
    exec := { r.exec with toolResults := r.results }
    facts := annotateWriteHonesty r.countedFacts r.results }

/-- A run of `execute_actions` begins. -/
def Run.begin (x : Exec) (facts : TurnFacts) : Run := { exec := x, results := x.toolResults, facts := facts }

/-- `execute_actions`. -/
def executeActions (t : Tools) (steps : List Step) : Attempt Run Raise Unit :=
  if steps = [] then pure ()
  else do
    Run.steps t steps
    .change Run.finish

end AgentLangraph.Artifact
