import AgentLangraph.Access.Turns
import AgentLangraph.Artifact.Handlers
import AgentLangraph.Lib.Footprint
import Mathlib.Data.Char
import Mathlib.Data.List.Lex

/-! The handlers that are about one task (`task_api.py`, `artifacts_api.py`): what each of them checks
    before it gets to work, and the rows, tombstones and directories it then works on. A task has the
    directory that `re.sub` leaves of its id, so two tasks may have one directory.

        require_task_access_dep   the row must be there, and be the principal's
        delete, message           the same, if the row is there
        create, artifacts         no check of the owner -/

namespace AgentLangraph.Access
open PyText Session Run Footprint
open AgentLangraph.Artifact (Path File Disk Io Raise taskDir joinPath utf8Len writeText openAppend appendText)

/-! ### What is stored -/

/-- The rows of the store, the tombstones, and the directories below the root of the artifacts. -/
inductive Slot
  | row (taskId : Text)
  | tombstone (taskId : Text)
  | folder (dir : Text)
  deriving DecidableEq

def Slot.Val : Slot → Type
  | .row _ => Option Stored
  | .tombstone _ => Bool
  | .folder _ => Disk

/-- A directory that holds nothing. -/
def emptyFolder : Disk := { dirs := [[]] }

instance (k : Slot) : Inhabited k.Val :=
  match k with
  | .row _ => ⟨(none : Option Stored)⟩
  | .tombstone _ => ⟨false⟩
  | .folder _ => ⟨emptyFolder⟩

abbrev World := (k : Slot) → k.Val

/-- `state.get("user_id")` of the row of a task. -/
def World.owner (w : World) (taskId : Text) : Option Text :=
  (w (.row taskId) : Option Stored).map Stored.userId

/-- The directory of a task, if its id has one. -/
def folderSlots (taskId : Text) : List Slot := if taskDir taskId = [] then [] else [.folder (taskDir taskId)]

/-- All that belongs to a task. -/
def taskSlots (taskId : Text) : List Slot := [Slot.row taskId, Slot.tombstone taskId] ++ folderSlots taskId

/-! ### The requests -/

/-- The handlers behind `require_task_access_dep`. -/
inductive TaskRoute
  | stopTask | interruptTaskStream | pauseTask | cancelTask | pauseWorker | cancelWorker
  | getTaskControl | getTaskStateDebug | getTaskSessionUsage | getTaskContextComposition
  | putTaskChatModel | postTaskContextCompress | getTaskStatus | getTaskResult
  | getTaskConversation | getTaskMessages | getTaskMessageEvents | streamTaskMessageEvents
  | getTaskAudit | getTaskLlmInteractions
  deriving DecidableEq

/-- What the graph makes of a turn, if the request starts one. -/
structure GraphRun (ρ : Type) where
  /-- The id of a task without a session (`uuid4`). -/
  freshId : Text
  /-- The other tasks that the tools of the turn name. -/
  named : List Text := []
  run : Option Stored → World → World × ρ

inductive TaskRequest (ρ : Type)
  | createTask (sessionId : Text) (r : CreateTask) (turn : GraphRun ρ)
  | deleteTask (taskId : Text)
  | streamMessageTask (taskId : Text) (m : Message) (event : Option EventType) (turn : GraphRun ρ)
  | behindAccess (route : TaskRoute) (taskId : Text) (args : Fields)
  | listArtifacts (taskId : Text)
  | downloadArtifact (taskId filename : Text)
  | listTaskFiles (taskId path : Text) (recursive : Bool) (maxEntries : ℕ)
  | readTaskFileContent (taskId path : Text) (offset maxChars : ℕ)
  | writeTaskFileContent (taskId path content : Text) (append : Bool) (now : ℕ)

/-- An element of `entries`; the times of directories are left out. -/
structure FileEntry where
  path : Path
  isDir : Bool
  size : Option ℕ := none
  mtime : Option ℕ := none
  deriving DecidableEq

inductive Reply (ρ : Type)
  | refused (e : Refusal)
  /-- An exception that nobody catches. -/
  | serverError
  | deleted (taskId : Text)
  | artifacts (taskId : Text) (items : List (Text × ℕ))
  | file (name : Text) (content : Text)
  | entries (taskId : Text) (entries : List FileEntry) (truncated : Bool)
  | content (taskId path content : Text) (offset totalChars : ℕ) (truncated : Bool) (mtime : ℕ)
  | written (taskId path : Text) (append : Bool) (bytes totalChars mtime : ℕ)
  /-- The reply of a turn, or of a handler behind the check. -/
  | body (r : ρ)

/-- The server, with what it knows besides the store. -/
structure Server (ρ : Type) where
  api : Api
  /-- The components of `artifacts_root().resolve()`. -/
  artifactsRoot : Path
  route : TaskRoute → Text → Fields → World → World × ρ

variable {ρ : Type}

/-! ### The routes of files -/

/-- `_resolve_in_task_dir`, as a path below the directory of the task. -/
def resolveInTaskDir (v : Server ρ) (taskId rawPath : Text) : Except Refusal Path :=
  if taskDir taskId = [] then .error .badRequest
  else if startswith (strip rawPath) "/".toList then .error .badRequest
  else
    let root := v.artifactsRoot ++ [taskDir taskId]
    let target := joinPath root (strip rawPath)
    if root <+: target then .ok (target.drop root.length) else .error .badRequest

/-- A program on the directory of a task. -/
def onFolder (taskId : Text) (x : Io (Reply ρ)) : World → World × Reply ρ :=
  act (folderSlots taskId) fun w =>
    match x (w (.folder (taskDir taskId))) with
    | (d, .ok reply) => (Function.update w (.folder (taskDir taskId)) d, reply)
    | (d, .error _) => (Function.update w (.folder (taskDir taskId)) d, .serverError)

/-- `list_task_artifacts`: the files that are directly in the directory, by name. -/
def listTaskArtifacts (d : Disk) : List (Text × ℕ) :=
  (d.files.entries.filterMap fun e =>
    match e.1 with
    | [name] => some (name, utf8Len e.2.text)
    | _ => none).mergeSort fun a b => decide (a.1 ≤ b.1)

def listArtifacts (taskId : Text) : Io (Reply ρ) := .ask fun d => .artifacts taskId (listTaskArtifacts d)

/-- `Path(filename).name`. -/
def pathName (filename : Text) : Text :=
  (((splitSlash filename).filter fun part => part ≠ [] ∧ part ≠ ".".toList).getLast?).getD []

def downloadArtifact (filename : Text) : Io (Reply ρ) := .ask fun d =>
  match d.stored [pathName filename] with
  | some text => .file (pathName filename) text
  | none => .refused .notFound

/-- What is below a directory, or directly in it. -/
def belowDir (base : Path) (recursive : Bool) (path : Path) : Bool :=
  decide (base <+: path) && if recursive then decide (base.length < path.length)
    else decide (path.length = base.length + 1)

/-- The entries of `list_task_files`, in the order of the directory. -/
def folderEntries (d : Disk) (base : Path) (recursive : Bool) : List FileEntry :=
  ((d.dirs.filter (belowDir base recursive)).map fun path => ⟨path.drop base.length, true, none, none⟩) ++
    (d.files.entries.filter fun e => belowDir base recursive e.1).map fun e =>
      ⟨e.1.drop base.length, false, some (utf8Len e.2.text), some e.2.mtime⟩

def listTaskFiles (taskId : Text) (base : Path) (recursive : Bool) (maxEntries : ℕ) : Io (Reply ρ) :=
  .ask fun d =>
    if base ∈ d.dirs then
      let out := (folderEntries d base recursive).take maxEntries
      .entries taskId out (decide (maxEntries ≤ out.length))
    else .refused .notFound

def mtimeAt (d : Disk) (path : Path) : ℕ := ((d.files.get? path).map File.mtime).getD 0

def readTaskFileContent (taskId rawPath : Text) (path : Path) (offset maxChars : ℕ) : Io (Reply ρ) :=
  .ask fun d =>
    match d.textAt path with
    | some content =>
      .content taskId rawPath ((content.drop offset).take maxChars) offset content.length
        (decide (offset + maxChars < content.length)) (mtimeAt d path)
    | none => .refused .notFound

/-- The directories that a path lies in. -/
def parents (path : Path) : List Path := path.dropLast.inits

/-- `path.parent.mkdir(parents=True, exist_ok=True)`. -/
def makeParents (path : Path) : Io Unit := fun d =>
  if (parents path).any d.isFile then (d, .error Artifact.notADirectory)
  else ({ d with dirs := d.dirs ++ (parents path).filter fun dir => dir ∉ d.dirs }, .ok ())

def writeTaskFileContent (taskId rawPath : Text) (path : Path) (content : Text) (append : Bool) (now : ℕ) :
    Io (Reply ρ) := do
  .change fun d => { d with now := now }
  makeParents path
  if append then
    openAppend path
    appendText path content
  else writeText path content
  let written ← Artifact.readText path
  let mtime ← .ask fun d => mtimeAt d path
  pure (.written taskId rawPath append (utf8Len written) written.length mtime)

/-! ### The other handlers -/

/-- `delete_task` behind its check: the row, the tombstone and the directory. -/
def deleteTask (taskId : Text) : World → World × Reply ρ :=
  act (taskSlots taskId) fun w =>
    (Function.update (Function.update (Function.update w (.row taskId) none) (.tombstone taskId) true)
      (.folder (taskDir taskId)) emptyFolder, .deleted taskId)

/-- The task that a turn runs on. -/
def turnTask (v : Server ρ) (sessionId : Text) (turn : GraphRun ρ) : Text :=
  if v.api.sessionEnabled = true ∧ sessionId ≠ [] then sessionId else turn.freshId

/-- What a turn works on: its task, and the directories of the tasks that its tools name. -/
def turnSlots (v : Server ρ) (sessionId : Text) (turn : GraphRun ρ) : List Slot :=
  taskSlots (turnTask v sessionId turn) ++ turn.named.flatMap folderSlots

/-- The requests of a session, as the rows are now. -/
def apiAt (v : Server ρ) (taskId : Text) (w : World) : Api :=
  { v.api with
    sessionId := taskId
    surroundings := { v.api.surroundings with tombstoned := w (.tombstone taskId) } }

def createTask (v : Server ρ) (p : AuthPrincipal) (sessionId : Text) (r : CreateTask) (turn : GraphRun ρ) :
    World → World × Reply ρ :=
  act (turnSlots v sessionId turn) fun w =>
    let taskId := turnTask v sessionId turn
    let (w, reply) := turn.run (startTurn (apiAt v taskId w) p (w (.row taskId)) (.createTask r)) w
    (w, .body reply)

def streamMessageTask (v : Server ρ) (p : AuthPrincipal) (taskId : Text) (m : Message)
    (event : Option EventType) (turn : GraphRun ρ) : World → World × Reply ρ :=
  act (taskSlots taskId ++ turnSlots v taskId turn) fun w =>
    let (w, reply) := turn.run (startTurn (apiAt v taskId w) p (w (.row taskId)) (.message m event)) w
    (w, .body reply)

/-- A handler behind `require_task_access_dep`. -/
def behindAccess (v : Server ρ) (route : TaskRoute) (taskId : Text) (args : Fields) :
    World → World × Reply ρ :=
  act (taskSlots taskId) fun w =>
    let (w, reply) := v.route route taskId args w
    (w, .body reply)

/-! ### The checks -/

/-- What a handler checks before it gets to work. A request for a new task is refused with 400 or, for a
    skill, with 403 or 404; the name of a download is that of no file where it names a directory. -/
def gate (v : Server ρ) (p : AuthPrincipal) (w : World) : TaskRequest ρ → Except Refusal Unit
  | .createTask _ r _ => if (prepareTaskRequest v.api p r).isSome then .ok () else .error .badRequest
  | .deleteTask taskId => assertStoredAccess v.api.authEnabled p (w.owner taskId)
  | .streamMessageTask taskId m _ _ =>
    if strip m.message = [] ∧ m.intervention = none ∧ m.confirm = false then .error .badRequest
    else assertStoredAccess v.api.authEnabled p (w.owner taskId)
  | .behindAccess _ taskId _ => assertTaskAccess v.api.authEnabled p (w.owner taskId)
  | .listArtifacts taskId => if taskDir taskId = [] then .error .badRequest else .ok ()
  | .downloadArtifact taskId filename =>
    if taskDir taskId = [] then .error .badRequest
    else if pathName filename = [] ∨ pathName filename = "..".toList then .error .notFound
    else .ok ()
  | .listTaskFiles taskId path _ _ | .readTaskFileContent taskId path _ _
  | .writeTaskFileContent taskId path _ _ _ => (resolveInTaskDir v taskId path).map fun _ => ()

/-- A handler on a path below the directory of the task. -/
def atPath (v : Server ρ) (taskId rawPath : Text) (x : Path → Io (Reply ρ)) : World → World × Reply ρ :=
  match resolveInTaskDir v taskId rawPath with
  | .ok path => onFolder taskId (x path)
  | .error e => onFolder taskId (pure (.refused e))

/-- What a handler does behind its check. -/
def perform (v : Server ρ) (p : AuthPrincipal) : TaskRequest ρ → World → World × Reply ρ
  | .createTask sessionId r turn => createTask v p sessionId r turn
  | .deleteTask taskId => deleteTask taskId
  | .streamMessageTask taskId m event turn => streamMessageTask v p taskId m event turn
  | .behindAccess route taskId args => behindAccess v route taskId args
  | .listArtifacts taskId => onFolder taskId (listArtifacts taskId)
  | .downloadArtifact taskId filename => onFolder taskId (downloadArtifact filename)
  | .listTaskFiles taskId path recursive maxEntries =>
    atPath v taskId path fun base => listTaskFiles taskId base recursive maxEntries
  | .readTaskFileContent taskId path offset maxChars =>
    atPath v taskId path fun target => readTaskFileContent taskId path target offset maxChars
  | .writeTaskFileContent taskId path content append now =>
    atPath v taskId path fun target => writeTaskFileContent taskId path target content append now

/-- A request, with its reply. -/
def handle (v : Server ρ) (p : AuthPrincipal) (w : World) (r : TaskRequest ρ) : World × Reply ρ :=
  match gate v p w r with
  | .ok () => perform v p r w
  | .error e => (w, .refused e)

/-- What a handler works on. -/
def workedOn (v : Server ρ) : TaskRequest ρ → List Slot
  | .createTask sessionId _ turn => turnSlots v sessionId turn
  | .deleteTask taskId | .behindAccess _ taskId _ => taskSlots taskId
  | .streamMessageTask taskId _ _ turn => taskSlots taskId ++ turnSlots v taskId turn
  | .listArtifacts taskId | .downloadArtifact taskId _ | .listTaskFiles taskId _ _ _
  | .readTaskFileContent taskId _ _ _ | .writeTaskFileContent taskId _ _ _ _ => folderSlots taskId

/-! ### Handlers work on what they name -/

/-- Every handler is a program on what it works on. -/
theorem perform_eq_act (v : Server ρ) (p : AuthPrincipal) (r : TaskRequest ρ) :
    ∃ f, perform v p r = act (workedOn v r) f := by
  have hpath : ∀ taskId rawPath (x : Path → Io (Reply ρ)), ∃ f, atPath v taskId rawPath x =
      act (folderSlots taskId) f := by
    intro taskId rawPath x
    rw [atPath]
    split
    · exact ⟨_, rfl⟩
    · exact ⟨_, rfl⟩
  cases r with
  | createTask sessionId r turn =>
    rw [perform, createTask, workedOn]
    exact ⟨_, rfl⟩
  | deleteTask taskId =>
    rw [perform, deleteTask, workedOn]
    exact ⟨_, rfl⟩
  | streamMessageTask taskId m event turn =>
    rw [perform, streamMessageTask, workedOn]
    exact ⟨_, rfl⟩
  | behindAccess route taskId args =>
    rw [perform, behindAccess, workedOn]
    exact ⟨_, rfl⟩
  | listArtifacts taskId | downloadArtifact taskId filename =>
    rw [perform, onFolder, workedOn]
    exact ⟨_, rfl⟩
  | listTaskFiles taskId path recursive maxEntries => exact hpath _ _ _
  | readTaskFileContent taskId path offset maxChars => exact hpath _ _ _
  | writeTaskFileContent taskId path content append now => exact hpath _ _ _

end AgentLangraph.Access
