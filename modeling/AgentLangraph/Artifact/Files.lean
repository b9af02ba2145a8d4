import AgentLangraph.Lib.Attempt
import AgentLangraph.Lib.PyDict
import AgentLangraph.Lib.PyEdit
import Mathlib.Algebra.GroupWithZero.Nat

/-! The artifacts of a task on disk (`artifact_tools.py`): the names that are accepted, where they are,
    what is read and written there, and the limits on sizes. -/

namespace AgentLangraph.Artifact
open PyText

/-- The exceptions that the executor tells apart. -/
inductive Raise
  | fileNotFound (message : Text)
  | valueError (message : Text)
  | keyError (key : Text)
  | permissionError (message : Text)
  /-- `RunCancelled`. -/
  | runCancelled (message : Text)
  /-- Any other exception, with its name. -/
  | other (name message : Text)
  deriving DecidableEq

/-- The components of a path below the root of the artifacts. -/
abbrev Path := List Text

/-- A file, with the time of its last write (`st_mtime_ns`). -/
structure File where
  text : Text
  mtime : ℕ := 0
  deriving DecidableEq

abbrev Files := PyDict Path File

/-- The disk, and its clock. -/
structure Disk where
  files : Files := PyDict.empty
  dirs : List Path := []
  now : ℕ := 0

abbrev Io (α : Type) := Attempt Disk Raise α

structure Settings where
  chunkChars : ℕ := 3500
  maxWriteBytes : ℕ := 524288
  maxFileBytes : ℕ := 5242880
  maxReadsSameFile : ℕ := 5

/-! ### Names and paths -/

/-- `text.replace("\\", "/")`. -/
def slashed (t : Text) : Text := t.map fun c => if c = '\\' then '/' else c

/-- `Path(name).suffix` of a name without a slash. -/
def suffix (name : Text) : Text :=
  match rfind ['.'] name with
  | some i => if 0 < i ∧ i + 1 < name.length then name.drop i else []
  | none => []

/-- `_ALLOWED_EXTENSIONS`, in order. -/
def allowedExtensions : List Text :=
  [".csv".toList, ".json".toList, ".log".toList, ".md".toList, ".txt".toList]

/-- The parts that `_safe_filename` keeps of a name. -/
def nameParts (filename : Text) : List Text :=
  (splitSlash ((strip (slashed filename)).dropWhile (· = '/'))).filter fun p =>
    p ≠ [] ∧ p ≠ ".".toList ∧ p ≠ "..".toList

/-- `_safe_filename`. -/
def safeFilename (filename : Text) : Except Raise Text :=
  match (nameParts filename).getLast? with
  | none => .error (.valueError "Invalid filename".toList)
  | some name =>
    if 2 < (nameParts filename).length then .error (.valueError "Artifact path too deep".toList)
    else if (suffix name).map Char.toLower ∉ allowedExtensions then
      .error (.valueError ("Extension not allowed. Use one of: ".toList ++
        List.intercalate ", ".toList allowedExtensions))
    else .ok (List.intercalate "/".toList (nameParts filename))

/-- The directory of a task: what `re.sub` leaves of its id. -/
def taskDir (taskId : Text) : Text :=
  taskId.filter fun c => c.isAlphanum || c = '-' || c = '_'

/-- A component that is walked; nothing is above the root of the disk. -/
def walk (path : Path) (part : Text) : Path :=
  if part = [] ∨ part = ".".toList then path
  else if part = "..".toList then
    if path = [] ∨ path.getLast? = some part then path ++ [part]
    else if path = ["/".toList] then path
    else path.dropLast
  else path ++ [part]

/-- `base / rel`; an absolute name leaves the base. -/
def joinPath (base : Path) (rel : Text) : Path :=
  if startswith rel "/".toList then (splitSlash rel).foldl walk ["/".toList]
  else (splitSlash rel).foldl walk base

/-- `task_artifact_dir`, which makes the directory. -/
def taskArtifactDir (taskId : Text) : Io Path :=
  if taskDir taskId = [] then .raise (.valueError "Invalid task_id for artifact path".toList)
  else do
    .change fun d =>
      if [taskDir taskId] ∈ d.dirs then d else { d with dirs := [taskDir taskId] :: d.dirs }
    pure [taskDir taskId]

/-! ### Reading and writing -/

/-- What a text file reads as: every line ends in `\n`. -/
def universalNewlines : Text → Text
  | [] => []
  | ['\r'] => ['\n']
  | '\r' :: '\n' :: t => '\n' :: universalNewlines t
  | '\r' :: c :: t => '\n' :: universalNewlines (c :: t)
  | c :: t => c :: universalNewlines t

def utf8Len (t : Text) : ℕ := (t.map Char.utf8Size).sum

def Disk.isFile (d : Disk) (path : Path) : Bool := (d.files.get? path).isSome

def Disk.pathExists (d : Disk) (path : Path) : Bool := d.isFile path || decide (path ∈ d.dirs)

/-- The text that is stored, as it is. -/
def Disk.stored (d : Disk) (path : Path) : Option Text := (d.files.get? path).map File.text

/-- The text of a file as it is read. -/
def Disk.textAt (d : Disk) (path : Path) : Option Text := (d.stored path).map universalNewlines

def Disk.put (d : Disk) (path : Path) (t : Text) : Disk :=
  { d with files := d.files.set path { text := t, mtime := d.now } }

def isADirectory : Raise := .other "IsADirectoryError".toList "Is a directory".toList

def notADirectory : Raise := .other "NotADirectoryError".toList "Not a directory".toList

def noSuchFile : Raise := .fileNotFound "No such file or directory".toList

/-- `path.read_text`. -/
def readText (path : Path) : Io Text := fun d =>
  match d.textAt path with
  | some t => (d, .ok t)
  | none => (d, .error (if path ∈ d.dirs then isADirectory else noSuchFile))

/-- Why a file cannot be opened for writing. -/
def Disk.unwritable (d : Disk) (path : Path) : Option Raise :=
  if path ∈ d.dirs then some isADirectory
  else if path.dropLast ∈ d.dirs then none
  else if d.isFile path.dropLast then some notADirectory
  else some noSuchFile

/-- `path.write_text`. -/
def writeText (path : Path) (t : Text) : Io Unit := fun d =>
  match d.unwritable path with
  | some e => (d, .error e)
  | none => (d.put path t, .ok ())

/-- `path.open("a")`, which makes the file. -/
def openAppend (path : Path) : Io Unit := fun d =>
  match d.unwritable path with
  | some e => (d, .error e)
  | none => (if d.isFile path then d else d.put path [], .ok ())

/-- `handle.write` of a file open for appending. -/
def appendText (path : Path) (t : Text) : Io Unit :=
  .change fun d => d.put path ((d.stored path).getD [] ++ t)

/-- `_check_size`. -/
def checkSize (cfg : Settings) (content : Text) (existingBytes : ℕ) : Except Raise Unit :=
  if cfg.maxWriteBytes < utf8Len content then
    .error (.valueError ("Content exceeds max write size (".toList ++
      (toString cfg.maxWriteBytes).toList ++ " bytes)".toList))
  else if cfg.maxFileBytes < existingBytes + utf8Len content then
    .error (.valueError ("File would exceed max size (".toList ++
      (toString cfg.maxFileBytes).toList ++ " bytes)".toList))
  else .ok ()

/-- The end of the next piece: after the last break in the window, if that is far enough. -/
def chunkEnd (chunkChars : ℕ) (t : Text) : ℕ :=
  let window := t.take chunkChars
  if t.length ≤ chunkChars then window.length
  else
    match [rfind "\n\n".toList window, rfind "\n".toList window, rfind "。".toList window,
        rfind " ".toList window].filterMap id |>.max? with
    | some i => if max 200 (chunkChars / 3) ≤ i then i + 1 else window.length
    | none => window.length

/-- The loop of `split_long_text`. -/
def splitFromCursor (chunkChars : ℕ) : ℕ → Text → List Text
  | 0, _ => []
  | _, [] => []
  | fuel + 1, t =>
    let cleaned := strip (t.take (chunkEnd chunkChars t))
    let rest := splitFromCursor chunkChars fuel (t.drop (chunkEnd chunkChars t))
    if cleaned = [] then rest else cleaned :: rest

/-- `split_long_text`. Every round takes a character at least; a text of space alone comes back whole. -/
def splitLongText (cfg : Settings) (content : Text) : List Text :=
  let chunkChars := max 1 cfg.chunkChars
  if content = [] then []
  else if content.length ≤ chunkChars then [content]
  else
    match splitFromCursor chunkChars content.length content with
    | [] => [content]
    | chunks => chunks

end AgentLangraph.Artifact
