import AgentLangraph.Artifact.Edit
import AgentLangraph.Artifact.Project

/-! The tools of an artifact (`handle_write_text_artifact`, `handle_append_text_artifact`,
    `handle_edit_text_artifact`, `handle_read_text_artifact` of `artifact_tools.py`, and
    `artifact_read_cache.py`).

        write, append: fence → outline guard → name → sizes → file → chapter progress
        edit:          name → edits → sizes → file        read: name → cache → file -/

namespace AgentLangraph.Artifact
open PyText

/-- The parameters of an action; an element of `edits` is `none` where it is no dictionary. -/
structure Params where
  fields : Fields := PyDict.empty
  edits : List (Option Fields) := []

/-- The result of a tool. -/
structure Result where
  status : Text := "ok".toList
  filename : Text := []
  path : Path := []
  mode : Text := []
  bytes : ℕ := 0
  chunksWritten : ℕ := 0
  replacements : Option ℕ := none
  dryRun : Bool := false
  content : Option Text := none
  rawContent : Option Text := none
  totalChars : ℕ := 0
  lineCount : ℕ := 0
  tailExcerpt : Text := []
  truncated : Bool := false
  withLineNumbers : Bool := false
  scope : Option (Option ℤ × Option ℤ) := none
  error : Text := []
  errorCode : Text := []
  nonRetryable : Bool := false
  deriving DecidableEq

/-- The disk, and the read cache. -/
structure Workspace where
  disk : Disk := {}
  /-- `_cache`. -/
  cache : PyDict Text Result := PyDict.empty

abbrev Ws (α : Type) := Attempt Workspace Raise α

/-- A program that does not use the cache. -/
def onDisk {α : Type} (x : Io α) : Ws α := fun ws =>
  match x ws.disk with
  | (d, r) => ({ ws with disk := d }, r)

/-- What the tools take from their surroundings. -/
structure Tools where
  settings : Settings := {}
  codec : Codec
  matcher : Matcher

/-- `RunController.should_accept_write` of the state that the executor passes on, if it passes one. -/
abbrev Fence := Option (Except Raise Bool)

/-- `_assert_write_allowed`. -/
def assertWriteAllowed : Fence → Except Raise Unit
  | none | some (.ok true) => .ok ()
  | some (.ok false) =>
    .error (.runCancelled "artifact write rejected: run inactive or superseded".toList)
  | some (.error e) => .error e

/-- `str(params[key])`. -/
def required (p : Params) (key : String) : Except Raise Text :=
  match p.fields.get? key.toList with
  | some v => .ok v.toText
  | none => .error (.keyError key.toList)

/-- `str(params.get(key, ""))`. -/
def optional (p : Params) (key : String) : Text :=
  ((p.fields.get? key.toList).getD (.str [])).toText

/-- `_OUTLINE_TARGET_RE`; the dotted and the dotless i match too. -/
def isOutlineName (filename : Text) : Bool :=
  contains filename "大纲".toList ||
    contains (filename.map fun c => if c = 'İ' ∨ c = 'ı' then 'i' else c.toLower) "outline".toList

/-- `_guard_body_write_target` finds something wrong. -/
def bodyWriteTargetsOutline (p : Params) : Bool :=
  !(p.fields.field "_chapter_path_retry").truthy &&
    decide (textOr p.fields "writing_operator" ∈ ["append".toList, "kickoff_body".toList]) &&
    isOutlineName (textOr p.fields "filename")

/-- `_retry_body_write_with_chapter_path`. Without a project the handler is called again with the same
    parameters, and again, until Python gives up. -/
def retryBodyWriteWithChapterPath (t : Tools) (p : Params) (write : Params → Io Result) : Io Result := do
  let taskId := textOr p.fields "task_id"
  if taskId ≠ [] ∧ taskDir taskId = [] then
    .raise (.valueError "Invalid task_id for artifact path".toList)
  else
    let d ← .ask id
    match loadProject t.codec d taskId with
    | none => .raise (.other "RecursionError".toList "maximum recursion depth exceeded".toList)
    | some project =>
      if project.bodyFile = [] ∨ p.fields.get? "filename".toList = some (.str project.bodyFile) then
        pure { status := "error".toList, errorCode := "body_write_targets_outline".toList,
               filename := textOr p.fields "filename" }
      else
        write { p with
          fields := (p.fields.put "filename" (.str project.bodyFile)).put "_chapter_path_retry"
            (.bool true) }

/-- A handler behind the fence and the guard of the outline. -/
def guardedWrite (t : Tools) (fence : Fence) (p : Params) (write : Params → Io Result) : Io Result := do
  .lift (assertWriteAllowed fence)
  if bodyWriteTargetsOutline p then retryBodyWriteWithChapterPath t p write else write p

/-! ### Write and append -/

/-- The check of every chunk, the ones before it counted. -/
def checkChunks (cfg : Settings) : ℕ → List Text → Except Raise Unit
  | _, [] => .ok ()
  | existing, chunk :: chunks => do
    checkSize cfg chunk existing
    checkChunks cfg (existing + utf8Len chunk) chunks

/-- The text that a write of some content leaves in the file. -/
def writtenText (cfg : Settings) (content : Text) : Text :=
  if splitLongText cfg content = [] then content
  else List.intercalate "\n\n".toList (splitLongText cfg content)

def checkWrite (cfg : Settings) (content : Text) : Except Raise Unit :=
  if splitLongText cfg content = [] then checkSize cfg content 0
  else checkChunks cfg 0 (splitLongText cfg content)

/-- `handle_write_text_artifact` behind its guards. -/
def writeBody (t : Tools) (p : Params) : Io Result := do
  let taskId ← .lift (required p "task_id")
  let raw ← .lift (required p "filename")
  let filename ← .lift (safeFilename raw)
  let content := optional p "content"
  let dir ← taskArtifactDir taskId
  .lift (checkWrite t.settings content)
  let text := writtenText t.settings content
  writeText (joinPath dir filename) text
  postChapterWriteUpdate t.codec taskId filename (some text.length)
  pure { filename := filename, path := joinPath dir filename, mode := "write".toList,
         bytes := utf8Len text, chunksWritten := max 1 (splitLongText t.settings content).length }

/-- `handle_write_text_artifact`. -/
def handleWriteTextArtifact (t : Tools) (fence : Fence) (p : Params) : Io Result :=
  guardedWrite t fence p (writeBody t)

/-- The chunks that are appended, each checked before it is written. -/
def appendChunks (cfg : Settings) (path : Path) (existing : Text) :
    ℕ → ℕ → List Text → Io Unit
  | _, _, [] => pure ()
  | index, bytes, chunk :: chunks => do
    .lift (checkSize cfg chunk bytes)
    let separated := (strip existing ≠ [] ∨ 0 < index) ∧
      ¬ (index = 0 ∧ "\n\n".toList <:+ existing)
    if separated then appendText path "\n\n".toList else pure ()
    appendText path chunk
    appendChunks cfg path existing (index + 1)
      (bytes + (if separated then 2 else 0) + utf8Len chunk) chunks

/-- `path.read_text() if path.exists() else ""`. -/
def readIfExists (path : Path) : Io Text := do
  let d ← .ask id
  if d.pathExists path then readText path else pure []

/-- `handle_append_text_artifact` behind its guards. There are no chunks only where there is nothing to
    append. -/
def appendBody (t : Tools) (p : Params) : Io Result := do
  let taskId ← .lift (required p "task_id")
  let raw ← .lift (required p "filename")
  let filename ← .lift (safeFilename raw)
  let dir ← taskArtifactDir taskId
  let path := joinPath dir filename
  let existing ← readIfExists path
  let d ← .ask id
  let content := if isBodyPath t.codec d taskId filename then
      sanitizeBodyAppendContent t.codec.digit existing (optional p "content")
    else optional p "content"
  let chunks := splitLongText t.settings content
  if chunks = [] then
    pure { filename := filename, path := path, mode := "append".toList, bytes := 0 }
  else
    openAppend path
    appendChunks t.settings path existing 0 (utf8Len existing) chunks
    let total ← readText path
    postChapterWriteUpdate t.codec taskId filename
      (some (sliceCurrentChapterText t.codec.digit total).length)
    pure { filename := filename, path := path, mode := "append".toList, bytes := utf8Len content,
           chunksWritten := chunks.length }

/-- `handle_append_text_artifact`. -/
def handleAppendTextArtifact (t : Tools) (fence : Fence) (p : Params) : Io Result :=
  guardedWrite t fence p (appendBody t)

/-! ### Edit -/

/-- The edit that the parameters ask for, of a text: whole lines where there is no old text. -/
def singleEdit (m : Matcher) (p : Params) (original : Text) (startLine endLine : Option ℤ)
    (occurrenceIndex : Option ℤ) : Except Raise (Text × ℕ) :=
  let oldText := optional p "old_text"
  if oldText = [] ∧ startLine = none ∧ endLine = none then
    .error (.valueError "old_text is required unless edits[] or line range is provided".toList)
  else
    let oldText := match oldText, startLine with
      | [], some start =>
        let stop := match endLine with
          | some stop => if stop = 0 then start else stop
          | none => start
        joinLines (slice (splitlines original) (start - 1) stop)
      | _, _ => oldText
    applyPrecisionEdit m original
      { oldText := oldText, newText := optional p "new_text",
        replaceAll := (p.fields.field "replace_all").truthy, occurrenceIndex := occurrenceIndex,
        startLine := startLine, endLine := endLine }

/-- The edited text and the number of replacements. -/
def editedText (t : Tools) (p : Params) (startLine endLine occurrenceIndex : Option ℤ)
    (original : Text) : Except Raise (Text × ℕ) := do
  let r ← if p.edits ≠ [] then applyBatchEdits t.matcher (original, 0) p.edits
    else singleEdit t.matcher p original startLine endLine occurrenceIndex
  checkSize t.settings r.1 0
  .ok r

/-- `handle_edit_text_artifact`. It does not look at the fence. -/
def handleEditTextArtifact (t : Tools) (p : Params) : Io Result := do
  let taskId ← .lift (required p "task_id")
  let raw ← .lift (required p "filename")
  let filename ← .lift (safeFilename raw)
  let occurrenceIndex ← .lift (intParam t.matcher p.fields "occurrence_index")
  let startLine ← .lift (intParam t.matcher p.fields "start_line")
  let endLine ← .lift (intParam t.matcher p.fields "end_line")
  let dir ← taskArtifactDir taskId
  let path := joinPath dir filename
  let d ← .ask id
  if ¬ d.pathExists path then
    .raise (.fileNotFound ("Artifact not found: ".toList ++ filename))
  else
    let original ← readText path
    let (updated, replacements) ← .lift
      (editedText t p startLine endLine occurrenceIndex original)
    let dryRun := (p.fields.field "dry_run").truthy
    if dryRun then pure () else writeText path updated
    pure { filename := filename, path := path, mode := "edit".toList, bytes := utf8Len updated,
           replacements := some replacements, dryRun := dryRun }

/-! ### Read -/

/-- `_cache_key`, of a file that is there. -/
def cacheKey (taskId filename : Text) (f : File) : Text :=
  taskId ++ "|".toList ++ filename ++ "|".toList ++ (toString (utf8Len f.text)).toList ++
    ":".toList ++ (toString f.mtime).toList

/-- `f"{idx:>{width}}| {line}"`. -/
def numberedLine (width idx : ℕ) (line : Text) : Text :=
  let number := (toString idx).toList
  List.replicate (width - number.length) ' ' ++ number ++ "| ".toList ++ line

/-- `_format_with_line_numbers`. -/
def formatWithLineNumbers (t : Text) : Text :=
  let lines := splitlines t
  let width := max 4 (toString (max 1 lines.length)).length
  joinLines (lines.mapIdx fun i line => numberedLine width (i + 1) line)

/-- `text[:max_chars]` where the text is longer. -/
def firstChars (maxChars : ℤ) (t : Text) : Text :=
  if maxChars < t.length then sliceTo t maxChars else t

/-- What a read asks for. -/
structure ReadRequest where
  maxChars : ℤ := 8000
  withLineNumbers : Bool := false
  useCache : Bool := true
  startLine : Option ℤ := none
  endLine : Option ℤ := none
  deriving DecidableEq

def ReadRequest.scoped (q : ReadRequest) : Bool := q.startLine.isSome || q.endLine.isSome

/-- A read of the whole text, without numbers, which may come from the cache. -/
def ReadRequest.cacheable (q : ReadRequest) : Bool := q.useCache && !q.withLineNumbers && !q.scoped

/-- The request in the parameters of a read. -/
def readRequest (m : Matcher) (d : Fields) : Except Raise ReadRequest := do
  let maxChars ← match d.get? "max_chars".toList with
    | none => .ok 8000
    | some v =>
      match v.toInt? m.digit with
      | some n => .ok n
      | none =>
        match v with
        | .str _ => .error (.valueError "invalid literal for int() with base 10".toList)
        | _ => .error (.other "TypeError".toList [])
  let startLine ← intParam m d "start_line"
  let endLine ← intParam m d "end_line"
  .ok { maxChars := maxChars, withLineNumbers := (d.field "with_line_numbers").truthy,
        useCache := d.get? "use_cache".toList ≠ some (.bool false), startLine := startLine,
        endLine := endLine }

/-- The part of a text that a request is for: the lines asked for, and of these the first characters. -/
def requestedText (q : ReadRequest) (full : Text) : Except Raise Text :=
  (sliceBounds full q.startLine q.endLine).map fun b => (full.take b.2).drop b.1

/-- The result of a read from the disk. -/
def readResult (q : ReadRequest) (filename : Text) (path : Path) (full part : Text) : Result :=
  let text := firstChars q.maxChars part
  let tail := min 1200 q.maxChars
  { filename := filename, path := path,
    content := some (if q.withLineNumbers then formatWithLineNumbers text else text),
    rawContent := some text, totalChars := part.length, lineCount := (splitlines part).length,
    tailExcerpt := slice full (-tail) full.length, truncated := q.maxChars < part.length,
    withLineNumbers := q.withLineNumbers,
    scope := if q.scoped then some (q.startLine, q.endLine) else none }

/-- `handle_read_text_artifact`. -/
def handleReadTextArtifact (t : Tools) (p : Params) : Ws Result := do
  let taskId ← .lift (required p "task_id")
  let raw ← .lift (required p "filename")
  let filename ← .lift (safeFilename raw)
  let q ← .lift (readRequest t.matcher p.fields)
  let dir ← onDisk (taskArtifactDir taskId)
  let path := joinPath dir filename
  let ws ← .ask id
  match ws.disk.files.get? path with
  | none =>
    .raise (if path ∈ ws.disk.dirs then isADirectory
      else .fileNotFound ("Artifact not found: ".toList ++ filename))
  | some f =>
    let key := cacheKey taskId filename f
    match if q.cacheable then ws.cache.get? key else none with
    | some cached => pure cached
    | none =>
      let full := universalNewlines f.text
      let part ← .lift (requestedText q full)
      let result := readResult q filename path full part
      if q.cacheable then
        .change fun ws => { ws with cache := ws.cache.set key result }
      else pure ()
      pure result

end AgentLangraph.Artifact
