import AgentLangraph.Artifact.Files
import AgentLangraph.Lib.PyVal

/-! The writing project of a task (`writing_project.py`): a manifest, and one body file whose finished
    chapters are sealed by a footer. A chapter is sealed when nothing, or the heading of another
    chapter, follows its footer.

        第1章 … （第1章完）  第2章 … （第2章完）  第3章 …
        └──────────── sealed ─────────────┘ -/

namespace AgentLangraph.Artifact
open PyText

structure WritingProject where
  kind : Text := "novel".toList
  outline : Text := "大纲.md".toList
  bible : Text := "素材卡.md".toList
  bodyMode : Text := "single".toList
  bodyFile : Text := "正文/novel.md".toList
  chaptersDir : Text := "正文".toList
  chapterPattern : Text := "第{n:03d}章.md".toList
  nextChapter : ℤ := 1
  targetChapter : ℤ := 0
  wordsPerChapter : ℤ := 4000
  createdAt : Text := []
  currentChapterIncomplete : Bool := false
  deriving DecidableEq

/-- The manifest as JSON, and the decimal digits. -/
structure Codec where
  /-- `json.loads`, where it gives a dictionary. -/
  loads : Text → Option Fields
  dumps : WritingProject → Text
  digit : Char → Option ℕ

/-- `str(data.get(key) or default)`. -/
def textWith (d : Fields) (key : String) (default : Text) : Text :=
  ((d.field key).orElse (.str default)).toText

/-- `int(data.get(key) or default)`. -/
def intWith (digit : Char → Option ℕ) (d : Fields) (key : String) (default : ℤ) : Option ℤ :=
  ((d.field key).orElse (.int default)).toInt? digit

/-- `WritingProject.from_dict`. -/
def WritingProject.fromDict (digit : Char → Option ℕ) (d : Fields) : Option WritingProject := do
  let default : WritingProject := {}
  let words ← intWith digit d "words_per_chapter" 4000
  let next ← intWith digit d "next_chapter" 1
  let target ← intWith digit d "target_chapter" 0
  some {
    kind := textWith d "kind" default.kind
    outline := textWith d "outline" default.outline
    bible := textWith d "bible" default.bible
    bodyMode := textWith d "body_mode" default.bodyMode
    bodyFile := textWith d "body_file" default.bodyFile
    chaptersDir := textWith d "chapters_dir" default.chaptersDir
    chapterPattern := textWith d "chapter_pattern" default.chapterPattern
    nextChapter := max 1 next
    targetChapter := max 0 target
    wordsPerChapter := max 4000 words
    createdAt := textWith d "created_at" []
    currentChapterIncomplete := (d.field "current_chapter_incomplete").truthy }

/-- `project_json_path`. -/
def projectJsonPath (taskId : Text) : Path := [taskDir taskId, "project.json".toList]

/-- `load_project`, for a task that has a directory. -/
def loadProject (c : Codec) (d : Disk) (taskId : Text) : Option WritingProject :=
  ((d.textAt (projectJsonPath taskId)).bind c.loads).bind (WritingProject.fromDict c.digit)

/-- `save_project`. -/
def saveProject (c : Codec) (taskId : Text) (p : WritingProject) : Io Unit :=
  .change fun d => d.put (projectJsonPath taskId) (c.dumps p)

/-- `int(words_per_chapter * 0.9)`. -/
def completionThreshold (p : WritingProject) : ℤ := p.wordsPerChapter * 9 / 10

/-! ### Chapters -/

section
variable (digit : Char → Option ℕ)

/-- The length of a footer `（第N章完）` at the head of a text. -/
def footerAt (t : Text) : Option ℕ :=
  if startswith t "（第".toList then
    let digits := (t.drop 2).takeWhile fun c => (digit c).isSome
    if digits ≠ [] ∧ startswith (t.drop (2 + digits.length)) "章完）".toList then
      some (5 + digits.length)
    else none
  else none

/-- The footers of a text from a position on: where each begins and ends. No footer begins inside
    another. -/
def footersFrom : ℕ → Text → List (ℕ × ℕ)
  | _, [] => []
  | pos, c :: t =>
    match footerAt digit (c :: t) with
    | some n => (pos, pos + n) :: footersFrom (pos + 1) t
    | none => footersFrom (pos + 1) t

def footers (t : Text) : List (ℕ × ℕ) := footersFrom digit 0 t

/-- `_is_chapter_header_line`. -/
def isChapterHeaderLine (line : Text) : Bool :=
  match strip line with
  | '第' :: t =>
    let number := t.takeWhile fun c => c ∈ "0123456789一二三四五六七八九十百千零两".toList
    number != [] && startswith (t.drop number.length) "章".toList
  | _ => false

/-- Nothing, or a heading, follows the footer that ends here. -/
def sealsAt (t : Text) (stop : ℕ) : Bool :=
  let after := strip (t.drop stop)
  after == [] || isChapterHeaderLine ((splitlines after).headD [])

/-- `last_sealed_chapter_end`. -/
def lastSealedChapterEnd (t : Text) : ℕ :=
  (((footers digit t).map Prod.snd).reverse.find? (sealsAt t)).getD 0

/-- The finished chapters of a text, up to trailing space. -/
def sealedPart (t : Text) : Text := rstrip (t.take (lastSealedChapterEnd digit t))

/-- `in_progress_chapter_text`. -/
def inProgressChapterText (t : Text) : Text := strip (t.drop (lastSealedChapterEnd digit t))

/-- `chapter_prose_ends_with_footer`. -/
def chapterProseEndsWithFooter (t : Text) : Bool :=
  (footers digit (strip t)).any fun f => f.2 = (strip t).length

/-- `merge_body_write_content`. -/
def mergeBodyWriteContent (full new : Text) : Text :=
  let new := strip new
  if strip full = [] then new
  else
    let prefixEnd := lastSealedChapterEnd digit full
    let head := rstrip (full.take prefixEnd)
    let prior := strip (full.drop prefixEnd)
    let merged := if prior ≠ [] ∧ new ≠ [] then prior ++ "\n\n".toList ++ new
      else if new ≠ [] then new
      else prior
    if head ≠ [] then strip (head ++ "\n\n".toList ++ merged) else merged

/-- `slice_current_chapter_text`. -/
def sliceCurrentChapterText (t : Text) : Text :=
  let segment := inProgressChapterText digit t
  if chapterProseEndsWithFooter digit segment then [] else segment

/-- The longest overlap of the end of one text with the beginning of another, of 120 characters at
    least. -/
def overlap (existing content : Text) : Option ℕ :=
  let most := min (min existing.length content.length) 2000
  ((List.range (most + 1)).reverse.filter (120 ≤ ·)).find? fun size =>
    existing.drop (existing.length - size) = content.take size

/-- The loop of `sanitize_body_append_content`: repeated footers and a repeated tail are dropped. -/
def dropRepeats (closed tail : Text) : ℕ → Text → Text
  | 0, content => content
  | fuel + 1, content =>
    let stripped := lstrip content
    if stripped = [] then content
    else
      match footerAt digit stripped with
      | some n =>
        if contains closed (stripped.take n) then dropRepeats closed tail fuel (lstrip (stripped.drop n))
        else if 120 ≤ tail.length ∧ startswith stripped tail then
          dropRepeats closed tail fuel (lstrip (stripped.drop tail.length))
        else content
      | none =>
        if 120 ≤ tail.length ∧ startswith stripped tail then
          dropRepeats closed tail fuel (lstrip (stripped.drop tail.length))
        else content

/-- `sanitize_body_append_content`. -/
def sanitizeBodyAppendContent (existing content : Text) : Text :=
  let content := strip content
  if content = [] ∨ strip existing = [] then content
  else
    let content := match overlap existing content with
      | some size => lstrip (content.drop size)
      | none => content
    let closed := existing.take (lastSealedChapterEnd digit existing)
    let tail := strip (existing.drop (existing.length - 500))
    dropRepeats digit closed tail content.length content

end

/-! ### The body file -/

section
variable (c : Codec)

/-- `is_body_path`. -/
def isBodyPath (d : Disk) (taskId filename : Text) : Bool :=
  match loadProject c d taskId with
  | none => false
  | some p => slashed filename = slashed p.bodyFile

/-- `read_body_text`. -/
def readBodyText (d : Disk) (taskId rel : Text) : Text :=
  (d.textAt (joinPath [taskDir taskId] rel)).getD []

/-- `chapter_char_count`. -/
def chapterCharCount (d : Disk) (taskId rel : Text) : ℕ :=
  match loadProject c d taskId with
  | some p =>
    if slashed rel = slashed p.bodyFile then
      (sliceCurrentChapterText c.digit (readBodyText d taskId p.bodyFile)).length
    else (readBodyText d taskId rel).length
  | none => (readBodyText d taskId rel).length

/-- `body_absolute_path`. -/
def bodyAbsolutePath (taskId : Text) (p : WritingProject) : Path :=
  joinPath [taskDir taskId] p.bodyFile

/-- `kickoff_should_write_not_append`. -/
def kickoffShouldWriteNotAppend (d : Disk) (taskId : Text) : Bool :=
  match loadProject c d taskId with
  | none => true
  | some p =>
    !p.currentChapterIncomplete && !decide (1 < p.nextChapter) &&
      !((d.stored (bodyAbsolutePath taskId p)).any (· ≠ []))

inductive DraftTool
  | write | append
  deriving DecidableEq

def DraftTool.name : DraftTool → Text
  | .write => "write_text_artifact".toList
  | .append => "append_text_artifact".toList

/-- `body_draft_tool_name`. -/
def bodyDraftToolName (d : Disk) (taskId filename : Text) : DraftTool :=
  if isBodyPath c d taskId filename then
    if kickoffShouldWriteNotAppend c d taskId then .write else .append
  else .write

/-- What a write has made of the chapter in progress. -/
def chapterProgress (p : WritingProject) (full : Text) (charCount : Option ℕ) : WritingProject :=
  let stripped := strip full
  let done := { p with currentChapterIncomplete := false, nextChapter := p.nextChapter + 1 }
  let unfinished := { p with currentChapterIncomplete := true }
  if chapterProseEndsWithFooter c.digit stripped then
    match (footers c.digit stripped).getLast? with
    | none => unfinished
    | some last =>
      let start := lastSealedChapterEnd c.digit (stripped.take last.1)
      if completionThreshold p ≤ (strip (stripped.drop start)).length then done else unfinished
  else
    let segment := inProgressChapterText c.digit full
    let length := if segment.length = 0 then charCount.getD 0 else segment.length
    if completionThreshold p ≤ length ∧ chapterProseEndsWithFooter c.digit segment then done else unfinished

/-- `post_chapter_write_update`. -/
def postChapterWriteUpdate (taskId filename : Text) (charCount : Option ℕ) : Io Unit := do
  let d ← .ask id
  match loadProject c d taskId with
  | none => pure ()
  | some p =>
    if isBodyPath c d taskId filename then
      saveProject c taskId (chapterProgress c p (readBodyText d taskId filename) charCount)
    else pure ()

/-- `mark_chapter_continuation_needed`. -/
def markChapterContinuationNeeded (taskId filename : Text) : Io Unit := do
  let d ← .ask id
  match loadProject c d taskId with
  | none => pure ()
  | some p =>
    if isBodyPath c d taskId filename then
      saveProject c taskId { p with currentChapterIncomplete := true }
    else pure ()

end

end AgentLangraph.Artifact
