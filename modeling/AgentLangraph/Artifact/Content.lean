import AgentLangraph.Artifact.Handlers

/-! The text of a write (`_resolve_write_content` of `action_executor.py`, `artifact_content.py`): what
    the planner gave, or a draft of the model. For the body of a writing project the drafts go on until
    the chapter is long enough, and are the next piece or a whole body, whatever the tool is that the
    piece is meant for. -/

namespace AgentLangraph.Artifact
open PyText

def placeholderMarkers : List Text :=
  ["占位".toList, "请在本任务完成后".toList, "由助手生成".toList, "示例）".toList,
    "章节规划（示例）".toList, "推理模块".toList, "根据大纲生成".toList, "内容由推理".toList,
    "待生成".toList, "此处为正文".toList]

/-- `_SHORT_GOAL_RE`. -/
def shortGoals : List Text :=
  ["续写".toList, "追加".toList, "继续".toList, "下一章".toList, "append".toList]

/-- `needs_generated_content`. -/
def needsGeneratedContent (content goal : Text) : Bool :=
  let text := strip content
  let goalText := strip goal
  text == [] || placeholderMarkers.any (contains text) ||
    (goalText != [] && text == goalText &&
      (decide (goalText.length < 40) || decide (goalText.map Char.toLower ∈ shortGoals)))

/-- What a turn brings to its actions. -/
structure Turn where
  taskId : Text
  /-- The goal, the query or the question of the payload. -/
  goal : Text := []
  /-- The goal or the query. -/
  toolGoal : Text := []
  /-- `artifact_profile` of the payload or of its route audit. -/
  profile : Text := []
  codeExtensions : List Text := []

/-- What comes from outside while one action is carried out. -/
structure Supply where
  /-- `_check_generation_control`. -/
  control : Option Raise := none
  /-- `ensure_story_bible_ready`. -/
  bible : Io Unit := pure ()
  /-- What the prompt is put together from can raise. -/
  prepare : Option Raise := none
  /-- The drafts of the model, one after the other. -/
  drafts : ℕ → Except Raise Text := fun _ => .ok []

inductive Profile
  | outline | sourceCode | text
  deriving DecidableEq

/-- The profile of a file, from the payload or else from its name. -/
def profileOf (turn : Turn) (filename : Text) : Profile :=
  if turn.profile ≠ [] then
    if turn.profile.map Char.toLower = "outline".toList then .outline
    else if turn.profile.map Char.toLower = "source_code".toList then .sourceCode
    else .text
  else if turn.codeExtensions.any (· <:+ filename.map Char.toLower) then .sourceCode
  else if contains (filename.map Char.toLower) "outline".toList ∨ contains filename "大纲".toList then
    .outline
  else .text

/-- `_draft_once`. -/
def draftOnce (s : Supply) (profile : Profile) (n : ℕ) : Except Raise Text :=
  (s.drafts n).map fun draft =>
    if profile = .sourceCode then draft.rdropWhile (· = '\n') else strip draft

/-- The further pieces of a chapter: `MAX_CHAPTER_CONTINUATION_SEGMENTS` at most. -/
def continueChapter (s : Supply) (profile : Profile) (threshold : ℤ) :
    ℕ → ℕ → ℕ → List Text → Except Raise (List Text × ℕ)
  | 0, _, combined, parts => .ok (parts, combined)
  | fuel + 1, n, combined, parts =>
    if threshold ≤ combined then .ok (parts, combined)
    else
      match draftOnce s profile n with
      | .error e => .error e
      | .ok more =>
        if strip more = [] then .ok (parts, combined)
        else
          continueChapter s profile threshold fuel (n + 1) (combined + (strip more).length + 2)
            (parts ++ [strip more])

/-- The body after the first draft: the pieces, on their own for an append and merged into the text
    there is for a write. -/
def assembleBody (t : Tools) (s : Supply) (turn : Turn) (project : WritingProject) (profile : Profile)
    (effective : DraftTool) (filename first : Text) : Io Text := do
  let d ← .ask id
  let written := chapterCharCount t.codec d turn.taskId filename
  let parts := if strip first = [] then [] else [strip first]
  let combined := written +
    (if strip first = [] then 0 else (strip first).length + if written = 0 then 0 else 2)
  let (parts, combined) ← .lift
    (continueChapter s profile (completionThreshold project) 4 1 combined parts)
  let joined := List.intercalate "\n\n".toList parts
  let content := match effective with
    | .append => joined
    | .write => mergeBodyWriteContent t.codec.digit (readBodyText d turn.taskId filename) joined
  if (combined : ℤ) < completionThreshold project then
    markChapterContinuationNeeded t.codec turn.taskId filename
  else pure ()
  pure content

/-- `encoded[:n].decode(errors="ignore")`. -/
def takeBytes : ℕ → Text → Text
  | _, [] => []
  | n, c :: t => if c.utf8Size ≤ n then c :: takeBytes (n - c.utf8Size) t else []

/-- `_read_artifact_snippet` raises only where the name is one of a directory. -/
def snippetRaises (d : Disk) (taskId filename : Text) : Bool :=
  match safeFilename filename with
  | .ok name => decide (joinPath [taskDir taskId] name ∈ d.dirs)
  | .error _ => false

/-- `generate_artifact_content`. -/
def generateArtifactContent (t : Tools) (s : Supply) (turn : Turn) (tool : DraftTool)
    (filename goal : Text) : Io Text := do
  match s.control with
  | some e => .raise e
  | none =>
    let d ← .ask id
    let project := loadProject t.codec d turn.taskId
    let onBody := isBodyPath t.codec d turn.taskId filename
    let effective := if onBody then bodyDraftToolName t.codec d turn.taskId filename else tool
    if ¬ (onBody ∧ ¬ kickoffShouldWriteNotAppend t.codec d turn.taskId) ∧
        snippetRaises d turn.taskId filename then .raise isADirectory
    else
      let profile := profileOf turn filename
      if profile = .outline then s.bible else pure ()
      match s.prepare with
      | some e => .raise e
      | none =>
        let first ← .lift (draftOnce s profile 0)
        let d ← .ask id
        let content ← match project with
          | none => pure first
          | some p =>
            if isBodyPath t.codec d turn.taskId filename then
              assembleBody t s turn p profile effective filename first
            else pure first
        if content = [] ∨ needsGeneratedContent content goal then
          .raise (.valueError "LLM did not return usable artifact content".toList)
        else pure (takeBytes t.settings.maxWriteBytes content)

/-- `_resolve_write_content`: the text of a write, given or drafted. -/
def resolveWriteContent (t : Tools) (s : Supply) (turn : Turn) (p : Params) : Io Text := do
  let content := match p.fields.field "content" with
    | .none => []
    | v => strip v.toText
  if ¬ needsGeneratedContent content turn.goal then pure content
  else
    let filename := textOr p.fields "filename"
    if filename = [] then .raise (.valueError "write_artifact requires params.filename".toList)
    else
      let d ← .ask id
      generateArtifactContent t s turn (bodyDraftToolName t.codec d turn.taskId filename) filename
        turn.goal

end AgentLangraph.Artifact
