import AgentLangraph.Artifact.Executor

/-! What a tool is about to do, read off its parameters and the disk before it: which file an edit or a
    write is for, and the text it leaves there. A tool without such a plan raises, or gives back an
    error, and leaves every file as it was. -/

namespace AgentLangraph.Artifact
open PyText

/-! ### The disk -/

def Disk.mkdir (d : Disk) (dir : Path) : Disk :=
  if dir ∈ d.dirs then d else { d with dirs := dir :: d.dirs }

@[simp] theorem mkdir_files (d : Disk) (dir : Path) : (d.mkdir dir).files = d.files := by
  rw [Disk.mkdir]
  split_ifs <;> rfl

@[simp] theorem mkdir_stored (d : Disk) (dir path : Path) : (d.mkdir dir).stored path = d.stored path := by
  rw [Disk.stored, mkdir_files, Disk.stored]

@[simp] theorem mkdir_textAt (d : Disk) (dir path : Path) : (d.mkdir dir).textAt path = d.textAt path := by
  rw [Disk.textAt, mkdir_stored, Disk.textAt]

theorem stored_put (d : Disk) (path q : Path) (t : Text) :
    (d.put path t).stored q = if path = q then some t else d.stored q := by
  rw [Disk.stored, Disk.put, PyDict.get?_set]
  split_ifs <;> rfl

theorem taskArtifactDir_ok {taskId : Text} (h : taskDir taskId ≠ []) (d : Disk) :
    taskArtifactDir taskId d = (d.mkdir [taskDir taskId], .ok [taskDir taskId]) := by
  rw [taskArtifactDir, if_neg h]
  rfl

theorem taskArtifactDir_error {taskId : Text} (h : taskDir taskId = []) :
    taskArtifactDir taskId = .raise (.valueError "Invalid task_id for artifact path".toList) := by
  rw [taskArtifactDir, if_pos h]

theorem readText_some {d : Disk} {path : Path} {t : Text} (h : d.textAt path = some t) :
    readText path d = (d, .ok t) := by
  rw [readText, h]

theorem readText_none {d : Disk} {path : Path} (h : d.textAt path = none) :
    ∃ e, readText path d = (d, .error e) := by
  rw [readText, h]
  exact ⟨_, rfl⟩

theorem pathExists_of_textAt {d : Disk} {path : Path} {t : Text} (h : d.textAt path = some t) :
    d.pathExists path = true := by
  rw [Disk.textAt, Disk.stored, Option.map_map, Option.map_eq_some_iff] at h
  obtain ⟨f, hf, -⟩ := h
  rw [Disk.pathExists, Disk.isFile, hf]
  rfl

theorem writeText_ok {d : Disk} {path : Path} (h : d.unwritable path = none) (t : Text) :
    writeText path t d = (d.put path t, .ok ()) := by
  rw [writeText, h]

theorem writeText_error {d : Disk} {path : Path} (h : d.unwritable path ≠ none) (t : Text) :
    ∃ e, writeText path t d = (d, .error e) := by
  obtain ⟨e, he⟩ := Option.ne_none_iff_exists'.1 h
  rw [writeText, he]
  exact ⟨e, rfl⟩

/-! ### The file of a call -/

/-- The task and the name that the parameters of a tool give, where both are accepted. -/
def target (p : Params) : Option (Text × Text) := do
  let taskId ← (required p "task_id").toOption
  let raw ← (required p "filename").toOption
  let filename ← (safeFilename raw).toOption
  if taskDir taskId = [] then none else some (taskId, filename)

/-- The path of a file of a task. -/
def filePath (taskId filename : Text) : Path := joinPath [taskDir taskId] filename

theorem toOption_eq_some_iff {α : Type} {x : Except Raise α} {a : α} :
    x.toOption = some a ↔ x = .ok a := by
  cases x with
  | error e => exact iff_of_false nofun nofun
  | ok b => simp [Except.toOption]

theorem target_eq_some_iff {p : Params} {taskId filename : Text} :
    target p = some (taskId, filename) ↔ ∃ raw, required p "task_id" = .ok taskId ∧
      required p "filename" = .ok raw ∧ safeFilename raw = .ok filename ∧ taskDir taskId ≠ [] := by
  simp only [target, Option.bind_eq_bind, Option.bind_eq_some_iff, toOption_eq_some_iff,
    Option.ite_none_left_eq_some, Option.some.injEq, Prod.mk.injEq]
  constructor
  · rintro ⟨task, htask, raw, hraw, name, hname, hdir, rfl, rfl⟩
    exact ⟨raw, htask, hraw, hname, hdir⟩
  · rintro ⟨raw, htask, hraw, hname, hdir⟩
    exact ⟨taskId, htask, raw, hraw, filename, hname, hdir, rfl, rfl⟩

/-! ### Edits -/

/-- An edit that goes through. -/
structure EditPlan where
  taskId : Text
  filename : Text
  original : Text
  updated : Text
  replacements : ℕ

def EditPlan.path (e : EditPlan) : Path := filePath e.taskId e.filename

def dryRun (p : Params) : Bool := (p.fields.field "dry_run").truthy

/-- The edit that the parameters ask for, of a disk. -/
def editPlan (t : Tools) (p : Params) (d : Disk) : Option EditPlan := do
  let (taskId, filename) ← target p
  let occurrenceIndex ← (intParam t.matcher p.fields "occurrence_index").toOption
  let startLine ← (intParam t.matcher p.fields "start_line").toOption
  let endLine ← (intParam t.matcher p.fields "end_line").toOption
  let original ← d.textAt (filePath taskId filename)
  let r ← (editedText t p startLine endLine occurrenceIndex original).toOption
  if dryRun p ∨ (d.mkdir [taskDir taskId]).unwritable (filePath taskId filename) = none then
    some ⟨taskId, filename, original, r.1, r.2⟩
  else none

/-- What an edit leaves on disk. -/
def EditPlan.after (e : EditPlan) (p : Params) (d : Disk) : Disk :=
  if dryRun p then d.mkdir [taskDir e.taskId] else (d.mkdir [taskDir e.taskId]).put e.path e.updated

theorem after_stored (e : EditPlan) (p : Params) (d : Disk) (path : Path) :
    (e.after p d).stored path =
      if dryRun p = false ∧ e.path = path then some e.updated else d.stored path := by
  rw [EditPlan.after]
  cases hdry : dryRun p with
  | true => simp
  | false => simp [stored_put]

def EditPlan.result (e : EditPlan) (p : Params) : Result where
  filename := e.filename
  path := e.path
  mode := "edit".toList
  bytes := utf8Len e.updated
  replacements := some e.replacements
  dryRun := dryRun p

/-- What the plan of an edit says. -/
theorem editPlan_eq_some_iff {t : Tools} {p : Params} {d : Disk} {e : EditPlan} :
    editPlan t p d = some e ↔
      target p = some (e.taskId, e.filename) ∧ d.textAt e.path = some e.original ∧
      (dryRun p ∨ (d.mkdir [taskDir e.taskId]).unwritable e.path = none) ∧
      ∃ occurrenceIndex startLine endLine,
        intParam t.matcher p.fields "occurrence_index" = .ok occurrenceIndex ∧
        intParam t.matcher p.fields "start_line" = .ok startLine ∧
        intParam t.matcher p.fields "end_line" = .ok endLine ∧
        editedText t p startLine endLine occurrenceIndex e.original = .ok (e.updated, e.replacements) := by
  simp only [editPlan, Option.bind_eq_bind, Option.bind_eq_some_iff, toOption_eq_some_iff,
    Option.ite_none_right_eq_some, Option.some.injEq]
  constructor
  · rintro ⟨⟨taskId, filename⟩, htarget, occ, hocc, start, hstart, stop, hstop, original, htext, r, hr,
      hwrite, rfl⟩
    exact ⟨htarget, htext, hwrite, occ, start, stop, hocc, hstart, hstop, hr⟩
  · rintro ⟨htarget, htext, hwrite, occ, start, stop, hocc, hstart, hstop, hr⟩
    exact ⟨_, htarget, occ, hocc, start, hstart, stop, hstop, e.original, htext, _, hr, hwrite, rfl⟩

/-- An edit with a plan goes through. -/
theorem handleEdit_of_plan {t : Tools} {p : Params} {d : Disk} {e : EditPlan}
    (h : editPlan t p d = some e) :
    handleEditTextArtifact t p d = (e.after p d, .ok (e.result p)) := by
  obtain ⟨htarget, htext, hwrite, occ, start, stop, hocc, hstart, hstop, hr⟩ := editPlan_eq_some_iff.1 h
  obtain ⟨raw, htask, hraw, hname, hdir⟩ := target_eq_some_iff.1 htarget
  rw [handleEditTextArtifact, htask, Attempt.lift_ok_bind, hraw, Attempt.lift_ok_bind, hname,
    Attempt.lift_ok_bind, hocc, Attempt.lift_ok_bind, hstart, Attempt.lift_ok_bind, hstop,
    Attempt.lift_ok_bind, Attempt.bind_ok (taskArtifactDir_ok hdir d), Attempt.ask_bind_apply]
  have htext' : (d.mkdir [taskDir e.taskId]).textAt (joinPath [taskDir e.taskId] e.filename) =
      some e.original := by
    rw [mkdir_textAt]
    exact htext
  rw [if_neg (by rw [id, pathExists_of_textAt htext']; decide), Attempt.bind_ok (readText_some htext'),
    hr, Attempt.lift_ok_bind]
  change (if dryRun p = true then pure (e.result p) else writeText e.path e.updated >>= fun _ =>
    pure (e.result p) : Io Result) _ = _
  rw [EditPlan.after]
  by_cases hdry : dryRun p = true
  · rw [if_pos hdry, if_pos hdry]
    rfl
  · rw [if_neg hdry, if_neg hdry]
    exact Attempt.bind_ok (writeText_ok (hwrite.resolve_left hdry) _) _

/-- An edit without a plan raises, and leaves the files. -/
theorem handleEdit_of_none {t : Tools} {p : Params} {d : Disk} (h : editPlan t p d = none) :
    ∃ d' e, handleEditTextArtifact t p d = (d', .error e) ∧ d'.files = d.files := by
  rw [handleEditTextArtifact]
  cases htask : required p "task_id" with
  | error e => exact ⟨d, e, rfl, rfl⟩
  | ok taskId =>
  rw [Attempt.lift_ok_bind]
  cases hraw : required p "filename" with
  | error e => exact ⟨d, e, rfl, rfl⟩
  | ok raw =>
  rw [Attempt.lift_ok_bind]
  cases hname : safeFilename raw with
  | error e => exact ⟨d, e, rfl, rfl⟩
  | ok filename =>
  rw [Attempt.lift_ok_bind]
  cases hocc : intParam t.matcher p.fields "occurrence_index" with
  | error e => exact ⟨d, e, rfl, rfl⟩
  | ok occ =>
  rw [Attempt.lift_ok_bind]
  cases hstart : intParam t.matcher p.fields "start_line" with
  | error e => exact ⟨d, e, rfl, rfl⟩
  | ok start =>
  rw [Attempt.lift_ok_bind]
  cases hstop : intParam t.matcher p.fields "end_line" with
  | error e => exact ⟨d, e, rfl, rfl⟩
  | ok stop =>
  rw [Attempt.lift_ok_bind]
  by_cases hdir : taskDir taskId = []
  · rw [taskArtifactDir_error hdir]
    exact ⟨d, _, rfl, rfl⟩
  rw [Attempt.bind_ok (taskArtifactDir_ok hdir d), Attempt.ask_bind_apply]
  split_ifs with hexists
  swap
  · exact ⟨_, _, rfl, mkdir_files ..⟩
  cases htext : d.textAt (filePath taskId filename) with
  | none =>
    obtain ⟨e, he⟩ := readText_none ((mkdir_textAt d [taskDir taskId] _).trans htext)
    rw [filePath] at he
    rw [Attempt.bind_error he]
    exact ⟨_, e, rfl, mkdir_files ..⟩
  | some original =>
  have hread := readText_some ((mkdir_textAt d [taskDir taskId] _).trans htext)
  rw [filePath] at hread
  rw [Attempt.bind_ok hread]
  cases hr : editedText t p start stop occ original with
  | error e => exact ⟨_, e, rfl, mkdir_files ..⟩
  | ok r =>
  set e : EditPlan := ⟨taskId, filename, original, r.1, r.2⟩ with he
  have hplan : ¬ (dryRun p ∨ (d.mkdir [taskDir taskId]).unwritable e.path = none) := by
    intro hwrite
    rw [(editPlan_eq_some_iff (e := e)).2 ⟨target_eq_some_iff.2 ⟨raw, htask, hraw, hname, hdir⟩, htext,
      hwrite, occ, start, stop, hocc, hstart, hstop, hr⟩] at h
    cases h
  rw [not_or] at hplan
  obtain ⟨ex, hex⟩ := writeText_error hplan.2 e.updated
  refine ⟨d.mkdir [taskDir taskId], ex, ?_, mkdir_files ..⟩
  change (if dryRun p = true then pure (e.result p) else writeText e.path e.updated >>= fun _ =>
    pure (e.result p) : Io Result) _ = _
  rw [if_neg hplan.1]
  exact Attempt.bind_error hex _

/-! ### Writes -/

/-- The fence stands before everything that a write or an append does. -/
theorem guardedWrite_refused {t : Tools} {fence : Fence} {e : Raise} (h : assertWriteAllowed fence = .error e)
    (p : Params) (write : Params → Io Result) (d : Disk) : guardedWrite t fence p write d = (d, .error e) := by
  rw [guardedWrite, h]
  rfl

/-- The parameters that a write or an append is carried out with: the body of the project is taken for
    an outline. -/
def redirected (t : Tools) (p : Params) (d : Disk) : Option Params :=
  if bodyWriteTargetsOutline p = false then some p
  else if textOr p.fields "task_id" ≠ [] ∧ taskDir (textOr p.fields "task_id") = [] then none
  else do
    let project ← loadProject t.codec d (textOr p.fields "task_id")
    if project.bodyFile = [] ∨ p.fields.get? "filename".toList = some (.str project.bodyFile) then none
    else some { p with
      fields := (p.fields.put "filename" (.str project.bodyFile)).put "_chapter_path_retry" (.bool true) }

theorem guardedWrite_of_redirected {t : Tools} {fence : Fence} (hfence : assertWriteAllowed fence = .ok ())
    {p q : Params} {d : Disk} (h : redirected t p d = some q) (write : Params → Io Result) :
    guardedWrite t fence p write d = write q d := by
  rw [guardedWrite, hfence, Attempt.lift_ok_bind]
  rw [redirected] at h
  cases houtline : bodyWriteTargetsOutline p with
  | false =>
    rw [if_pos houtline, Option.some.injEq] at h
    rw [h]
    exact congrFun (if_neg Bool.false_ne_true) d
  | true =>
    rw [if_neg (by rw [houtline]; decide)] at h
    split_ifs at h with htask
    obtain ⟨project, hproject, h⟩ := Option.bind_eq_some_iff.1 h
    split_ifs at h with hbody
    rw [if_pos rfl, retryBodyWriteWithChapterPath]
    refine (congrFun (if_neg htask) d).trans ?_
    rw [Attempt.ask_bind_apply, id, hproject]
    exact (congrFun (if_neg hbody) d).trans (by rw [Option.some.inj h])

/-- There is only the outline to write to. -/
def onlyOutline (t : Tools) (p : Params) (d : Disk) : Bool :=
  bodyWriteTargetsOutline p &&
    decide ¬ (textOr p.fields "task_id" ≠ [] ∧ taskDir (textOr p.fields "task_id") = []) &&
    match loadProject t.codec d (textOr p.fields "task_id") with
    | none => false
    | some project =>
      decide (project.bodyFile = [] ∨ p.fields.get? "filename".toList = some (.str project.bodyFile))

/-- What is given back in place of a write to the outline. -/
def outlineResult (p : Params) : Result where
  status := "error".toList
  errorCode := "body_write_targets_outline".toList
  filename := textOr p.fields "filename"

/-- Without a file to go to, nothing is done. -/
theorem guardedWrite_eq_of_none {t : Tools} {fence : Fence} (hfence : assertWriteAllowed fence = .ok ())
    {p : Params} {d : Disk} (h : redirected t p d = none) (write : Params → Io Result) :
    onlyOutline t p d = true ∧ guardedWrite t fence p write d = (d, .ok (outlineResult p)) ∨
      onlyOutline t p d = false ∧ ∃ e, guardedWrite t fence p write d = (d, .error e) := by
  rw [guardedWrite, hfence, Attempt.lift_ok_bind]
  rw [redirected] at h
  cases houtline : bodyWriteTargetsOutline p with
  | false =>
    rw [if_pos houtline] at h
    cases h
  | true =>
    rw [if_neg (by rw [houtline]; decide)] at h
    rw [if_pos rfl, retryBodyWriteWithChapterPath, onlyOutline, houtline, Bool.true_and]
    by_cases htask : textOr p.fields "task_id" ≠ [] ∧ taskDir (textOr p.fields "task_id") = []
    · exact Or.inr ⟨by rw [decide_eq_false (not_not.2 htask), Bool.false_and], _, congrFun (if_pos htask) d⟩
    · rw [if_neg htask] at h
      have hask : ∀ f : Disk → Io Result, (Attempt.ask id >>= f) d = f d d := fun _ => rfl
      rw [if_neg htask, hask, decide_eq_true htask, Bool.true_and]
      cases hproject : loadProject t.codec d (textOr p.fields "task_id") with
      | none => exact Or.inr ⟨rfl, _, rfl⟩
      | some project =>
        rw [hproject] at h
        have hbody : project.bodyFile = [] ∨
            p.fields.get? "filename".toList = some (.str project.bodyFile) := by
          by_contra hbody
          have hsome := (if_neg hbody).symm.trans h
          cases hsome
        exact Or.inl ⟨decide_eq_true hbody, congrFun (if_pos hbody) d⟩

theorem onlyOutline_of_redirected {t : Tools} {p q : Params} {d : Disk} (h : redirected t p d = some q) :
    onlyOutline t p d = false := by
  rw [redirected] at h
  split_ifs at h with houtline htask
  · rw [onlyOutline, houtline, Bool.false_and, Bool.false_and]
  · obtain ⟨project, hproject, h⟩ := Option.bind_eq_some_iff.1 h
    split_ifs at h with hbody
    rw [onlyOutline, hproject]
    exact (congrArg _ (decide_eq_false hbody)).trans (Bool.and_false _)

theorem of_error {e : Raise} {P : Result → Prop} (res : Result) (h : Except.error e = .ok res) : P res := by
  cases h

/-- An error is raised, or given back. -/
theorem guardedWrite_of_none {t : Tools} {fence : Fence} (hfence : assertWriteAllowed fence = .ok ())
    {p : Params} {d : Disk} (h : redirected t p d = none) (write : Params → Io Result) :
    ∃ r, guardedWrite t fence p write d = (d, r) ∧
      ∀ res, r = .ok res → res.status = "error".toList ∧ res.replacements = none := by
  rcases guardedWrite_eq_of_none hfence h write with ⟨-, hr⟩ | ⟨-, e, hr⟩
  · refine ⟨_, hr, fun res hres => ?_⟩
    rw [← Except.ok.inj hres]
    exact ⟨rfl, rfl⟩
  · exact ⟨_, hr, of_error⟩

/-- A write that goes through. -/
structure WritePlan where
  taskId : Text
  filename : Text
  text : Text

def WritePlan.path (w : WritePlan) : Path := filePath w.taskId w.filename

/-- The write of some parameters, of a disk. -/
def bodyPlan (t : Tools) (p : Params) (d : Disk) : Option WritePlan := do
  let (taskId, filename) ← target p
  let _ ← (checkWrite t.settings (optional p "content")).toOption
  if (d.mkdir [taskDir taskId]).unwritable (filePath taskId filename) = none then
    some ⟨taskId, filename, writtenText t.settings (optional p "content")⟩
  else none

/-- The file, before the progress of the chapter is put down. -/
def WritePlan.written (w : WritePlan) (d : Disk) : Disk := (d.mkdir [taskDir w.taskId]).put w.path w.text

/-- What a write leaves on disk. -/
def WritePlan.after (t : Tools) (w : WritePlan) (d : Disk) : Disk :=
  (postChapterWriteUpdate t.codec w.taskId w.filename (some w.text.length) (w.written d)).1

theorem bodyPlan_eq_some_iff {t : Tools} {p : Params} {d : Disk} {w : WritePlan} :
    bodyPlan t p d = some w ↔ target p = some (w.taskId, w.filename) ∧
      checkWrite t.settings (optional p "content") = .ok () ∧
      (d.mkdir [taskDir w.taskId]).unwritable w.path = none ∧
      w.text = writtenText t.settings (optional p "content") := by
  simp only [bodyPlan, Option.bind_eq_bind, Option.bind_eq_some_iff, toOption_eq_some_iff,
    Option.ite_none_right_eq_some, Option.some.injEq]
  constructor
  · rintro ⟨⟨taskId, filename⟩, htarget, ⟨⟩, hcheck, hwrite, rfl⟩
    exact ⟨htarget, hcheck, hwrite, rfl⟩
  · rintro ⟨htarget, hcheck, hwrite, htext⟩
    exact ⟨_, htarget, (), hcheck, hwrite, by rw [← htext]⟩

theorem saveProject_apply (c : Codec) (taskId : Text) (p : WritingProject) (d : Disk) :
    saveProject c taskId p d = (d.put (projectJsonPath taskId) (c.dumps p), .ok ()) := rfl

/-- What is put down of a chapter is put down, or there is nothing to put down. -/
theorem postChapterWriteUpdate_ok (c : Codec) (taskId filename : Text) (count : Option ℕ) (d : Disk) :
    postChapterWriteUpdate c taskId filename count d =
      ((postChapterWriteUpdate c taskId filename count d).1, .ok ()) := by
  have hask : ∀ f : Disk → Io Unit, (Attempt.ask id >>= f) d = f d d := fun _ => rfl
  rw [postChapterWriteUpdate, hask]
  cases loadProject c d taskId with
  | none => rfl
  | some p =>
    dsimp only
    split_ifs <;> rfl

/-- What a write reports. -/
def WritePlan.result (w : WritePlan) (chunks : ℕ) : Result where
  filename := w.filename
  path := w.path
  mode := "write".toList
  bytes := utf8Len w.text
  chunksWritten := chunks

theorem writeBody_eq {t : Tools} {p : Params} {d : Disk} {w : WritePlan} (h : bodyPlan t p d = some w) :
    ∃ chunks, writeBody t p d = (w.after t d, .ok (w.result chunks)) := by
  obtain ⟨htarget, hcheck, hwrite, htext⟩ := bodyPlan_eq_some_iff.1 h
  obtain ⟨raw, htask, hraw, hname, hdir⟩ := target_eq_some_iff.1 htarget
  rw [writeBody, htask, Attempt.lift_ok_bind, hraw, Attempt.lift_ok_bind, hname, Attempt.lift_ok_bind,
    Attempt.bind_ok (taskArtifactDir_ok hdir d), hcheck, Attempt.lift_ok_bind, ← htext]
  have hput : writeText (joinPath [taskDir w.taskId] w.filename) w.text (d.mkdir [taskDir w.taskId]) =
      (w.written d, .ok ()) := writeText_ok hwrite _
  rw [Attempt.bind_ok hput, Attempt.bind_ok (postChapterWriteUpdate_ok ..)]
  exact ⟨_, rfl⟩

/-- A write without a plan raises, and leaves the files. -/
theorem writeBody_of_none {t : Tools} {p : Params} {d : Disk} (h : bodyPlan t p d = none) :
    ∃ d' e, writeBody t p d = (d', .error e) ∧ d'.files = d.files := by
  rw [writeBody]
  cases htask : required p "task_id" with
  | error e => exact ⟨d, e, rfl, rfl⟩
  | ok taskId =>
  rw [Attempt.lift_ok_bind]
  cases hraw : required p "filename" with
  | error e => exact ⟨d, e, rfl, rfl⟩
  | ok raw =>
  rw [Attempt.lift_ok_bind]
  cases hname : safeFilename raw with
  | error e => exact ⟨d, e, rfl, rfl⟩
  | ok filename =>
  rw [Attempt.lift_ok_bind]
  by_cases hdir : taskDir taskId = []
  · rw [taskArtifactDir_error hdir]
    exact ⟨d, _, rfl, rfl⟩
  rw [Attempt.bind_ok (taskArtifactDir_ok hdir d)]
  cases hcheck : checkWrite t.settings (optional p "content") with
  | error e => exact ⟨_, e, rfl, mkdir_files ..⟩
  | ok _ =>
  rw [Attempt.lift_ok_bind]
  set w : WritePlan := ⟨taskId, filename, writtenText t.settings (optional p "content")⟩ with hw
  have hplan : (d.mkdir [taskDir taskId]).unwritable w.path ≠ none := by
    intro hwrite
    rw [(bodyPlan_eq_some_iff (w := w)).2 ⟨target_eq_some_iff.2 ⟨raw, htask, hraw, hname, hdir⟩, hcheck,
      hwrite, rfl⟩] at h
    cases h
  obtain ⟨e, he⟩ := writeText_error hplan w.text
  have hput : writeText (joinPath [taskDir taskId] filename) w.text (d.mkdir [taskDir taskId]) =
      (d.mkdir [taskDir taskId], .error e) := he
  rw [Attempt.bind_error hput]
  exact ⟨_, e, rfl, mkdir_files ..⟩

/-- The write that a call ends in, of a disk. -/
def writePlan (t : Tools) (fence : Fence) (p : Params) (d : Disk) : Option WritePlan :=
  if assertWriteAllowed fence = .ok () then (redirected t p d).bind fun q => bodyPlan t q d else none

theorem handleWrite_eq {t : Tools} {fence : Fence} {p : Params} {d : Disk} {w : WritePlan}
    (h : writePlan t fence p d = some w) :
    ∃ chunks, handleWriteTextArtifact t fence p d = (w.after t d, .ok (w.result chunks)) := by
  rw [writePlan, Option.ite_none_right_eq_some, Option.bind_eq_some_iff] at h
  obtain ⟨hfence, q, hq, hbody⟩ := h
  rw [handleWriteTextArtifact, guardedWrite_of_redirected hfence hq]
  exact writeBody_eq hbody

/-- A write with a plan leaves what the plan says, and reports its file and no replacements. -/
theorem handleWrite_of_plan {t : Tools} {fence : Fence} {p : Params} {d : Disk} {w : WritePlan}
    (h : writePlan t fence p d = some w) :
    ∃ r, handleWriteTextArtifact t fence p d = (w.after t d, .ok r) ∧ r.status = "ok".toList ∧
      r.replacements = none ∧ r.path = w.path := by
  obtain ⟨chunks, hr⟩ := handleWrite_eq h
  exact ⟨_, hr, rfl, rfl, rfl⟩

/-- A call without a plan that gives back an error, and raises none. -/
def turnedAway (t : Tools) (fence : Fence) (p : Params) (d : Disk) : Bool :=
  decide (assertWriteAllowed fence = .ok ()) && onlyOutline t p d

theorem handleWrite_eq_of_none {t : Tools} {fence : Fence} {p : Params} {d : Disk}
    (h : writePlan t fence p d = none) : ∃ d', d'.files = d.files ∧
      (turnedAway t fence p d = true ∧ handleWriteTextArtifact t fence p d = (d', .ok (outlineResult p)) ∨
        turnedAway t fence p d = false ∧ ∃ e, handleWriteTextArtifact t fence p d = (d', .error e)) := by
  rw [handleWriteTextArtifact, turnedAway]
  cases hfence : assertWriteAllowed fence with
  | error e => exact ⟨d, rfl, Or.inr ⟨rfl, e, guardedWrite_refused hfence p _ d⟩⟩
  | ok _ =>
    rw [writePlan, if_pos hfence] at h
    rw [decide_eq_true rfl, Bool.true_and]
    cases hq : redirected t p d with
    | none => exact ⟨d, rfl, guardedWrite_eq_of_none hfence hq (writeBody t)⟩
    | some q =>
      rw [hq, Option.bind_some] at h
      obtain ⟨d', e, he, hfiles⟩ := writeBody_of_none h
      exact ⟨d', hfiles, Or.inr ⟨onlyOutline_of_redirected hq,
        e, (guardedWrite_of_redirected hfence hq _).trans he⟩⟩

/-- A write without a plan leaves the files, and gives back nothing but an error. -/
theorem handleWrite_of_none {t : Tools} {fence : Fence} {p : Params} {d : Disk}
    (h : writePlan t fence p d = none) :
    ∃ d' r, handleWriteTextArtifact t fence p d = (d', r) ∧ d'.files = d.files ∧
      ∀ res, r = .ok res → res.status = "error".toList ∧ res.replacements = none := by
  obtain ⟨d', hfiles, ⟨-, hr⟩ | ⟨-, e, hr⟩⟩ := handleWrite_eq_of_none h
  · refine ⟨d', _, hr, hfiles, fun res hres => ?_⟩
    rw [← Except.ok.inj hres]
    exact ⟨rfl, rfl⟩
  · exact ⟨d', _, hr, hfiles, of_error⟩

/-! ### The text of a write -/

/-- The text that the planner gives. -/
def givenText (p : Params) : Text :=
  match p.fields.field "content" with
  | .none => []
  | v => strip v.toText

/-- A text that is given is taken as it is. -/
theorem resolveWriteContent_given {t : Tools} {s : Supply} {turn : Turn} {p : Params}
    (h : needsGeneratedContent (givenText p) turn.goal = false) (d : Disk) :
    resolveWriteContent t s turn p d = (d, .ok (givenText p)) := by
  have hif : ¬ needsGeneratedContent (givenText p) turn.goal = true := by simp [h]
  exact congrFun (if_pos hif) d

end AgentLangraph.Artifact
