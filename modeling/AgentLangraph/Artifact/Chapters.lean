import AgentLangraph.Artifact.Steps

/-! The finished chapters of a body file while its actions are carried out. A write of the body is the next
    piece and is appended, unless the body is empty; an edit without a target is given the same piece, and
    written over the whole file.

        write of the body       piece ──▶ append            finished chapters stay
        edit without a target   piece ──▶ whole file        finished chapters go -/

namespace AgentLangraph.Artifact
open PyText

/-! ### What only grows -/

theorem universalNewlines_cons {c : Char} (h : c ≠ '\r') (t : Text) :
    universalNewlines (c :: t) = c :: universalNewlines t := by
  simp [universalNewlines, h]

theorem universalNewlines_return {c : Char} (h : c ≠ '\n') (t : Text) :
    universalNewlines ('\r' :: c :: t) = '\n' :: universalNewlines (c :: t) := by
  rw [universalNewlines]
  exact h

/-- A longer file reads as a longer text, even where a line break is cut in two. -/
theorem prefix_universalNewlines (s u : Text) : universalNewlines s <+: universalNewlines (s ++ u) := by
  induction s using universalNewlines.induct with
  | case1 => exact List.nil_prefix
  | case2 =>
    cases u with
    | nil => exact List.prefix_rfl
    | cons c u =>
      rw [List.singleton_append]
      by_cases hc : c = '\n'
      · subst hc
        simp [universalNewlines]
      · simp [universalNewlines]
  | case3 s ih => simpa [universalNewlines] using ih
  | case4 c s hc ih =>
    rw [List.cons_append, List.cons_append, universalNewlines_return hc, universalNewlines_return hc]
    exact List.cons_prefix_cons.2 ⟨rfl, ih⟩
  | case5 c s hone hcr hrest ih =>
    have hc : c ≠ '\r' := by
      rintro rfl
      cases s with
      | nil => exact hone rfl rfl
      | cons b s => exact hrest b s rfl rfl
    rw [List.cons_append, universalNewlines_cons hc, universalNewlines_cons hc]
    exact List.cons_prefix_cons.2 ⟨rfl, ih⟩

/-- No file gets shorter or other, but for manifests. -/
def Extends (d d' : Disk) : Prop :=
  ∀ path, path.getLast? ≠ some "project.json".toList →
    (d.stored path).getD [] <+: (d'.stored path).getD []

theorem extends_refl (d : Disk) : Extends d d := fun _ _ => List.prefix_rfl

theorem extends_trans (d d' d'' : Disk) (h : Extends d d') (h' : Extends d' d'') : Extends d d'' :=
  fun path hpath => (h path hpath).trans (h' path hpath)

/-- Such a program never takes from a file. -/
abbrev Grows {α : Type} (x : Io α) : Prop := Attempt.Moves Extends x

section
variable {α β : Type}

theorem grows_bind {x : Io α} {f : α → Io β} (hx : Grows x) (hf : ∀ a, Grows (f a)) : Grows (x >>= f) :=
  Attempt.moves_bind extends_trans hx hf

theorem grows_pure (a : α) : Grows (pure a : Io α) := Attempt.moves_pure extends_refl a

theorem grows_raise (e : Raise) : Grows (.raise e : Io α) := Attempt.moves_raise extends_refl e

theorem grows_lift (x : Except Raise α) : Grows (.lift x : Io α) := Attempt.moves_lift extends_refl x

theorem grows_ask (f : Disk → α) : Grows (.ask f : Io α) := Attempt.moves_ask extends_refl f

end

theorem grows_taskArtifactDir (taskId : Text) : Grows (taskArtifactDir taskId) := by
  by_cases hdir : taskDir taskId = []
  · rw [taskArtifactDir_error hdir]
    exact grows_raise _
  · intro d
    rw [taskArtifactDir_ok hdir]
    intro path _
    rw [mkdir_stored]

theorem grows_readText (path : Path) : Grows (readText path) := by
  intro d
  cases htext : d.textAt path with
  | some t =>
    rw [readText_some htext]
    exact extends_refl d
  | none =>
    obtain ⟨e, he⟩ := readText_none htext
    rw [he]
    exact extends_refl d

theorem grows_readIfExists (path : Path) : Grows (readIfExists path) := by
  refine grows_bind (grows_ask _) fun d => ?_
  split_ifs
  · exact grows_readText path
  · exact grows_pure _

/-- A text that begins with the one there is put in its place. -/
theorem extends_put {d : Disk} {path : Path} {t : Text} (h : (d.stored path).getD [] <+: t) :
    Extends d (d.put path t) := by
  intro q _
  rw [stored_put]
  split_ifs with heq
  · subst heq
    exact h
  · exact List.prefix_rfl

theorem grows_openAppend (path : Path) : Grows (openAppend path) := by
  intro d
  rw [openAppend]
  cases d.unwritable path with
  | some e => exact extends_refl d
  | none =>
    dsimp only
    split_ifs with hfile
    · exact extends_refl d
    · refine extends_put ?_
      have hnone : d.files.get? path = none := by simpa [Disk.isFile] using hfile
      rw [Disk.stored, hnone]
      exact List.prefix_rfl

theorem grows_appendText (path : Path) (t : Text) : Grows (appendText path t) :=
  Attempt.moves_change fun _ => extends_put (List.prefix_append ..)

theorem grows_appendChunks (cfg : Settings) (path : Path) (existing : Text) : ∀ (chunks : List Text)
    (index bytes : ℕ), Grows (appendChunks cfg path existing index bytes chunks)
  | [], _, _ => grows_pure ()
  | chunk :: chunks, index, bytes => by
      rw [appendChunks]
      refine grows_bind (grows_lift _) fun _ => ?_
      have hrest : ∀ n, Grows (do
          appendText path chunk
          appendChunks cfg path existing (index + 1) n chunks) := fun n =>
        grows_bind (grows_appendText _ _) fun _ => grows_appendChunks cfg path existing chunks _ _
      dsimp only
      split_ifs
      · exact grows_bind (grows_appendText _ _) fun _ => hrest _
      · exact hrest _

theorem grows_saveProject (c : Codec) (taskId : Text) (p : WritingProject) :
    Grows (saveProject c taskId p) := by
  intro d path hpath
  rw [saveProject_apply]
  dsimp only
  rw [stored_put, if_neg]
  intro heq
  rw [← heq] at hpath
  exact hpath rfl

theorem grows_postChapterWriteUpdate (c : Codec) (taskId filename : Text) (count : Option ℕ) :
    Grows (postChapterWriteUpdate c taskId filename count) := by
  refine grows_bind (grows_ask _) fun d => ?_
  split
  · exact grows_pure ()
  · split_ifs
    · exact grows_saveProject _ _ _
    · exact grows_pure ()

theorem grows_guardedWrite (t : Tools) (fence : Fence) (p : Params) {write : Params → Io Result}
    (h : ∀ q, Grows (write q)) : Grows (guardedWrite t fence p write) := by
  refine grows_bind (grows_lift _) fun _ => ?_
  split_ifs
  · rw [retryBodyWriteWithChapterPath]
    split_ifs
    · exact grows_raise _
    · refine grows_bind (grows_ask _) fun d => ?_
      split
      · exact grows_raise _
      · split_ifs
        · exact grows_pure _
        · exact h _
  · exact h p

/-- An append only adds to its file, whatever stops it. -/
theorem grows_handleAppend (t : Tools) (fence : Fence) (p : Params) :
    Grows (handleAppendTextArtifact t fence p) := by
  refine grows_guardedWrite t fence p fun q => ?_
  rw [appendBody]
  refine grows_bind (grows_lift _) fun taskId => grows_bind (grows_lift _) fun raw =>
    grows_bind (grows_lift _) fun filename => grows_bind (grows_taskArtifactDir _) fun dir =>
    grows_bind (grows_readIfExists _) fun existing => grows_bind (grows_ask _) fun d => ?_
  dsimp only
  have hdone : ∀ (content : Text) (path : Path), Grows (do
      openAppend path
      appendChunks t.settings path existing 0 (utf8Len existing) (splitLongText t.settings content)
      let total ← readText path
      postChapterWriteUpdate t.codec taskId filename
        (some (sliceCurrentChapterText t.codec.digit total).length)
      pure ({ filename := filename, path := path, mode := "append".toList, bytes := utf8Len content,
              chunksWritten := (splitLongText t.settings content).length } : Result)) := fun content path =>
    grows_bind (grows_openAppend _) fun _ => grows_bind (grows_appendChunks _ _ _ _ _ _) fun _ =>
      grows_bind (grows_readText _) fun total => grows_bind (grows_postChapterWriteUpdate _ _ _ _) fun _ =>
        grows_pure _
  split_ifs
  · exact grows_pure _
  · exact hdone _ _
  · exact grows_pure _
  · exact hdone _ _

/-! ### The body -/

/-- The text of a file; none where there is no file. -/
def bodyText (d : Disk) (body : Path) : Text := (d.textAt body).getD []

/-- The body begins with some text. -/
def Keeps (head : Text) (body : Path) (d : Disk) : Prop := head <+: bodyText d body

/-- An action that is carried out on a file as a whole: a write, or an edit without a target. -/
def Step.OnWhole (step : Step) : Prop :=
  ∃ a, step.planned.action = .ok a ∧
    (a.type = .writeArtifact ∨ a.type = .editArtifact ∧ editHasTarget a.params = false)

/-- The write of a whole file that the action comes to. -/
def wholeWrite (t : Tools) (r : Run) (step : Step) (a : Action) : Option WritePlan :=
  match drafted t r step a with
  | (_, .error _) => none
  | (d, .ok content) =>
    if a.type = .writeArtifact ∧ bodyDraftToolName t.codec d r.exec.turn.taskId
        (textOr (callParams r.exec.turn a.params).fields "filename") = .append then none
    else writePlan t (some r.exec.fence) ((callParams r.exec.turn a.params).withContent content) d

/-- A file reads the same on both disks. -/
def SameAt (body : Path) (d d' : Disk) : Prop := d'.stored body = d.stored body

/-- A program that leaves one file alone. -/
abbrev Leaves {α : Type} (body : Path) (x : Io α) : Prop := Attempt.Moves (SameAt body) x

/-- The body is a file of its own: it is no manifest, and no part of the material for the story. -/
def Apart (body : Path) (step : Step) : Prop :=
  body.getLast? ≠ some "project.json".toList ∧ Leaves body step.supply.bible

/-- What the action writes to the body as a whole begins with the text. (Where the body is not a file of
    its own, it may be put down for other reasons, and must begin with the text then.) -/
def Spares (t : Tools) (head : Text) (body : Path) (r : Run) (step : Step) : Prop :=
  (Apart body step → ∀ a, step.planned.action = .ok a →
      ∀ w, wholeWrite t r step a = some w → w.path = body → head <+: universalNewlines w.text) ∧
    (¬ Apart body step → Keeps head body (Run.step t step r).1.exec.ws.disk)

/-! ### One action -/

theorem bodyText_eq (d : Disk) (body : Path) :
    bodyText d body = universalNewlines ((d.stored body).getD []) := by
  rw [bodyText, Disk.textAt]
  cases d.stored body <;> rfl

theorem keeps_of_extends {head : Text} {body : Path} {d d' : Disk} (h : Extends d d')
    (hbody : body.getLast? ≠ some "project.json".toList) (hkeeps : Keeps head body d) :
    Keeps head body d' := by
  rw [Keeps, bodyText_eq] at hkeeps ⊢
  obtain ⟨v, hv⟩ := h body hbody
  rw [← hv]
  exact hkeeps.trans (prefix_universalNewlines _ _)

theorem keeps_congr {head : Text} {body : Path} {d d' : Disk} (h : d'.stored body = d.stored body) :
    Keeps head body d' ↔ Keeps head body d := by
  rw [Keeps, Keeps, bodyText_eq, bodyText_eq, h]

theorem postChapterWriteUpdate_stored (c : Codec) (taskId filename : Text) (count : Option ℕ) (d : Disk)
    {body : Path} (hbody : body.getLast? ≠ some "project.json".toList) :
    (postChapterWriteUpdate c taskId filename count d).1.stored body = d.stored body := by
  have hsave : ∀ p, (saveProject c taskId p d).1.stored body = d.stored body := fun p => by
    rw [saveProject_apply]
    dsimp only
    rw [stored_put, if_neg]
    rintro rfl
    exact hbody rfl
  have hask : ∀ f : Disk → Io Unit, (Attempt.ask id >>= f) d = f d d := fun _ => rfl
  rw [postChapterWriteUpdate, hask]
  cases loadProject c d taskId with
  | none => rfl
  | some p =>
    dsimp only
    split_ifs
    · exact hsave _
    · rfl

/-- What a write of a whole file leaves in the body. -/
theorem keeps_after_iff {t : Tools} {head : Text} {body : Path} {d : Disk} (w : WritePlan)
    (hbody : body.getLast? ≠ some "project.json".toList) (hd : Keeps head body d) :
    Keeps head body (w.after t d) ↔ (w.path = body → head <+: universalNewlines w.text) := by
  have hafter : (w.after t d).stored body = if w.path = body then some w.text else d.stored body := by
    rw [WritePlan.after, postChapterWriteUpdate_stored _ _ _ _ _ hbody, WritePlan.written, stored_put,
      mkdir_stored]
  by_cases hpath : w.path = body
  · rw [Keeps, bodyText_eq, hafter, if_pos hpath]
    simp [hpath]
  · rw [if_neg hpath] at hafter
    rw [keeps_congr hafter]
    exact iff_of_true hd fun h => absurd h hpath

theorem entryOf_onDisk {α : Type} (x : Io α) (ok : α → Entry) (raised : Raise → Entry) (ws : Workspace) :
    (entryOf (onDisk x) ok raised ws).1.disk = (x ws.disk).1 := by
  rcases hx : x ws.disk with ⟨d, e | a⟩
  · rw [entryOf_error (onDisk_eq hx)]
  · rw [entryOf_ok (onDisk_eq hx)]

/-- The disk after the handler of an action on a whole file. -/
def handled (t : Tools) (r : Run) (a : Action) (content : Text) (d : Disk) : Disk :=
  let p := callParams r.exec.turn a.params
  if a.type = .writeArtifact ∧
      bodyDraftToolName t.codec d r.exec.turn.taskId (textOr p.fields "filename") = .append then
    (handleAppendTextArtifact t (some r.exec.fence) (p.withContent content) d).1
  else (handleWriteTextArtifact t (some r.exec.fence) (p.withContent content) d).1

/-- The disk after an action on a whole file. -/
theorem step_disk {t : Tools} {r : Run} {step : Step} {a : Action} (hact : step.planned.action = .ok a)
    (hty : a.type = .writeArtifact ∨ a.type = .editArtifact ∧ editHasTarget a.params = false) :
    (Run.step t step r).1.exec.ws.disk =
      match drafted t r step a with
      | (d, .error _) => d
      | (d, .ok content) => handled t r a content d := by
  have hown : a.type.onArtifact = true ∨ a.type = .runTool := by
    rcases hty with hty | ⟨hty, -⟩ <;> exact Or.inl (by rw [hty]; rfl)
  have hentry : (executeEntry t step r.exec a (r.exec.ws.at step.now)).1.disk =
      match drafted t r step a with
      | (d, .error _) => d
      | (d, .ok content) => handled t r a content d := by
    rcases hdraft : drafted t r step a with ⟨d, e | content⟩
    · rcases hty with hty | ⟨hty, htarget⟩
      · rw [executeEntry_write hty, executeWrite, Attempt.bind_error (onDisk_eq hdraft)]
      · rw [executeEntry_imprecise hty (by rw [editHasTarget_callParams, htarget]; decide), executeImprecise,
          Attempt.bind_error (onDisk_eq hdraft)]
    · dsimp only
      rcases hty with hty | ⟨hty, htarget⟩
      · rw [executeEntry_write hty, executeWrite, Attempt.bind_ok (onDisk_eq hdraft), Attempt.ask_bind_apply,
          handled]
        dsimp only [id]
        cases htool : bodyDraftToolName t.codec d r.exec.turn.taskId
            (textOr (callParams r.exec.turn a.params).fields "filename") with
        | append =>
          rw [if_pos ⟨hty, rfl⟩]
          exact entryOf_onDisk ..
        | write =>
          rw [if_neg (fun h => nomatch h.2)]
          exact entryOf_onDisk ..
      · rw [executeEntry_imprecise hty (by rw [editHasTarget_callParams, htarget]; decide), executeImprecise,
          Attempt.bind_ok (onDisk_eq hdraft), handled, if_neg (fun h => by rw [hty] at h; exact nomatch h.1)]
        exact entryOf_onDisk ..
  rw [← hentry, step_eq_execute hact hown]
  rcases hx : executeEntry t step r.exec a (r.exec.ws.at step.now) with ⟨ws, e | e⟩
  · rw [execute_error hx]
    rfl
  · rw [execute_ok hx]
    rfl

/-- What is handled keeps the body, unless it is a write of the whole file that does not. -/
theorem keeps_handled_iff {t : Tools} {head : Text} {body : Path} {r : Run} {step : Step} {a : Action}
    {content : Text} {d : Disk} (hdraft : drafted t r step a = (d, .ok content))
    (hbody : body.getLast? ≠ some "project.json".toList) (hd : Keeps head body d) :
    Keeps head body (handled t r a content d) ↔
      ∀ w, wholeWrite t r step a = some w → w.path = body → head <+: universalNewlines w.text := by
  rw [handled, wholeWrite, hdraft]
  dsimp only
  split_ifs with happend
  · exact iff_of_true (keeps_of_extends (grows_handleAppend t _ _ d) hbody hd) fun w hw => by cases hw
  · cases hplan : writePlan t (some r.exec.fence) ((callParams r.exec.turn a.params).withContent content) d with
    | some w =>
      obtain ⟨res, hres, -⟩ := handleWrite_of_plan hplan
      rw [hres, keeps_after_iff w hbody hd]
      exact ⟨fun h w' hw' => by cases hw'; exact h, fun h => h w rfl⟩
    | none =>
      obtain ⟨d', res, hres, hfiles, -⟩ := handleWrite_of_none hplan
      have hsame : d'.stored body = d.stored body := by rw [Disk.stored, hfiles, Disk.stored]
      rw [hres, keeps_congr hsame]
      exact iff_of_true hd fun w hw => by cases hw

/-! ### Drafting -/

theorem sameAt_trans (body : Path) (d d' d'' : Disk) (h : SameAt body d d') (h' : SameAt body d' d'') :
    SameAt body d d'' := Eq.trans h' h

section
variable {body : Path}

theorem leaves_bind {α β : Type} {x : Io α} {f : α → Io β} (hx : Leaves body x)
    (hf : ∀ a, Leaves body (f a)) : Leaves body (x >>= f) :=
  Attempt.moves_bind (sameAt_trans body) hx hf

theorem leaves_pure {α : Type} (a : α) : Leaves body (pure a) := fun _ => rfl

theorem leaves_raise {α : Type} (e : Raise) : Leaves body (.raise e : Io α) := fun _ => rfl

theorem leaves_lift {α : Type} (x : Except Raise α) : Leaves body (.lift x) := fun _ => rfl

theorem leaves_ask {α : Type} (f : Disk → α) : Leaves body (.ask f) := fun _ => rfl

theorem leaves_ite {α : Type} {c : Prop} [Decidable c] {x y : Io α} (hx : Leaves body x)
    (hy : Leaves body y) : Leaves body (if c then x else y) := by
  split_ifs
  · exact hx
  · exact hy

theorem leaves_markChapterContinuationNeeded (c : Codec) (taskId filename : Text)
    (hbody : body.getLast? ≠ some "project.json".toList) :
    Leaves body (markChapterContinuationNeeded c taskId filename) := by
  refine leaves_bind (leaves_ask _) fun d => ?_
  split
  · exact leaves_pure ()
  · split_ifs
    · intro d
      rw [saveProject_apply, SameAt, stored_put, if_neg]
      rintro rfl
      exact hbody rfl
    · exact leaves_pure ()

theorem leaves_assembleBody (t : Tools) (s : Supply) (turn : Turn) (p : WritingProject) (profile : Profile)
    (effective : DraftTool) (filename first : Text) (hbody : body.getLast? ≠ some "project.json".toList) :
    Leaves body (assembleBody t s turn p profile effective filename first) := by
  refine leaves_bind (leaves_ask _) fun d => leaves_bind (leaves_lift _) fun ⟨parts, combined⟩ => ?_
  dsimp only
  split_ifs
  · exact leaves_bind (leaves_markChapterContinuationNeeded _ _ _ hbody) fun _ => leaves_pure _
  · exact leaves_pure _

/-- Drafting a text writes the manifest and the material for the story, and nothing else. -/
theorem leaves_generateArtifactContent (t : Tools) (s : Supply) (turn : Turn) (tool : DraftTool)
    (filename goal : Text) (hbody : body.getLast? ≠ some "project.json".toList)
    (hbible : Leaves body s.bible) : Leaves body (generateArtifactContent t s turn tool filename goal) := by
  have husable : ∀ content : Text, Leaves body (
      if content = [] ∨ needsGeneratedContent content goal then
        .raise (.valueError "LLM did not return usable artifact content".toList)
      else pure (takeBytes t.settings.maxWriteBytes content)) :=
    fun _ => leaves_ite (leaves_raise _) (leaves_pure _)
  rw [generateArtifactContent]
  cases s.control with
  | some e => exact leaves_raise e
  | none =>
    refine leaves_bind (leaves_ask _) fun d => leaves_ite (leaves_raise _) ?_
    dsimp only
    cases s.prepare with
    | some e => exact leaves_ite (leaves_bind hbible fun _ => leaves_raise e) (leaves_raise e)
    | none =>
      cases loadProject t.codec d turn.taskId with
      | none =>
        have hdraft := leaves_bind (leaves_lift (draftOnce s (profileOf turn filename) 0)) fun first =>
          leaves_bind (leaves_ask id) fun _ => husable first
        exact leaves_ite (leaves_bind hbible fun _ => hdraft) hdraft
      | some p =>
        have hdraft := leaves_bind (leaves_lift (draftOnce s (profileOf turn filename) 0)) fun first =>
          leaves_bind (leaves_ask id) fun d' => leaves_ite (c := isBodyPath t.codec d' turn.taskId filename)
            (leaves_bind (leaves_assembleBody t s turn p (profileOf turn filename)
              (if isBodyPath t.codec d turn.taskId filename then
                bodyDraftToolName t.codec d turn.taskId filename else tool) filename first hbody) husable)
            (husable first)
        exact leaves_ite (leaves_bind hbible fun _ => hdraft) hdraft

theorem leaves_resolveWriteContent (t : Tools) (s : Supply) (turn : Turn) (p : Params)
    (hbody : body.getLast? ≠ some "project.json".toList) (hbible : Leaves body s.bible) :
    Leaves body (resolveWriteContent t s turn p) := by
  rw [resolveWriteContent]
  dsimp only
  split_ifs
  · exact leaves_raise _
  · exact leaves_bind (leaves_ask _) fun d =>
      leaves_generateArtifactContent t s turn _ _ _ hbody hbible
  · exact leaves_pure _

end

/-- Drafting the text for an action leaves a body that is a file of its own. -/
theorem keeps_drafted {t : Tools} {head : Text} {body : Path} {r : Run} {step : Step} (hapart : Apart body step)
    (hd : Keeps head body r.exec.ws.disk) (a : Action) : Keeps head body (drafted t r step a).1 := by
  have hleaves := leaves_resolveWriteContent t step.supply r.exec.turn (callParams r.exec.turn a.params)
    hapart.1 hapart.2 (r.exec.ws.at step.now).disk
  rw [drafted, keeps_congr hleaves]
  exact hd

/-! ### All actions of a turn -/

/-- STEP: a body that begins with a text still does after an action exactly when the action spares it. -/
theorem step_spares_iff {t : Tools} {head : Text} {body : Path} {r : Run} {step : Step}
    (hwhole : step.OnWhole) (hd : Keeps head body r.exec.ws.disk) :
    Keeps head body (Run.step t step r).1.exec.ws.disk ↔ Spares t head body r step := by
  by_cases hapart : Apart body step
  · obtain ⟨a, hact, hty⟩ := hwhole
    have hspares : Spares t head body r step ↔
        ∀ w, wholeWrite t r step a = some w → w.path = body → head <+: universalNewlines w.text :=
      ⟨fun h => h.1 hapart a hact, fun h => ⟨fun _ b hb => by
        rw [hact] at hb
        cases hb
        exact h, fun hno => absurd hapart hno⟩⟩
    have hdrafted : Keeps head body (drafted t r step a).1 := keeps_drafted hapart hd a
    rw [hspares, step_disk hact hty]
    rcases hr : drafted t r step a with ⟨d, e | content⟩
    · rw [hr] at hdrafted
      refine iff_of_true hdrafted fun w hw => ?_
      rw [wholeWrite, hr] at hw
      cases hw
    · rw [hr] at hdrafted
      exact keeps_handled_iff hr hapart.1 hdrafted
  · exact ⟨fun h => ⟨fun hyes => absurd hyes hapart, fun _ => h⟩, fun h => h.2 hapart⟩

theorem sealedPart_prefix (digit : Char → Option ℕ) (t : Text) : sealedPart digit t <+: t :=
  (List.rdropWhile_prefix _ _).trans (List.take_prefix ..)

/-- The body file of a project, for the task of the turn. -/
def bodyFile (x : Exec) (p : WritingProject) : Path := bodyAbsolutePath x.turn.taskId p

/-- The finished chapters of the body, as the turn finds it. -/
def finished (t : Tools) (x : Exec) (p : WritingProject) : Text :=
  sealedPart t.codec.digit (bodyText x.ws.disk (bodyFile x p))

/-- The body begins with the finished chapters after the actions. -/
def ChaptersSurvive (t : Tools) (x : Exec) (facts : TurnFacts) (p : WritingProject) (steps : List Step) :
    Prop :=
  Keeps (finished t x p) (bodyFile x p) (executeActions t steps (Run.begin x facts)).1.exec.ws.disk

/-- The finished chapters survive the actions up to any point exactly when every action spares them. -/
theorem chapters_survive_iff (t : Tools) (x : Exec) (facts : TurnFacts) (p : WritingProject)
    (steps : List Step) (hwhole : ∀ step ∈ steps, step.OnWhole) :
    (∀ pre, pre <+: steps → ChaptersSurvive t x facts p pre) ↔
      Attempt.Along (Run.step t) (Spares t (finished t x p) (bodyFile x p)) (Run.begin x facts) steps := by
  have hbegin : Keeps (finished t x p) (bodyFile x p) (Run.begin x facts).exec.ws.disk :=
    sealedPart_prefix ..
  have hsurvive : (∀ pre, pre <+: steps → ChaptersSurvive t x facts p pre) ↔
      Attempt.Along (Run.step t) (fun r step =>
        Keeps (finished t x p) (bodyFile x p) (Run.step t step r).1.exec.ws.disk) (Run.begin x facts) steps := by
    simp only [ChaptersSurvive, executeActions_ws]
    exact (Attempt.forall_prefix_iff (I := fun r : Run => Keeps (finished t x p) (bodyFile x p) r.exec.ws.disk)).trans
      (and_iff_right hbegin)
  rw [hsurvive]
  refine Attempt.along_iff (I := fun r => Keeps (finished t x p) (bodyFile x p) r.exec.ws.disk)
    (fun r step hstep hkeeps => step_spares_iff (hwhole step hstep) hkeeps) ?_ hbegin
  intro r step hstep r' hkeeps hspares hr
  have hafter := (step_spares_iff (hwhole step hstep) hkeeps).2 hspares
  rw [hr] at hafter
  exact hafter

/-! ### A novel -/

def continued : Text := "\x7b\"current_chapter_incomplete\": true\x7d".toList

/-- A manifest with the default files. -/
def novelTools : Tools where
  codec :=
    { loads := fun text =>
        if text = "{}".toList then some PyDict.empty
        else if text = continued then
          some (PyDict.ofList [("current_chapter_incomplete".toList, .bool true)])
        else none
      dumps := fun p => if p.currentChapterIncomplete then continued else "{}".toList
      digit := plainDigit }
  matcher := plainTools.matcher

/-- A novel with one finished chapter. -/
def oneChapter : Exec where
  turn := { taskId := "s1".toList }
  ws :=
    { disk :=
        { files := PyDict.ofList
            [(projectJsonPath "s1".toList, { text := "{}".toList }),
              (["s1".toList, "正文".toList, "novel.md".toList], { text := "第1章 起（第1章完）".toList })]
          dirs := [["s1".toList], ["s1".toList, "正文".toList]] } }

/-- An action on the body, with the next piece as the draft for it. -/
def onBody (type : ActionType) : Step where
  planned :=
    { type := type.name,
      params := { fields := PyDict.ofList [("filename".toList, .str "正文/novel.md".toList)] } }
  supply := { drafts := fun n => .ok (if n = 0 then "第2章 承".toList else []) }

theorem onBody_action (type : ActionType) :
    (onBody type).planned.action = .ok ⟨type, (onBody type).planned.params⟩ := by
  rw [Planned.action, onBody]
  dsimp only
  rw [find_name]

/-- A write of the body spares its chapter, which survives. -/
theorem chapters_survive_iff_write : ChaptersSurvive novelTools oneChapter {} {} [onBody .writeArtifact] := by
  have hwhole : ∀ step ∈ [onBody .writeArtifact], step.OnWhole := by
    intro step hstep
    rw [List.mem_singleton.1 hstep]
    exact ⟨_, onBody_action .writeArtifact, Or.inl rfl⟩
  have hapart : Apart (bodyFile oneChapter {}) (onBody .writeArtifact) :=
    ⟨by decide +kernel, fun _ => rfl⟩
  refine (chapters_survive_iff novelTools oneChapter {} {} [onBody .writeArtifact] hwhole).2
    ⟨⟨fun _ => ?_, fun hno => absurd hapart hno⟩, fun _ _ => trivial⟩ _ (List.prefix_refl _)
  intro a ha w hw
  rw [onBody_action] at ha
  cases ha
  have hnone : (wholeWrite novelTools (Run.begin oneChapter {}) (onBody .writeArtifact)
      ⟨.writeArtifact, (onBody .writeArtifact).planned.params⟩).isNone = true := by
    decide +kernel
  rw [hw] at hnone
  cases hnone

/-- The piece that a write appends is all that an edit without a target leaves. -/
theorem next_piece_replaces_novel : loadProject novelTools.codec oneChapter.ws.disk "s1".toList = some {} ∧
    finished novelTools oneChapter {} = "第1章 起（第1章完）".toList ∧
    bodyText (executeActions novelTools [onBody .writeArtifact] (Run.begin oneChapter {})).1.exec.ws.disk
      (bodyFile oneChapter {}) = "第1章 起（第1章完）\n\n第2章 承".toList ∧
    bodyText (executeActions novelTools [onBody .editArtifact] (Run.begin oneChapter {})).1.exec.ws.disk
      (bodyFile oneChapter {}) = "第2章 承".toList ∧
    ¬ ChaptersSurvive novelTools oneChapter {} {} [onBody .editArtifact] := by
  have hruns : loadProject novelTools.codec oneChapter.ws.disk "s1".toList = some {} ∧
      finished novelTools oneChapter {} = "第1章 起（第1章完）".toList ∧
      bodyText (executeActions novelTools [onBody .writeArtifact] (Run.begin oneChapter {})).1.exec.ws.disk
        (bodyFile oneChapter {}) = "第1章 起（第1章完）\n\n第2章 承".toList ∧
      bodyText (executeActions novelTools [onBody .editArtifact] (Run.begin oneChapter {})).1.exec.ws.disk
        (bodyFile oneChapter {}) = "第2章 承".toList ∧
      ¬ "第1章 起（第1章完）".toList <+: "第2章 承".toList := by
    decide +kernel
  obtain ⟨hproject, hfinished, hwrite, hedit, hlost⟩ := hruns
  refine ⟨hproject, hfinished, hwrite, hedit, fun h => hlost ?_⟩
  rw [ChaptersSurvive, Keeps, hfinished, hedit] at h
  exact h

end AgentLangraph.Artifact
