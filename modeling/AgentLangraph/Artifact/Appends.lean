import AgentLangraph.Artifact.Plans

/-! What an append leaves in its file (`handle_append_text_artifact`). The chunks go into the open file one
    after the other, each checked before it is written; the first one that is refused leaves those before it
    where they are.

        old text ── separator ── chunk ── blank line ── chunk ── … ── refused -/

namespace AgentLangraph.Artifact
open PyText

/-- A chunk is set off by a blank line from what stands before it. -/
def Separated (existing : Text) (index : ℕ) : Prop :=
  (strip existing ≠ [] ∨ 0 < index) ∧ ¬ (index = 0 ∧ "\n\n".toList <:+ existing)

instance (existing : Text) (index : ℕ) : Decidable (Separated existing index) := inferInstanceAs (Decidable (_ ∧ _))

def separator (existing : Text) (index : ℕ) : Text := if Separated existing index then "\n\n".toList else []

/-- What the chunks add to the file. -/
def addedText (existing : Text) : ℕ → List Text → Text
  | _, [] => []
  | index, chunk :: chunks => separator existing index ++ chunk ++ addedText existing (index + 1) chunks

/-- The chunks before the first one that is refused, and why it is. -/
def accepted (cfg : Settings) (existing : Text) : ℕ → ℕ → List Text → List Text × Except Raise Unit
  | _, _, [] => ([], .ok ())
  | index, bytes, chunk :: chunks =>
    match checkSize cfg chunk bytes with
    | .error e => ([], .error e)
    | .ok _ =>
      let rest := accepted cfg existing (index + 1)
        (bytes + (if Separated existing index then 2 else 0) + utf8Len chunk) chunks
      (chunk :: rest.1, rest.2)

/-- The text of a file; none where there is no file. -/
def Disk.contents (d : Disk) (path : Path) : Text := (d.stored path).getD []

/-- A disk with another text in one file. -/
def Holds (d d' : Disk) (path : Path) (text : Text) : Prop :=
  ∀ q, d'.stored q = if path = q then some text else d.stored q

theorem holds_put (d : Disk) (path : Path) (t : Text) : Holds d (d.put path t) path t := fun q => stored_put d path q t

theorem holds_self {d : Disk} {path : Path} (h : (d.stored path).isSome) : Holds d d path (d.contents path) := by
  intro q
  split_ifs with hq
  · subst hq
    obtain ⟨t, ht⟩ := Option.isSome_iff_exists.1 h
    rw [Disk.contents, ht]
    rfl
  · rfl

theorem Holds.trans {d d₁ d₂ : Disk} {path : Path} {t u : Text} (h : Holds d d₁ path t)
    (h' : Holds d₁ d₂ path u) : Holds d d₂ path u := by
  intro q
  rw [h', h]
  split_ifs <;> rfl

theorem Holds.stored {d d' : Disk} {path : Path} {t : Text} (h : Holds d d' path t) :
    d'.stored path = some t := by
  rw [h, if_pos rfl]

theorem Holds.contents {d d' : Disk} {path : Path} {t : Text} (h : Holds d d' path t) :
    d'.contents path = t := by
  rw [Disk.contents, h.stored]
  rfl

theorem Holds.textAt {d d' : Disk} {path : Path} {t : Text} (h : Holds d d' path t) :
    d'.textAt path = some (universalNewlines t) := by
  rw [Disk.textAt, h.stored]
  rfl

theorem appendText_holds (d : Disk) (path : Path) (t : Text) :
    ∃ d', appendText path t d = (d', .ok ()) ∧ Holds d d' path (d.contents path ++ t) :=
  ⟨_, rfl, holds_put _ _ _⟩

theorem openAppend_holds {d : Disk} {path : Path} (h : d.unwritable path = none) :
    ∃ d', openAppend path d = (d', .ok ()) ∧ Holds d d' path (d.contents path) := by
  rw [openAppend, h]
  dsimp only
  split_ifs with hfile
  · exact ⟨d, rfl, holds_self (by simpa [Disk.stored, Disk.isFile] using hfile)⟩
  · have hnone : d.files.get? path = none := by simpa [Disk.isFile] using hfile
    have hempty : d.contents path = [] := by rw [Disk.contents, Disk.stored, hnone]; rfl
    rw [hempty]
    exact ⟨_, rfl, holds_put _ _ _⟩

theorem openAppend_error {d : Disk} {path : Path} (h : d.unwritable path ≠ none) :
    ∃ e, openAppend path d = (d, .error e) := by
  obtain ⟨e, he⟩ := Option.ne_none_iff_exists'.1 h
  rw [openAppend, he]
  exact ⟨e, rfl⟩

/-- The chunks that are accepted are added to the file, whatever comes after them. -/
theorem appendChunks_holds (cfg : Settings) (path : Path) (existing : Text) : ∀ (chunks : List Text)
    (index bytes : ℕ) (d : Disk), (d.stored path).isSome →
    ∃ d', appendChunks cfg path existing index bytes chunks d = (d', (accepted cfg existing index bytes chunks).2) ∧
      Holds d d' path (d.contents path ++ addedText existing index (accepted cfg existing index bytes chunks).1)
  | [], index, bytes, d, h => by
      rw [accepted, addedText, List.append_nil]
      exact ⟨d, rfl, holds_self h⟩
  | chunk :: chunks, index, bytes, d, h => by
      rw [appendChunks, accepted]
      cases hcheck : checkSize cfg chunk bytes with
      | error e =>
        rw [addedText, List.append_nil]
        exact ⟨d, rfl, holds_self h⟩
      | ok _ =>
        rw [Attempt.lift_ok_bind]
        -- the separator, the chunk, and then the other chunks
        have hrest : ∀ d₁ n, Holds d d₁ path (d.contents path ++ separator existing index) →
            ∃ d', (do
              appendText path chunk
              appendChunks cfg path existing (index + 1) n chunks : Io Unit) d₁ =
                (d', (accepted cfg existing (index + 1) n chunks).2) ∧
              Holds d d' path (d.contents path ++ addedText existing index
                (chunk :: (accepted cfg existing (index + 1) n chunks).1)) := by
          intro d₁ n h₁
          obtain ⟨d₂, happend, h₂⟩ := appendText_holds d₁ path chunk
          obtain ⟨d', hchunks, h'⟩ := appendChunks_holds cfg path existing chunks (index + 1) n d₂
            (by rw [h₂.stored]; rfl)
          refine ⟨d', (Attempt.bind_ok happend _).trans hchunks, ?_⟩
          have hall := (h₁.trans h₂).trans h'
          rw [h₂.contents, h₁.contents] at hall
          rwa [addedText, ← List.append_assoc, ← List.append_assoc]
        dsimp only
        by_cases hsep : Separated existing index
        · obtain ⟨d₁, happend, h₁⟩ := appendText_holds d path "\n\n".toList
          obtain ⟨d', hd', h'⟩ := hrest d₁ (bytes + 2 + utf8Len chunk) (by rwa [separator, if_pos hsep])
          rw [if_pos hsep]
          refine ⟨d', ?_, h'⟩
          simp only [if_pos (show (strip existing ≠ [] ∨ 0 < index) ∧ ¬ (index = 0 ∧ "\n\n".toList <:+ existing)
            from hsep)]
          exact (Attempt.bind_ok happend _).trans hd'
        · obtain ⟨d', hd', h'⟩ := hrest d (bytes + 0 + utf8Len chunk)
            (by rw [separator, if_neg hsep, List.append_nil]; exact holds_self h)
          rw [if_neg hsep]
          refine ⟨d', ?_, h'⟩
          simp only [if_neg (show ¬ ((strip existing ≠ [] ∨ 0 < index) ∧ ¬ (index = 0 ∧ "\n\n".toList <:+ existing))
            from hsep)]
          exact hd'

theorem splitLongText_eq_nil {cfg : Settings} {content : Text} : splitLongText cfg content = [] ↔ content = [] := by
  rw [splitLongText]
  split_ifs with hempty hshort
  · simp [hempty]
  · simp [hempty]
  · refine iff_of_false ?_ hempty
    split
    · exact List.cons_ne_nil _ _
    · next hchunks => exact hchunks

/-! ### The progress of the chapter -/

/-- The manifest that `post_chapter_write_update` puts down, if it does. -/
def savedManifest (c : Codec) (taskId filename : Text) (count : ℕ) (d : Disk) : Option Text :=
  if isBodyPath c d taskId filename then
    (loadProject c d taskId).map fun p =>
      c.dumps (chapterProgress c p (readBodyText d taskId filename) (some count))
  else none

theorem postChapterWriteUpdate_eq (c : Codec) (taskId filename : Text) (count : ℕ) (d : Disk) :
    postChapterWriteUpdate c taskId filename (some count) d =
      (match savedManifest c taskId filename count d with
        | some m => d.put (projectJsonPath taskId) m
        | none => d, .ok ()) := by
  have hask : ∀ f : Disk → Io Unit, (Attempt.ask id >>= f) d = f d d := fun _ => rfl
  rw [postChapterWriteUpdate, hask, savedManifest]
  cases hproject : loadProject c d taskId with
  | none => simp [isBodyPath, hproject]
  | some p =>
    dsimp only
    split_ifs <;> rfl

/-! ### The append that a call ends in -/

/-- An append whose file can be opened. -/
structure AppendPlan where
  taskId : Text
  filename : Text
  /-- The text of the file, as it is read. -/
  existing : Text
  content : Text

def AppendPlan.path (a : AppendPlan) : Path := filePath a.taskId a.filename

/-- What is appended to a body goes through `sanitize_body_append_content`. -/
def appendContent (t : Tools) (p : Params) (d : Disk) (taskId filename existing : Text) : Text :=
  if isBodyPath t.codec d taskId filename then
    sanitizeBodyAppendContent t.codec.digit existing (optional p "content")
  else optional p "content"

/-- The append of some parameters, of a disk. -/
def appendBodyPlan (t : Tools) (p : Params) (d : Disk) : Option AppendPlan := do
  let (taskId, filename) ← target p
  let d := d.mkdir [taskDir taskId]
  let existing ← (readIfExists (filePath taskId filename) d).2.toOption
  let content := appendContent t p d taskId filename existing
  if content = [] ∨ d.unwritable (filePath taskId filename) = none then
    some ⟨taskId, filename, existing, content⟩
  else none

/-- The chunks that go into the file, and what stops the others. -/
def AppendPlan.outcome (cfg : Settings) (a : AppendPlan) : List Text × Except Raise Unit :=
  accepted cfg a.existing 0 (utf8Len a.existing) (splitLongText cfg a.content)

def AppendPlan.added (cfg : Settings) (a : AppendPlan) : Text := addedText a.existing 0 (a.outcome cfg).1

/-- What is left to do once the name is accepted and the file has been read. -/
def AppendPlan.rest (t : Tools) (a : AppendPlan) : Io Result :=
  if splitLongText t.settings a.content = [] then
    pure { filename := a.filename, path := a.path, mode := "append".toList, bytes := 0 }
  else do
    openAppend a.path
    appendChunks t.settings a.path a.existing 0 (utf8Len a.existing) (splitLongText t.settings a.content)
    let total ← readText a.path
    postChapterWriteUpdate t.codec a.taskId a.filename
      (some (sliceCurrentChapterText t.codec.digit total).length)
    pure { filename := a.filename, path := a.path, mode := "append".toList, bytes := utf8Len a.content,
           chunksWritten := (splitLongText t.settings a.content).length }

theorem readIfExists_files (path : Path) (d : Disk) : (readIfExists path d).1 = d := by
  have hask : ∀ f : Disk → Io Text, (Attempt.ask id >>= f) d = f d d := fun _ => rfl
  rw [readIfExists, hask]
  split_ifs
  · rw [readText]
    split <;> rfl
  · rfl

theorem appendBodyPlan_eq_some_iff {t : Tools} {p : Params} {d : Disk} {a : AppendPlan} :
    appendBodyPlan t p d = some a ↔ target p = some (a.taskId, a.filename) ∧
      readIfExists a.path (d.mkdir [taskDir a.taskId]) = (d.mkdir [taskDir a.taskId], .ok a.existing) ∧
      a.content = appendContent t p (d.mkdir [taskDir a.taskId]) a.taskId a.filename a.existing ∧
      (a.content = [] ∨ (d.mkdir [taskDir a.taskId]).unwritable a.path = none) := by
  simp only [appendBodyPlan, Option.bind_eq_bind, Option.bind_eq_some_iff, toOption_eq_some_iff,
    Option.ite_none_right_eq_some, Option.some.injEq]
  constructor
  · rintro ⟨⟨taskId, filename⟩, htarget, existing, hread, hwrite, rfl⟩
    exact ⟨htarget, Prod.ext (readIfExists_files _ _) hread, rfl, hwrite⟩
  · rintro ⟨htarget, hread, hcontent, hwrite⟩
    refine ⟨_, htarget, a.existing, congrArg Prod.snd hread, ?_, ?_⟩
    · rw [← hcontent]
      exact hwrite
    · rw [← hcontent]

/-- An append with a plan comes to what is left of the plan. -/
theorem appendBody_of_plan {t : Tools} {p : Params} {d : Disk} {a : AppendPlan}
    (h : appendBodyPlan t p d = some a) : appendBody t p d = a.rest t (d.mkdir [taskDir a.taskId]) := by
  obtain ⟨htarget, hread, hcontent, -⟩ := appendBodyPlan_eq_some_iff.1 h
  obtain ⟨raw, htask, hraw, hname, hdir⟩ := target_eq_some_iff.1 htarget
  rw [AppendPlan.path, filePath] at hread
  rw [appendBody, htask, Attempt.lift_ok_bind, hraw, Attempt.lift_ok_bind, hname, Attempt.lift_ok_bind,
    Attempt.bind_ok (taskArtifactDir_ok hdir d), Attempt.bind_ok hread, Attempt.ask_bind_apply, AppendPlan.rest,
    hcontent]
  rfl

/-- An append without a plan raises, and leaves the files. -/
theorem appendBody_of_none {t : Tools} {p : Params} {d : Disk} (h : appendBodyPlan t p d = none) :
    ∃ d' e, appendBody t p d = (d', .error e) ∧ d'.files = d.files := by
  rw [appendBody]
  cases htask : required p "task_id" with
  | error e => exact ⟨d, e, rfl, rfl⟩
  | ok taskId =>
  rw [Attempt.lift_ok_bind]
  cases hraw : required p "filename" with
  | error e => exact ⟨d, e, rfl, rfl⟩
  | ok raw =>
  rw [Attempt.lift_ok_bind]
  cases hname : safeFilename raw with
  | error e => exact ⟨d, e, rfl, rfl⟩
  | ok filename =>
  rw [Attempt.lift_ok_bind]
  by_cases hdir : taskDir taskId = []
  · rw [taskArtifactDir_error hdir]
    exact ⟨d, _, rfl, rfl⟩
  rw [Attempt.bind_ok (taskArtifactDir_ok hdir d)]
  have hfiles := readIfExists_files (joinPath [taskDir taskId] filename) (d.mkdir [taskDir taskId])
  cases hread : (readIfExists (joinPath [taskDir taskId] filename) (d.mkdir [taskDir taskId])).2 with
  | error e =>
    rw [Attempt.bind_error (Prod.ext hfiles hread)]
    exact ⟨_, e, rfl, mkdir_files ..⟩
  | ok existing =>
  rw [Attempt.bind_ok (Prod.ext hfiles hread), Attempt.ask_bind_apply]
  set a : AppendPlan := ⟨taskId, filename, existing,
    appendContent t p (d.mkdir [taskDir taskId]) taskId filename existing⟩ with ha
  have hplan : ¬ (a.content = [] ∨ (d.mkdir [taskDir taskId]).unwritable a.path = none) := by
    intro hwrite
    rw [(appendBodyPlan_eq_some_iff (a := a)).2 ⟨target_eq_some_iff.2 ⟨raw, htask, hraw, hname, hdir⟩,
      Prod.ext hfiles hread, rfl, hwrite⟩] at h
    cases h
  rw [not_or] at hplan
  obtain ⟨e, he⟩ := openAppend_error hplan.2
  change ∃ d' e, a.rest t (d.mkdir [taskDir taskId]) = (d', .error e) ∧ d'.files = d.files
  rw [AppendPlan.rest, if_neg (mt splitLongText_eq_nil.1 hplan.1), Attempt.bind_error he]
  exact ⟨_, e, rfl, mkdir_files ..⟩

/-- Nothing to append. -/
theorem rest_empty {t : Tools} {a : AppendPlan} (h : a.content = []) (d : Disk) :
    ∃ r, a.rest t d = (d, .ok r) ∧ r.status = "ok".toList ∧ r.path = a.path := by
  rw [AppendPlan.rest, if_pos (splitLongText_eq_nil.2 h)]
  exact ⟨_, rfl, rfl, rfl⟩

theorem rest_chunks {t : Tools} {a : AppendPlan} (h : a.content ≠ []) {d : Disk} (hwrite : d.unwritable a.path = none) :
    ∃ d₁, Holds d d₁ a.path (d.contents a.path ++ a.added t.settings) ∧
      a.rest t d = (do
        Attempt.lift (a.outcome t.settings).2
        let total ← readText a.path
        postChapterWriteUpdate t.codec a.taskId a.filename
          (some (sliceCurrentChapterText t.codec.digit total).length)
        pure { filename := a.filename, path := a.path, mode := "append".toList, bytes := utf8Len a.content,
               chunksWritten := (splitLongText t.settings a.content).length } : Io Result) d₁ := by
  obtain ⟨d₀, hopen, h₀⟩ := openAppend_holds hwrite
  obtain ⟨d₁, hchunks, h₁⟩ := appendChunks_holds t.settings a.path a.existing (splitLongText t.settings a.content) 0
    (utf8Len a.existing) d₀ (by rw [h₀.stored]; rfl)
  refine ⟨d₁, ?_, ?_⟩
  · have hall := h₀.trans h₁
    rwa [h₀.contents] at hall
  · rw [AppendPlan.rest, if_neg (mt splitLongText_eq_nil.1 h), Attempt.bind_ok hopen]
    cases hout : (a.outcome t.settings).2 with
    | error e =>
      rw [AppendPlan.outcome] at hout
      rw [hout] at hchunks
      rw [Attempt.bind_error hchunks]
      rfl
    | ok _ =>
      rw [AppendPlan.outcome] at hout
      rw [hout] at hchunks
      rw [Attempt.bind_ok hchunks, Attempt.lift_ok_bind]

/-- A chunk is refused: the ones before it have been added to the file. -/
theorem rest_refused {t : Tools} {a : AppendPlan} (h : a.content ≠ []) {d : Disk}
    (hwrite : d.unwritable a.path = none) {e : Raise} (he : (a.outcome t.settings).2 = .error e) :
    ∃ d', a.rest t d = (d', .error e) ∧ Holds d d' a.path (d.contents a.path ++ a.added t.settings) := by
  obtain ⟨d₁, h₁, hrest⟩ := rest_chunks h hwrite
  rw [he] at hrest
  exact ⟨d₁, hrest, h₁⟩

/-- All chunks are accepted: they have been added, and the progress of the chapter is put down. -/
theorem rest_done {t : Tools} {a : AppendPlan} (h : a.content ≠ []) {d : Disk}
    (hwrite : d.unwritable a.path = none) (hok : (a.outcome t.settings).2 = .ok ()) :
    ∃ d₁ r, Holds d d₁ a.path (d.contents a.path ++ a.added t.settings) ∧
      a.rest t d = ((postChapterWriteUpdate t.codec a.taskId a.filename (some (sliceCurrentChapterText t.codec.digit
        (universalNewlines (d.contents a.path ++ a.added t.settings))).length) d₁).1, .ok r) ∧
      r.status = "ok".toList ∧ r.path = a.path := by
  obtain ⟨d₁, h₁, hrest⟩ := rest_chunks h hwrite
  rw [hok, Attempt.lift_ok_bind, Attempt.bind_ok (readText_some h₁.textAt),
    Attempt.bind_ok (postChapterWriteUpdate_ok ..)] at hrest
  exact ⟨d₁, _, h₁, hrest, rfl, rfl⟩

/-- The append that a call ends in, of a disk. -/
def appendPlan (t : Tools) (fence : Fence) (p : Params) (d : Disk) : Option AppendPlan :=
  if assertWriteAllowed fence = .ok () then (redirected t p d).bind fun q => appendBodyPlan t q d else none

theorem handleAppend_of_plan {t : Tools} {fence : Fence} {p : Params} {d : Disk} {a : AppendPlan}
    (h : appendPlan t fence p d = some a) :
    handleAppendTextArtifact t fence p d = a.rest t (d.mkdir [taskDir a.taskId]) := by
  rw [appendPlan, Option.ite_none_right_eq_some, Option.bind_eq_some_iff] at h
  obtain ⟨hfence, q, hq, hbody⟩ := h
  rw [handleAppendTextArtifact, guardedWrite_of_redirected hfence hq]
  exact appendBody_of_plan hbody

theorem appendPlan_writable {t : Tools} {fence : Fence} {p : Params} {d : Disk} {a : AppendPlan}
    (h : appendPlan t fence p d = some a) :
    a.content = [] ∨ (d.mkdir [taskDir a.taskId]).unwritable a.path = none := by
  rw [appendPlan, Option.ite_none_right_eq_some, Option.bind_eq_some_iff] at h
  obtain ⟨-, q, -, hplan⟩ := h
  exact (appendBodyPlan_eq_some_iff.1 hplan).2.2.2

/-- An append without a plan leaves the files, and gives back nothing but an error. -/
theorem handleAppend_of_none {t : Tools} {fence : Fence} {p : Params} {d : Disk}
    (h : appendPlan t fence p d = none) :
    ∃ d' r, handleAppendTextArtifact t fence p d = (d', r) ∧ d'.files = d.files ∧
      ∀ res, r = .ok res → res.status = "error".toList ∧ res.replacements = none := by
  rw [handleAppendTextArtifact]
  cases hfence : assertWriteAllowed fence with
  | error e => exact ⟨d, _, guardedWrite_refused hfence p _ d, rfl, of_error⟩
  | ok _ =>
    rw [appendPlan, if_pos hfence] at h
    cases hq : redirected t p d with
    | none =>
      obtain ⟨r, hr, herror⟩ := guardedWrite_of_none hfence hq (appendBody t)
      exact ⟨d, r, hr, rfl, herror⟩
    | some q =>
      rw [hq, Option.bind_some] at h
      obtain ⟨d', e, he, hfiles⟩ := appendBody_of_none h
      exact ⟨d', .error e, (guardedWrite_of_redirected hfence hq _).trans he, hfiles, of_error⟩

end AgentLangraph.Artifact
