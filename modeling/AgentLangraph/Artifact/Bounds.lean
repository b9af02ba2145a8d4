import AgentLangraph.Artifact.Fidelity
import AgentLangraph.Lib.Trace

/-! How large the files of a task become, and what a failing tool leaves behind. A write checks its chunks before
    it opens the file, an append while the file is open, and neither counts the blank lines between the chunks;
    an edit checks the whole text.

        check chunk ──▶ separator ──▶ chunk ──▶ check chunk ──✗ raises
                        └────── in the file already ──────┘ -/

namespace AgentLangraph.Artifact
open PyText Trace

/-- A call of a tool that changes a file; a batch of edits is an edit. -/
inductive Mutation
  | write (fence : Fence) (p : Params)
  | append (fence : Fence) (p : Params)
  | edit (p : Params)

namespace Mutation

variable (t : Tools)

def run : Mutation → Io Result
  | .write fence p => handleWriteTextArtifact t fence p
  | .append fence p => handleAppendTextArtifact t fence p
  | .edit p => handleEditTextArtifact t p

/-- The file that the call is for, as far as it comes to one. -/
def path (m : Mutation) (d : Disk) : Option Path :=
  match m with
  | .write fence p | .append fence p =>
    if assertWriteAllowed fence = .ok () then
      ((redirected t p d).bind target).map fun f => filePath f.1 f.2
    else none
  | .edit p => (target p).map fun f => filePath f.1 f.2

end Mutation

def GoesThrough (r : Except Raise Result) : Prop := ∃ res, r = .ok res ∧ res.status = "ok".toList

/-- The call fails and leaves its file, or it succeeds and the file is within the limit. A file that is not
    there counts as an empty one. -/
def AllOrNothing (t : Tools) (m : Mutation) (d : Disk) : Prop :=
  ∀ path, m.path t d = some path →
    ¬ GoesThrough (m.run t d).2 ∧ (m.run t d).1.contents path = d.contents path ∨
      GoesThrough (m.run t d).2 ∧ utf8Len ((m.run t d).1.contents path) ≤ t.settings.maxFileBytes

/-- The bytes of the chunks, with the blank lines between them. -/
def joinedBytes (cfg : Settings) (content : Text) : ℕ :=
  ((splitLongText cfg content).map utf8Len).sum + 2 * ((splitLongText cfg content).length - 1)

/-- The separators are counted, no chunk after the first is refused, and a file that is left as it is was within
    the limit. -/
def Fits (t : Tools) (m : Mutation) (d : Disk) : Prop :=
  match m with
  | .write fence p => ∀ w, writePlan t fence p d = some w →
    match resaved t.codec w.taskId w.filename w.text.length w.text with
    | some manifest => utf8Len manifest ≤ t.settings.maxFileBytes
    | none => joinedBytes t.settings (optional p "content") ≤ t.settings.maxFileBytes
  | .append fence p => ∀ a, appendPlan t fence p d = some a →
    if a.content = [] then utf8Len (d.contents a.path) ≤ t.settings.maxFileBytes
    else
      match (a.outcome t.settings).2 with
      | .error _ => (a.outcome t.settings).1 = []
      | .ok _ =>
        let text := d.contents a.path ++ a.added t.settings
        match resaved t.codec a.taskId a.filename
            (sliceCurrentChapterText t.codec.digit (universalNewlines text)).length text with
        | some manifest => utf8Len manifest ≤ t.settings.maxFileBytes
        | none => utf8Len (d.contents a.path) + utf8Len (separator a.existing 0) +
            joinedBytes t.settings a.content ≤ t.settings.maxFileBytes
  | .edit p => ∀ e, editPlan t p d = some e → dryRun p →
    utf8Len (d.contents e.path) ≤ t.settings.maxFileBytes

/-! ### Bytes -/

theorem utf8Len_append (x y : Text) : utf8Len (x ++ y) = utf8Len x + utf8Len y := by
  rw [utf8Len, List.map_append, List.sum_append]
  rfl

theorem utf8Len_intercalate : ∀ chunks : List Text,
    utf8Len ("\n\n".toList.intercalate chunks) = (chunks.map utf8Len).sum + 2 * (chunks.length - 1)
  | [] => rfl
  | [chunk] => by rw [List.intercalate_singleton]; simp
  | chunk :: next :: chunks => by
      have hsep : utf8Len "\n\n".toList = 2 := by decide
      rw [List.intercalate_cons_cons, utf8Len_append, utf8Len_append, utf8Len_intercalate (next :: chunks), hsep]
      simp only [List.map_cons, List.sum_cons, List.length_cons]
      omega

theorem utf8Len_joined (cfg : Settings) (content : Text) : utf8Len (joined cfg content) = joinedBytes cfg content :=
  utf8Len_intercalate _

theorem checkSize_ok {cfg : Settings} {content : Text} {bytes : ℕ} (h : checkSize cfg content bytes = .ok ()) :
    bytes + utf8Len content ≤ cfg.maxFileBytes := by
  rw [checkSize] at h
  split_ifs at h with hwrite hfile
  exact Nat.le_of_not_lt hfile

theorem checked_size {cfg : Settings} {x : Except Raise (Text × ℕ)} {r : Text × ℕ}
    (h : (x >>= fun r => checkSize cfg r.1 0 >>= fun _ => .ok r) = .ok r) : utf8Len r.1 ≤ cfg.maxFileBytes := by
  cases x with
  | error e => cases h
  | ok r' =>
    change (checkSize cfg r'.1 0 >>= fun _ => Except.ok r') = .ok r at h
    cases hcheck : checkSize cfg r'.1 0 with
    | error e =>
      rw [hcheck] at h
      cases h
    | ok _ =>
      rw [hcheck] at h
      have hsize := checkSize_ok hcheck
      rwa [Nat.zero_add, Except.ok.inj h] at hsize

/-- An edit that goes through is within the limit. -/
theorem editedText_size {t : Tools} {p : Params} {startLine endLine occurrenceIndex : Option ℤ} {original : Text}
    {r : Text × ℕ} (h : editedText t p startLine endLine occurrenceIndex original = .ok r) :
    utf8Len r.1 ≤ t.settings.maxFileBytes := by
  rw [editedText] at h
  split_ifs at h <;> exact checked_size h

/-! ### One call -/

theorem goesThrough_ok {res : Result} (h : res.status = "ok".toList) : GoesThrough (.ok res) := ⟨res, rfl, h⟩

theorem not_goesThrough_error (e : Raise) : ¬ GoesThrough (.error e) := by
  rintro ⟨res, h, -⟩
  cases h

/-- What gives back nothing but an error has not gone through. -/
theorem not_goesThrough {r : Except Raise Result}
    (h : ∀ res, r = .ok res → res.status = "error".toList ∧ res.replacements = none) : ¬ GoesThrough r := by
  rintro ⟨res, hres, hstatus⟩
  have hbad := (h res hres).1
  rw [hstatus] at hbad
  exact absurd hbad (by decide)

theorem contents_of_files {d d' : Disk} (h : d'.files = d.files) (path : Path) :
    d'.contents path = d.contents path := by
  rw [Disk.contents, Disk.stored, h, Disk.contents, Disk.stored]

/-- A call that leaves the files and does not go through. -/
theorem allOrNothing_of_fails {t : Tools} {m : Mutation} {d d' : Disk} {r : Except Raise Result}
    (hrun : m.run t d = (d', r)) (hfiles : d'.files = d.files) (hfails : ¬ GoesThrough r) : AllOrNothing t m d := by
  intro path _
  rw [hrun]
  exact Or.inl ⟨hfails, contents_of_files hfiles path⟩

/-- A call that goes through. -/
theorem allOrNothing_iff_of_ok {t : Tools} {m : Mutation} {d d' : Disk} {res : Result} {path : Path}
    (hpath : m.path t d = some path) (hrun : m.run t d = (d', .ok res)) (hstatus : res.status = "ok".toList) :
    AllOrNothing t m d ↔ utf8Len (d'.contents path) ≤ t.settings.maxFileBytes := by
  have hthrough := goesThrough_ok hstatus
  rw [AllOrNothing, hrun]
  constructor
  · intro h
    exact ((h path hpath).resolve_left fun hno => hno.1 hthrough).2
  · intro h path' hpath'
    rw [hpath, Option.some.injEq] at hpath'
    rw [← hpath']
    exact Or.inr ⟨hthrough, h⟩

/-- A call that raises. -/
theorem allOrNothing_iff_of_error {t : Tools} {m : Mutation} {d d' : Disk} {e : Raise} {path : Path}
    (hpath : m.path t d = some path) (hrun : m.run t d = (d', .error e)) :
    AllOrNothing t m d ↔ d'.contents path = d.contents path := by
  have hfails := not_goesThrough_error e
  rw [AllOrNothing, hrun]
  constructor
  · intro h
    exact ((h path hpath).resolve_right fun hno => hfails hno.1).2
  · intro h path' hpath'
    rw [hpath, Option.some.injEq] at hpath'
    rw [← hpath']
    exact Or.inl ⟨hfails, h⟩

theorem path_of_writePlan {t : Tools} {fence : Fence} {p : Params} {d : Disk} {w : WritePlan}
    (h : writePlan t fence p d = some w) : (Mutation.write fence p).path t d = some w.path := by
  rw [writePlan, Option.ite_none_right_eq_some, Option.bind_eq_some_iff] at h
  obtain ⟨hfence, q, hq, hbody⟩ := h
  rw [Mutation.path, if_pos hfence, hq, Option.bind_some, (bodyPlan_eq_some_iff.1 hbody).1]
  rfl

theorem path_of_appendPlan {t : Tools} {fence : Fence} {p : Params} {d : Disk} {a : AppendPlan}
    (h : appendPlan t fence p d = some a) : (Mutation.append fence p).path t d = some a.path := by
  rw [appendPlan, Option.ite_none_right_eq_some, Option.bind_eq_some_iff] at h
  obtain ⟨hfence, q, hq, hbody⟩ := h
  rw [Mutation.path, if_pos hfence, hq, Option.bind_some, (appendBodyPlan_eq_some_iff.1 hbody).1]
  rfl

theorem path_of_editPlan {t : Tools} {p : Params} {d : Disk} {e : EditPlan} (h : editPlan t p d = some e) :
    (Mutation.edit p).path t d = some e.path := by
  rw [Mutation.path, (editPlan_eq_some_iff.1 h).1]
  rfl

theorem write_allOrNothing_iff (t : Tools) (fence : Fence) (p : Params) (d : Disk) :
    AllOrNothing t (.write fence p) d ↔ Fits t (.write fence p) d := by
  rw [Fits]
  cases hw : writePlan t fence p d with
  | none =>
    obtain ⟨d', r, hrun, hfiles, herror⟩ := handleWrite_of_none hw
    exact iff_of_true (allOrNothing_of_fails hrun hfiles (not_goesThrough herror)) fun w h => by cases h
  | some w =>
    obtain ⟨r, hrun, hstatus, -, -⟩ := handleWrite_of_plan hw
    rw [allOrNothing_iff_of_ok (path_of_writePlan hw) hrun hstatus]
    have hiff : utf8Len ((w.after t d).contents w.path) ≤ t.settings.maxFileBytes ↔
        match resaved t.codec w.taskId w.filename w.text.length w.text with
        | some manifest => utf8Len manifest ≤ t.settings.maxFileBytes
        | none => joinedBytes t.settings (optional p "content") ≤ t.settings.maxFileBytes := by
      rw [Disk.contents, stored_after, Option.getD_some]
      cases resaved t.codec w.taskId w.filename w.text.length w.text with
      | some manifest => exact Iff.rfl
      | none => rw [Option.getD_none, writePlan_text hw, utf8Len_joined]
    rw [hiff]
    exact ⟨fun h w' hw' => Option.some.inj hw' ▸ h, fun h => h w rfl⟩

theorem edit_allOrNothing_iff (t : Tools) (p : Params) (d : Disk) :
    AllOrNothing t (.edit p) d ↔ Fits t (.edit p) d := by
  rw [Fits]
  cases he : editPlan t p d with
  | none =>
    obtain ⟨d', e, hrun, hfiles⟩ := handleEdit_of_none he
    exact iff_of_true (allOrNothing_of_fails hrun hfiles (not_goesThrough_error e)) fun e h => by cases h
  | some e =>
    rw [allOrNothing_iff_of_ok (path_of_editPlan he) (handleEdit_of_plan he) rfl, Disk.contents, after_stored]
    obtain ⟨-, -, -, occ, start, stop, -, -, -, hr⟩ := editPlan_eq_some_iff.1 he
    have hsize := editedText_size hr
    cases hdry : dryRun p with
    | true =>
      rw [if_neg (by simp)]
      exact ⟨fun h e' he' _ => Option.some.inj he' ▸ h, fun h => h e rfl rfl⟩
    | false =>
      rw [if_pos ⟨rfl, rfl⟩]
      exact iff_of_true hsize fun e' he' hdry' => (Bool.false_ne_true hdry').elim

theorem chunk_ne_nil {cfg : Settings} {content chunk : Text} (h : chunk ∈ splitLongText cfg content) : chunk ≠ [] := by
  rw [splitLongText] at h
  split_ifs at h with hempty hshort
  · cases h
  · rwa [List.mem_singleton.1 h]
  · split at h
    · rwa [List.mem_singleton.1 h]
    · rw [splitFromCursor_eq] at h
      simpa using (List.mem_filter.1 h).2

theorem prefix_accepted (cfg : Settings) (existing : Text) : ∀ (chunks : List Text) (index bytes : ℕ),
    (accepted cfg existing index bytes chunks).1 <+: chunks
  | [], _, _ => List.prefix_rfl
  | chunk :: chunks, index, bytes => by
      rw [accepted]
      cases checkSize cfg chunk bytes with
      | error e => exact List.nil_prefix
      | ok _ => exact List.cons_prefix_cons.2 ⟨rfl, prefix_accepted cfg existing chunks _ _⟩

/-- Nothing is added exactly where the first chunk is refused. -/
theorem added_eq_nil_iff {cfg : Settings} {a : AppendPlan} : a.added cfg = [] ↔ (a.outcome cfg).1 = [] := by
  rw [AppendPlan.added]
  cases hchunks : (a.outcome cfg).1 with
  | nil => exact iff_of_true rfl rfl
  | cons chunk chunks =>
    have hmem : chunk ∈ splitLongText cfg a.content := by
      refine (prefix_accepted cfg a.existing _ 0 (utf8Len a.existing)).subset ?_
      change chunk ∈ (a.outcome cfg).1
      rw [hchunks]
      exact List.mem_cons_self
    refine iff_of_false ?_ (List.cons_ne_nil _ _)
    rw [addedText]
    simp [chunk_ne_nil hmem]

theorem append_allOrNothing_iff (t : Tools) (fence : Fence) (p : Params) (d : Disk) :
    AllOrNothing t (.append fence p) d ↔ Fits t (.append fence p) d := by
  rw [Fits]
  cases ha : appendPlan t fence p d with
  | none =>
    obtain ⟨d', r, hrun, hfiles, herror⟩ := handleAppend_of_none ha
    exact iff_of_true (allOrNothing_of_fails hrun hfiles (not_goesThrough herror)) fun a h => by cases h
  | some a =>
    have hpath := path_of_appendPlan ha
    have hall : ∀ P : AppendPlan → Prop, (∀ a', some a = some a' → P a') ↔ P a := fun P =>
      ⟨fun h => h a rfl, fun h a' ha' => Option.some.inj ha' ▸ h⟩
    rw [hall]
    split_ifs with hcontent
    · obtain ⟨r, hrest, hstatus, -⟩ := rest_empty (t := t) hcontent (d.mkdir [taskDir a.taskId])
      rw [allOrNothing_iff_of_ok hpath ((handleAppend_of_plan ha).trans hrest) hstatus, mkdir_contents]
    · cases hout : (a.outcome t.settings).2 with
      | error e =>
        obtain ⟨d₁, hrest, hholds⟩ := rest_refused hcontent ((appendPlan_writable ha).resolve_left hcontent) hout
        rw [allOrNothing_iff_of_error hpath ((handleAppend_of_plan ha).trans hrest), hholds.contents, mkdir_contents,
          List.append_right_eq_self, added_eq_nil_iff]
      | ok _ =>
        obtain ⟨d', r, hrun, hstatus, -, hafter⟩ := handleAppend_contents ha hcontent hout
        rw [allOrNothing_iff_of_ok hpath hrun hstatus, hafter]
        dsimp only
        split
        · next manifest hsaved => rw [hsaved, Option.getD_some]
        · next hnone =>
          have hadded : a.added t.settings = separator a.existing 0 ++ joined t.settings a.content := by
            rw [AppendPlan.added, AppendPlan.outcome, accepted_all hout, addedText_joined hcontent]
          rw [hnone, Option.getD_none, hadded, utf8Len_append, utf8Len_append, utf8Len_joined, Nat.add_assoc]

/-- A call is all or nothing, and bounded, exactly where it fits. -/
theorem allOrNothing_iff (t : Tools) (m : Mutation) (d : Disk) : AllOrNothing t m d ↔ Fits t m d := by
  cases m with
  | write fence p => exact write_allOrNothing_iff t fence p d
  | append fence p => exact append_allOrNothing_iff t fence p d
  | edit p => exact edit_allOrNothing_iff t p d

/-! ### Sequences of calls -/

/-- All files are within the limit. -/
def Within (cfg : Settings) (d : Disk) : Prop :=
  ∀ path text, d.stored path = some text → utf8Len text ≤ cfg.maxFileBytes

/-- The manifest that is put down after the body has been written is within the limit. -/
def ManifestFits (t : Tools) (m : Mutation) (d : Disk) : Prop :=
  match m with
  | .write fence p => ∀ w, writePlan t fence p d = some w → ∀ manifest,
    savedManifest t.codec w.taskId w.filename w.text.length (w.written d) = some manifest →
      utf8Len manifest ≤ t.settings.maxFileBytes
  | .append fence p => ∀ a, appendPlan t fence p d = some a → a.content ≠ [] → (a.outcome t.settings).2 = .ok () →
    let text := d.contents a.path ++ a.added t.settings
    ∀ manifest, savedManifest t.codec a.taskId a.filename
        (sliceCurrentChapterText t.codec.digit (universalNewlines text)).length (d.put a.path text) = some manifest →
      utf8Len manifest ≤ t.settings.maxFileBytes
  | .edit _ => True

def Mutation.step (t : Tools) (d : Disk) (m : Mutation) : Disk := (m.run t d).1

theorem savedManifest_congr {c : Codec} {taskId filename : Text} {count : ℕ} {d d' : Disk}
    (h : ∀ q, d'.stored q = d.stored q) :
    savedManifest c taskId filename count d' = savedManifest c taskId filename count d := by
  have hproject : loadProject c d' taskId = loadProject c d taskId := by
    rw [loadProject, loadProject, Disk.textAt, h, Disk.textAt]
  have hbody : readBodyText d' taskId filename = readBodyText d taskId filename := by
    rw [readBodyText, readBodyText, Disk.textAt, h, Disk.textAt]
  rw [savedManifest, savedManifest, isBodyPath, isBodyPath, hproject, hbody]

theorem Within.contents {cfg : Settings} {d : Disk} (h : Within cfg d) (path : Path) :
    utf8Len (d.contents path) ≤ cfg.maxFileBytes := by
  rw [Disk.contents]
  cases hstored : d.stored path with
  | none => exact Nat.zero_le _
  | some text => exact h path text hstored

theorem within_congr {cfg : Settings} {d d' : Disk} (h : ∀ q, d'.stored q = d.stored q) :
    Within cfg d' ↔ Within cfg d := by
  simp only [Within, h]

theorem Within.holds {cfg : Settings} {d d' : Disk} {path : Path} {text : Text} (h : Within cfg d)
    (hholds : Holds d d' path text) (htext : utf8Len text ≤ cfg.maxFileBytes) : Within cfg d' := by
  intro q u hq
  rw [hholds q] at hq
  split_ifs at hq
  · rwa [← Option.some.inj hq]
  · exact h q u hq

/-- After a file has been written within the limit, all files are exactly where the manifest is. -/
theorem within_postChapterWriteUpdate_iff {t : Tools} {d d₁ : Disk} {taskId filename text : Text} {count : ℕ}
    (h : Within t.settings d) (hholds : Holds d d₁ (filePath taskId filename) text)
    (hafter : utf8Len ((postChapterWriteUpdate t.codec taskId filename (some count) d₁).1.contents
      (filePath taskId filename)) ≤ t.settings.maxFileBytes) :
    Within t.settings (postChapterWriteUpdate t.codec taskId filename (some count) d₁).1 ↔
      ∀ manifest, savedManifest t.codec taskId filename count d₁ = some manifest →
        utf8Len manifest ≤ t.settings.maxFileBytes := by
  rw [postChapterWriteUpdate_eq] at hafter ⊢
  cases hsaved : savedManifest t.codec taskId filename count d₁ with
  | none =>
    rw [hsaved] at hafter
    rw [hholds.contents] at hafter
    exact iff_of_true (h.holds hholds hafter) fun manifest hm => by cases hm
  | some manifest =>
    rw [hsaved] at hafter
    constructor
    · intro hwithin manifest' hm
      refine hwithin (projectJsonPath taskId) manifest' ?_
      rw [← Option.some.inj hm, stored_put, if_pos rfl]
    · intro hm q u hq
      by_cases hfile : filePath taskId filename = q
      · subst hfile
        rw [Disk.contents, hq] at hafter
        exact hafter
      · rw [stored_put] at hq
        split_ifs at hq
        · rw [← Option.some.inj hq]
          exact hm manifest rfl
        · rw [hholds q, if_neg hfile] at hq
          exact h q u hq

theorem write_within_iff {t : Tools} {fence : Fence} {p : Params} {d : Disk} (h : Within t.settings d)
    (hall : AllOrNothing t (.write fence p) d) :
    Within t.settings (Mutation.step t d (.write fence p)) ↔ ManifestFits t (.write fence p) d := by
  rw [ManifestFits, Mutation.step, Mutation.run]
  cases hw : writePlan t fence p d with
  | none =>
    obtain ⟨d', r, hrun, hfiles, -⟩ := handleWrite_of_none hw
    rw [hrun]
    refine iff_of_true ((within_congr fun q => ?_).2 h) fun w hw => by cases hw
    rw [Disk.stored, hfiles, Disk.stored]
  | some w =>
    obtain ⟨r, hrun, hstatus, -, -⟩ := handleWrite_of_plan hw
    have hafter := (allOrNothing_iff_of_ok (path_of_writePlan hw) hrun hstatus).1 hall
    have hholds : Holds d (w.written d) w.path w.text := by
      intro q
      rw [WritePlan.written, stored_put, mkdir_stored]
    rw [hrun]
    refine (within_postChapterWriteUpdate_iff h hholds hafter).trans ?_
    exact ⟨fun h w' hw' => Option.some.inj hw' ▸ h, fun h => h w rfl⟩

theorem append_within_iff {t : Tools} {fence : Fence} {p : Params} {d : Disk} (h : Within t.settings d)
    (hall : AllOrNothing t (.append fence p) d) :
    Within t.settings (Mutation.step t d (.append fence p)) ↔ ManifestFits t (.append fence p) d := by
  rw [ManifestFits, Mutation.step, Mutation.run]
  cases ha : appendPlan t fence p d with
  | none =>
    obtain ⟨d', r, hrun, hfiles, -⟩ := handleAppend_of_none ha
    rw [hrun]
    refine iff_of_true ((within_congr fun q => ?_).2 h) fun a ha => by cases ha
    rw [Disk.stored, hfiles, Disk.stored]
  | some a =>
    rw [handleAppend_of_plan ha]
    by_cases hcontent : a.content = []
    · obtain ⟨r, hrest, -, -⟩ := rest_empty (t := t) hcontent (d.mkdir [taskDir a.taskId])
      rw [hrest]
      refine iff_of_true ((within_congr fun q => mkdir_stored ..).2 h) fun a' ha' hne => ?_
      rw [← Option.some.inj ha'] at hne
      exact absurd hcontent hne
    have hwrite := (appendPlan_writable ha).resolve_left hcontent
    have hmkdir : ∀ {d₁ : Disk} {text : Text}, Holds (d.mkdir [taskDir a.taskId]) d₁ a.path text →
        Holds d d₁ a.path text := by
      intro d₁ text hholds q
      rw [hholds q, mkdir_stored]
    cases hout : (a.outcome t.settings).2 with
    | error e =>
      obtain ⟨d₁, hrest, hholds⟩ := rest_refused hcontent hwrite hout
      rw [hrest]
      have hkept := (allOrNothing_iff_of_error (path_of_appendPlan ha) ((handleAppend_of_plan ha).trans hrest)).1 hall
      rw [← hholds.contents] at hholds
      rw [hkept] at hholds
      refine iff_of_true (h.holds (hmkdir hholds) (h.contents _)) fun a' ha' _ hok => ?_
      rw [← Option.some.inj ha', hout] at hok
      cases hok
    | ok _ =>
      obtain ⟨d₁, r, hholds, hrest, hstatus, -⟩ := rest_done hcontent hwrite hout
      have hafter := (allOrNothing_iff_of_ok (path_of_appendPlan ha) ((handleAppend_of_plan ha).trans hrest)
        hstatus).1 hall
      rw [hrest]
      refine (within_postChapterWriteUpdate_iff h (hmkdir hholds) hafter).trans ?_
      rw [mkdir_contents] at hholds
      have hsame : ∀ q, (d.put a.path (d.contents a.path ++ a.added t.settings)).stored q = d₁.stored q := by
        intro q
        rw [hmkdir hholds q, stored_put]
      rw [mkdir_contents]
      constructor
      · intro hm a' ha' _ _ text manifest hsaved
        obtain rfl := Option.some.inj ha'
        rw [savedManifest_congr hsame] at hsaved
        exact hm manifest hsaved
      · intro hm manifest hsaved
        exact hm a rfl hcontent hout manifest (by rw [savedManifest_congr hsame]; exact hsaved)

theorem edit_within {t : Tools} {p : Params} {d : Disk} (h : Within t.settings d) :
    Within t.settings (Mutation.step t d (.edit p)) := by
  rw [Mutation.step, Mutation.run]
  cases he : editPlan t p d with
  | none =>
    obtain ⟨d', e, hrun, hfiles⟩ := handleEdit_of_none he
    rw [hrun]
    refine (within_congr fun q => ?_).2 h
    rw [Disk.stored, hfiles, Disk.stored]
  | some e =>
    obtain ⟨-, -, -, occ, start, stop, -, -, -, hr⟩ := editPlan_eq_some_iff.1 he
    rw [handleEdit_of_plan he]
    intro q u hq
    rw [after_stored] at hq
    split_ifs at hq
    · rw [← Option.some.inj hq]
      exact editedText_size hr
    · exact h q u hq

theorem step_within_iff {t : Tools} {m : Mutation} {d : Disk} (h : Within t.settings d) :
    AllOrNothing t m d ∧ Within t.settings (Mutation.step t d m) ↔ Fits t m d ∧ ManifestFits t m d := by
  rw [← allOrNothing_iff]
  refine and_congr_right fun hall => ?_
  cases m with
  | write fence p => exact write_within_iff h hall
  | append fence p => exact append_within_iff h hall
  | edit p => exact iff_of_true (edit_within h) trivial

/-- Chunks of four characters, files of eight bytes. -/
def smallFiles : Tools := { plainTools with settings := { chunkChars := 4, maxFileBytes := 8 } }

/-- A task with a file of four bytes. -/
def fourBytes : Disk where
  files := PyDict.ofList [(notePath, { text := "abcd".toList })]
  dirs := [["s1".toList]]

def sixMore : Params where
  fields := PyDict.ofList [("task_id".toList, .str "s1".toList), ("filename".toList, .str "a.md".toList),
    ("content".toList, .str "efghij".toList)]

end AgentLangraph.Artifact
