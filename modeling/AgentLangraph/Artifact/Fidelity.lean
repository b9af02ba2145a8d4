import AgentLangraph.Artifact.Appends
import AgentLangraph.Artifact.Steps
import AgentLangraph.Lib.Rejoin

/-! When a file holds the text that was asked for. Long content is cut into windows, the windows are stripped,
    and what is left of them is joined with blank lines; the content comes back where the white space at every
    cut was a blank line before.

        content ── windows ── stripped ── "\n\n".join ──▶ file -/

namespace AgentLangraph.Artifact
open PyText Rejoin

/-! ### The windows of `split_long_text` -/

/-- The windows, before they are stripped. -/
def windowsFrom (chunkChars : ℕ) : ℕ → Text → List Text
  | 0, _ => []
  | _, [] => []
  | fuel + 1, t => t.take (chunkEnd chunkChars t) :: windowsFrom chunkChars fuel (t.drop (chunkEnd chunkChars t))

def windows (cfg : Settings) (content : Text) : List Text :=
  windowsFrom (max 1 cfg.chunkChars) content.length content

theorem splitFromCursor_eq (chunkChars : ℕ) : ∀ (fuel : ℕ) (t : Text),
    splitFromCursor chunkChars fuel t = ((windowsFrom chunkChars fuel t).map strip).filter fun w => !w.isEmpty
  | 0, t => by rw [splitFromCursor, windowsFrom]; rfl
  | fuel + 1, [] => rfl
  | fuel + 1, c :: t => by
      rw [splitFromCursor, windowsFrom, List.map_cons, List.filter_cons, splitFromCursor_eq chunkChars fuel]
      · by_cases hblank : strip ((c :: t).take (chunkEnd chunkChars (c :: t))) = []
        · rw [hblank]
          rfl
        · rw [if_neg hblank, if_pos (by simpa using hblank)]
      · simp
      · simp

/-- A window takes a character at least. -/
theorem chunkEnd_pos {chunkChars : ℕ} (h : 0 < chunkChars) {t : Text} (ht : t ≠ []) : 0 < chunkEnd chunkChars t := by
  have hwindow : 0 < (t.take chunkChars).length := by
    rw [List.length_take]
    exact Nat.lt_min.2 ⟨h, List.length_pos_iff.2 ht⟩
  rw [chunkEnd]
  split_ifs
  · exact hwindow
  · split
    · split_ifs
      · exact Nat.succ_pos _
      · exact hwindow
    · exact hwindow

theorem flatten_windowsFrom {chunkChars : ℕ} (h : 0 < chunkChars) : ∀ (fuel : ℕ) (t : Text), t.length ≤ fuel →
    (windowsFrom chunkChars fuel t).flatten = t
  | 0, t, hfuel => by rw [List.length_eq_zero_iff.1 (Nat.le_zero.1 hfuel)]; rfl
  | fuel + 1, [], _ => rfl
  | fuel + 1, c :: t, hfuel => by
      have hpos := chunkEnd_pos h (List.cons_ne_nil c t)
      have hlt : ((c :: t).drop (chunkEnd chunkChars (c :: t))).length ≤ fuel := by
        rw [List.length_drop]
        rw [List.length_cons] at hfuel ⊢
        omega
      rw [windowsFrom, List.flatten_cons, flatten_windowsFrom h fuel _ hlt, List.take_append_drop]
      simp

theorem flatten_windows (cfg : Settings) (content : Text) : (windows cfg content).flatten = content :=
  flatten_windowsFrom (Nat.lt_of_lt_of_le Nat.zero_lt_one (Nat.le_max_left _ _)) _ _ (Nat.le_refl _)

/-- The chunks, joined as they are in the file. -/
def joined (cfg : Settings) (content : Text) : Text := "\n\n".toList.intercalate (splitLongText cfg content)

theorem strip_eq_nil_iff_blank {t : Text} : strip t = [] ↔ Blank isSpace t := trim_eq_nil_iff

theorem blank_line : Blank isSpace "\n\n".toList := by decide

theorem joined_short {cfg : Settings} {content : Text} (h : content.length ≤ max 1 cfg.chunkChars) :
    joined cfg content = content := by
  rw [joined, splitLongText]
  split_ifs with hempty
  · rw [hempty]
    rfl
  · rw [List.intercalate_singleton]

/-- Long content that is nothing but space comes back whole, other long content without its ends. -/
theorem joined_long {cfg : Settings} {content : Text} (h : ¬ content.length ≤ max 1 cfg.chunkChars) :
    joined cfg content =
      if strip content = [] then content else rejoin isSpace "\n\n".toList (windows cfg content) := by
  have hempty : content ≠ [] := by
    rintro rfl
    exact h (Nat.zero_le _)
  have hkept : ((windows cfg content).map strip).filter (fun w => !w.isEmpty) = [] ↔ strip content = [] := by
    rw [strip_eq_nil_iff_blank]
    exact kept_eq_nil_iff.trans (by rw [flatten_windows])
  have hwindows : windowsFrom (max 1 cfg.chunkChars) content.length content = windows cfg content := rfl
  rw [joined, splitLongText, if_neg hempty, if_neg h, splitFromCursor_eq, hwindows]
  cases hchunks : ((windows cfg content).map strip).filter (fun w => !w.isEmpty) with
  | nil => rw [if_pos (hkept.1 hchunks), List.intercalate_singleton]
  | cons chunk chunks =>
    have hblank : ¬ strip content = [] := fun hnil => by
      rw [hkept.2 hnil] at hchunks
      cases hchunks
    have htrimmed : rejoin isSpace "\n\n".toList (windows cfg content) =
        List.intercalate "\n\n".toList (((windows cfg content).map strip).filter fun w => !w.isEmpty) := rfl
    rw [if_neg hblank, htrimmed, hchunks]

/-- The white space of the content is such that it comes back behind a separator: it is not cut, or it is
    nothing but space, or it ends in text, begins with newlines that the separator provides, and has a blank
    line wherever it is cut. -/
def JoinsUp (cfg : Settings) (sep content : Text) : Prop :=
  content.length ≤ max 1 cfg.chunkChars ∨ strip content = [] ∨
    rstrip content = content ∧ (∃ n, sep = List.replicate n '\n' ++ content.takeWhile isSpace) ∧
      CutAt isSpace "\n\n".toList (windows cfg content)

theorem blank_newlines (n : ℕ) : Blank isSpace (List.replicate n '\n') := by
  intro c hc
  rw [List.eq_of_mem_replicate hc]
  rfl

theorem rstrip_eq_self_iff {t : Text} : rstrip t = t ↔ t.rtakeWhile isSpace = [] := by
  have hsplit : rstrip t ++ t.rtakeWhile isSpace = t := List.rdropWhile_append_rtakeWhile
  constructor
  · intro h
    rw [h] at hsplit
    exact List.append_right_eq_self.1 hsplit
  · intro h
    rwa [h, List.append_nil] at hsplit

theorem newlines_joined_iff (cfg : Settings) (k : ℕ) (content : Text) :
    (∃ n, List.replicate k '\n' ++ joined cfg content = List.replicate n '\n' ++ content) ↔
      JoinsUp cfg (List.replicate k '\n') content := by
  rw [JoinsUp]
  by_cases hshort : content.length ≤ max 1 cfg.chunkChars
  · exact iff_of_true ⟨k, by rw [joined_short hshort]⟩ (Or.inl hshort)
  by_cases hblank : strip content = []
  · exact iff_of_true ⟨k, by rw [joined_long hshort, if_pos hblank]⟩ (Or.inr (Or.inl hblank))
  rw [joined_long hshort, if_neg hblank, or_iff_right hshort, or_iff_right hblank]
  rw [strip_eq_nil_iff_blank] at hblank
  have hcore := core_of_not_blank hblank
  have hjoin := rejoin_eq_trim_iff blank_line (windows cfg content)
  rw [flatten_windows] at hjoin
  have hwindows : ¬ Blank isSpace (windows cfg content).flatten := by rwa [flatten_windows]
  have hrejoin : Core isSpace (rejoin isSpace "\n\n".toList (windows cfg content)) []
      (rejoin isSpace "\n\n".toList (windows cfg content)) [] := core_rejoin hwindows
  have hleft := hrejoin.blank_append (blank_newlines k)
  constructor
  · rintro ⟨n, heq⟩
    have hright := hcore.blank_append (blank_newlines n)
    rw [← heq] at hright
    refine ⟨?_, ⟨n, ?_⟩, hjoin.1 (hleft.trim.symm.trans hright.trim)⟩
    · exact rstrip_eq_self_iff.2 (hright.rtakeWhile.symm.trans hleft.rtakeWhile)
    · have hfront := hleft.takeWhile.symm.trans hright.takeWhile
      rwa [List.append_nil] at hfront
  · rintro ⟨htail, ⟨n, hfront⟩, hcut⟩
    refine ⟨n, ?_⟩
    have heq := hcore.eq
    rw [rstrip_eq_self_iff.1 htail, List.append_nil] at heq
    rw [hjoin.2 hcut, hfront, List.append_assoc, ← heq]

/-- A write joins the chunks without a separator in front. -/
theorem joined_eq_iff (cfg : Settings) (content : Text) : joined cfg content = content ↔ JoinsUp cfg [] content := by
  have hiff := newlines_joined_iff cfg 0 content
  rw [List.replicate_zero, List.nil_append] at hiff
  rw [← hiff]
  refine ⟨fun h => ⟨0, h⟩, ?_⟩
  rintro ⟨n, heq⟩
  have hends : joined cfg content = content ∨ (joined cfg content).takeWhile isSpace = [] := by
    by_cases hshort : content.length ≤ max 1 cfg.chunkChars
    · exact Or.inl (joined_short hshort)
    · rw [joined_long hshort]
      split_ifs with hblank
      · exact Or.inl rfl
      · refine Or.inr (core_rejoin ?_).takeWhile
        rwa [flatten_windows, ← strip_eq_nil_iff_blank]
  rcases hends with hsame | hfront
  · exact hsame
  · cases n with
    | zero => exact heq
    | succ n =>
      rw [heq, List.replicate_succ, List.cons_append, List.takeWhile_cons_of_pos (by decide)] at hfront
      cases hfront

theorem writtenText_eq_joined (cfg : Settings) (content : Text) : writtenText cfg content = joined cfg content := by
  rw [writtenText]
  split_ifs with hnil
  · rw [joined, hnil, splitLongText_eq_nil.1 hnil]
    rfl
  · rfl

theorem addedText_later (existing : Text) : ∀ (chunks : List Text) {index : ℕ}, 0 < index →
    ∀ chunk, chunk ++ addedText existing index chunks = "\n\n".toList.intercalate (chunk :: chunks)
  | [], index, _, chunk => by rw [addedText, List.append_nil, List.intercalate_singleton]
  | next :: chunks, index, h, chunk => by
      have hsep : separator existing index = "\n\n".toList :=
        if_pos ⟨Or.inr h, fun hzero => Nat.ne_of_gt h hzero.1⟩
      rw [addedText, hsep, List.append_assoc, addedText_later existing chunks (Nat.succ_pos index) next,
        List.intercalate_cons_cons, List.append_assoc]

/-- All chunks together are the joined content behind the separator of the first one. -/
theorem addedText_joined {cfg : Settings} {content : Text} (h : content ≠ []) (existing : Text) :
    addedText existing 0 (splitLongText cfg content) = separator existing 0 ++ joined cfg content := by
  obtain ⟨chunk, chunks, heq⟩ := List.exists_cons_of_ne_nil (mt splitLongText_eq_nil.1 h)
  rw [joined, heq, addedText, List.append_assoc, addedText_later existing chunks Nat.zero_lt_one]

theorem accepted_all {cfg : Settings} {existing : Text} : ∀ {chunks : List Text} {index bytes : ℕ},
    (accepted cfg existing index bytes chunks).2 = .ok () → (accepted cfg existing index bytes chunks).1 = chunks
  | [], _, _, _ => rfl
  | chunk :: chunks, index, bytes, h => by
      rw [accepted] at h ⊢
      cases hcheck : checkSize cfg chunk bytes with
      | error e =>
        rw [hcheck] at h
        cases h
      | ok _ =>
        rw [hcheck] at h
        exact congrArg (chunk :: ·) (accepted_all h)

theorem separator_eq (existing : Text) : ∃ k, separator existing 0 = List.replicate k '\n' := by
  rw [separator]
  split_ifs
  · exact ⟨2, rfl⟩
  · exact ⟨0, rfl⟩

/-! ### The text in the file -/

/-- The manifest that takes the place of a text just written, where the file is the manifest of the project and
    names itself as the body. -/
def resaved (c : Codec) (taskId filename : Text) (count : ℕ) (text : Text) : Option Text :=
  if projectJsonPath taskId = filePath taskId filename then
    ((c.loads (universalNewlines text)).bind (WritingProject.fromDict c.digit)).bind fun p =>
      if slashed filename = slashed p.bodyFile then
        some (c.dumps (chapterProgress c p (universalNewlines text) (some count)))
      else none
  else none

theorem stored_postChapterWriteUpdate {c : Codec} {taskId filename text : Text} {d : Disk}
    (h : d.stored (filePath taskId filename) = some text) (count : ℕ) :
    (postChapterWriteUpdate c taskId filename (some count) d).1.stored (filePath taskId filename) =
      some ((resaved c taskId filename count text).getD text) := by
  have htext : d.textAt (filePath taskId filename) = some (universalNewlines text) := by
    rw [Disk.textAt, h]
    rfl
  have hbody : readBodyText d taskId filename = universalNewlines text := by
    rw [readBodyText, ← filePath, htext]
    rfl
  rw [postChapterWriteUpdate_eq, savedManifest, resaved, hbody]
  dsimp only
  by_cases hpath : projectJsonPath taskId = filePath taskId filename
  · rw [if_pos hpath, isBodyPath, loadProject, hpath, htext, Option.bind_some]
    cases hproject : (c.loads (universalNewlines text)).bind (WritingProject.fromDict c.digit) with
    | none => simpa using h
    | some p =>
      by_cases hself : slashed filename = slashed p.bodyFile
      · simp [hself, stored_put]
      · simpa [hself] using h
  · rw [if_neg hpath]
    split
    · rw [stored_put, if_neg hpath, h]
      rfl
    · rw [h]
      rfl

/-- A write that goes through leaves the content in its file. -/
def WriteKeeps (t : Tools) (fence : Fence) (p : Params) (d : Disk) : Prop :=
  ∀ d' r, handleWriteTextArtifact t fence p d = (d', .ok r) → r.status = "ok".toList →
    d'.stored r.path = some (optional p "content")

/-- An append to a file that is not the body, if it goes through, adds newlines and then the content. -/
def AppendKeeps (t : Tools) (fence : Fence) (p : Params) (d : Disk) : Prop :=
  ∀ d' r a, handleAppendTextArtifact t fence p d = (d', .ok r) → r.status = "ok".toList →
    appendPlan t fence p d = some a → isBodyPath t.codec d a.taskId a.filename = false →
    ∃ n, d'.contents r.path = d.contents r.path ++ List.replicate n '\n' ++ optional p "content"

def WriteJoins (t : Tools) (fence : Fence) (p : Params) (d : Disk) : Prop :=
  ∀ w, writePlan t fence p d = some w →
    match resaved t.codec w.taskId w.filename w.text.length w.text with
    | some manifest => manifest = optional p "content"
    | none => JoinsUp t.settings [] (optional p "content")

def AppendJoins (t : Tools) (fence : Fence) (p : Params) (d : Disk) : Prop :=
  ∀ a, appendPlan t fence p d = some a → isBodyPath t.codec d a.taskId a.filename = false →
    optional p "content" ≠ [] → (a.outcome t.settings).2 = .ok () →
    let text := d.contents a.path ++ a.added t.settings
    match resaved t.codec a.taskId a.filename
        (sliceCurrentChapterText t.codec.digit (universalNewlines text)).length text with
    | some manifest =>
      ∃ n, manifest = d.contents a.path ++ List.replicate n '\n' ++ optional p "content"
    | none => JoinsUp t.settings (separator a.existing 0) (optional p "content")

theorem optional_redirected {t : Tools} {p q : Params} {d : Disk} (h : redirected t p d = some q) :
    optional q "content" = optional p "content" := by
  rw [redirected] at h
  split_ifs at h
  · rw [Option.some.inj h]
  · obtain ⟨project, -, h⟩ := Option.bind_eq_some_iff.1 h
    split_ifs at h
    rw [← Option.some.inj h, optional, PyDict.get?_put_ne _ (by decide), PyDict.get?_put_ne _ (by decide), optional]

theorem writePlan_text {t : Tools} {fence : Fence} {p : Params} {d : Disk} {w : WritePlan}
    (h : writePlan t fence p d = some w) : w.text = joined t.settings (optional p "content") := by
  rw [writePlan, Option.ite_none_right_eq_some, Option.bind_eq_some_iff] at h
  obtain ⟨-, q, hq, hbody⟩ := h
  rw [(bodyPlan_eq_some_iff.1 hbody).2.2.2, optional_redirected hq, writtenText_eq_joined]

/-- What a write leaves in its file. -/
theorem stored_after (t : Tools) (w : WritePlan) (d : Disk) : (w.after t d).stored w.path =
    some ((resaved t.codec w.taskId w.filename w.text.length w.text).getD w.text) := by
  refine stored_postChapterWriteUpdate ?_ _
  rw [WritePlan.written, stored_put]
  exact if_pos rfl

theorem writeKeeps_iff (t : Tools) (fence : Fence) (p : Params) (d : Disk) :
    WriteKeeps t fence p d ↔ WriteJoins t fence p d := by
  have hplan : ∀ w, writePlan t fence p d = some w →
      ((w.after t d).stored w.path = some (optional p "content") ↔
        match resaved t.codec w.taskId w.filename w.text.length w.text with
        | some manifest => manifest = optional p "content"
        | none => JoinsUp t.settings [] (optional p "content")) := by
    intro w hw
    rw [stored_after, Option.some.injEq]
    cases resaved t.codec w.taskId w.filename w.text.length w.text with
    | some manifest => exact Iff.rfl
    | none =>
      rw [Option.getD_none, writePlan_text hw]
      exact joined_eq_iff t.settings _
  constructor
  · intro h w hw
    obtain ⟨r, hr, hstatus, -, hpath⟩ := handleWrite_of_plan hw
    have hkept := h _ r hr hstatus
    rw [hpath] at hkept
    exact (hplan w hw).1 hkept
  · intro h d' r hr hstatus
    cases hw : writePlan t fence p d with
    | none =>
      obtain ⟨d'', r', hr', -, herror⟩ := handleWrite_of_none hw
      rw [hr] at hr'
      have hbad := (herror r (Prod.ext_iff.1 hr').2.symm).1
      rw [hstatus] at hbad
      exact absurd hbad (by decide)
    | some w =>
      obtain ⟨r', hr', -, -, hpath⟩ := handleWrite_of_plan hw
      rw [hr, Prod.mk.injEq, Except.ok.injEq] at hr'
      rw [hr'.1, hr'.2, hpath]
      exact (hplan w hw).2 (h w hw)

theorem mkdir_contents (d : Disk) (dir path : Path) : (d.mkdir dir).contents path = d.contents path := by
  rw [Disk.contents, mkdir_stored, Disk.contents]

theorem mkdir_isBodyPath (c : Codec) (d : Disk) (dir : Path) (taskId filename : Text) :
    isBodyPath c (d.mkdir dir) taskId filename = isBodyPath c d taskId filename := by
  rw [isBodyPath, isBodyPath, loadProject, loadProject, mkdir_textAt]

/-- The plan of an append to a file that is not the body has the content that was asked for. -/
theorem appendPlan_content {t : Tools} {fence : Fence} {p : Params} {d : Disk} {a : AppendPlan}
    (h : appendPlan t fence p d = some a) (hbody : isBodyPath t.codec d a.taskId a.filename = false) :
    a.content = optional p "content" := by
  rw [appendPlan, Option.ite_none_right_eq_some, Option.bind_eq_some_iff] at h
  obtain ⟨-, q, hq, hplan⟩ := h
  obtain ⟨-, -, hcontent, -⟩ := appendBodyPlan_eq_some_iff.1 hplan
  rw [hcontent, appendContent, mkdir_isBodyPath, hbody, if_neg Bool.false_ne_true, optional_redirected hq]

/-- What an append that goes through leaves in its file. -/
theorem handleAppend_contents {t : Tools} {fence : Fence} {p : Params} {d : Disk} {a : AppendPlan}
    (h : appendPlan t fence p d = some a) (hcontent : a.content ≠ []) (hok : (a.outcome t.settings).2 = .ok ()) :
    ∃ d' r, handleAppendTextArtifact t fence p d = (d', .ok r) ∧ r.status = "ok".toList ∧ r.path = a.path ∧
      let text := d.contents a.path ++ a.added t.settings
      d'.contents a.path = (resaved t.codec a.taskId a.filename
        (sliceCurrentChapterText t.codec.digit (universalNewlines text)).length text).getD text := by
  obtain ⟨d₁, r, hholds, hrest, hstatus, hpath⟩ :=
    rest_done hcontent ((appendPlan_writable h).resolve_left hcontent) hok
  rw [mkdir_contents] at hholds hrest
  refine ⟨_, r, (handleAppend_of_plan h).trans hrest, hstatus, hpath, ?_⟩
  have hstored := stored_postChapterWriteUpdate (c := t.codec) hholds.stored (sliceCurrentChapterText t.codec.digit
    (universalNewlines (d.contents a.path ++ a.added t.settings))).length
  exact congrArg (Option.getD · []) hstored

theorem appendKeeps_iff (t : Tools) (fence : Fence) (p : Params) (d : Disk) :
    AppendKeeps t fence p d ↔ AppendJoins t fence p d := by
  -- the text of an append that goes through
  have hplan : ∀ a, appendPlan t fence p d = some a → isBodyPath t.codec d a.taskId a.filename = false →
      a.content ≠ [] → (a.outcome t.settings).2 = .ok () →
      let text := d.contents a.path ++ a.added t.settings
      let saved := resaved t.codec a.taskId a.filename
        (sliceCurrentChapterText t.codec.digit (universalNewlines text)).length text
      ((∃ n, saved.getD text = d.contents a.path ++ List.replicate n '\n' ++ optional p "content") ↔
        match saved with
        | some manifest => ∃ n, manifest = d.contents a.path ++ List.replicate n '\n' ++ optional p "content"
        | none => JoinsUp t.settings (separator a.existing 0) (optional p "content")) := by
    intro a ha hbody hcontent hok text saved
    cases saved with
    | some manifest => exact Iff.rfl
    | none =>
      have hgiven := appendPlan_content ha hbody
      obtain ⟨k, hk⟩ := separator_eq a.existing
      have htext : text =
          d.contents a.path ++ (separator a.existing 0 ++ joined t.settings (optional p "content")) := by
        change _ ++ addedText a.existing 0 (a.outcome t.settings).1 = _
        rw [AppendPlan.outcome, accepted_all hok, addedText_joined hcontent, hgiven]
      rw [Option.getD_none, htext, hk, ← newlines_joined_iff]
      refine exists_congr fun n => ?_
      rw [List.append_assoc, List.append_cancel_left_eq]
  constructor
  · intro h a ha hbody hcontent hok
    rw [← appendPlan_content ha hbody] at hcontent
    obtain ⟨d', r, hr, hstatus, hpath, hafter⟩ := handleAppend_contents ha hcontent hok
    have hkept := h d' r a hr hstatus ha hbody
    rw [hpath, hafter] at hkept
    exact (hplan a ha hbody hcontent hok).1 hkept
  · intro h d' r a hr hstatus ha hbody
    have hgiven := appendPlan_content ha hbody
    by_cases hcontent : a.content = []
    · obtain ⟨r', hrest, -, -⟩ := rest_empty (t := t) hcontent (d.mkdir [taskDir a.taskId])
      rw [handleAppend_of_plan ha, hrest, Prod.mk.injEq] at hr
      refine ⟨0, ?_⟩
      rw [← hr.1, mkdir_contents, ← hgiven, hcontent, List.replicate_zero, List.append_nil, List.append_nil]
    · cases hok : (a.outcome t.settings).2 with
      | error e =>
        obtain ⟨d₁, hrest, -⟩ := rest_refused hcontent ((appendPlan_writable ha).resolve_left hcontent) hok
        rw [handleAppend_of_plan ha, hrest, Prod.mk.injEq] at hr
        cases hr.2
      | ok _ =>
        obtain ⟨d₁, r', hr', -, hpath, hafter⟩ := handleAppend_contents ha hcontent hok
        rw [hr, Prod.mk.injEq, Except.ok.injEq] at hr'
        rw [hr'.1, hr'.2, hpath, hafter]
        exact (hplan a ha hbody hcontent hok).2 (h a ha hbody (hgiven ▸ hcontent) hok)

/-- FIDELITY: a write or an append keeps the text that it is given exactly when the white space of the text is
    what the joined chunks have. -/
theorem text_kept_iff (t : Tools) (fence : Fence) (p : Params) (d : Disk) :
    (WriteKeeps t fence p d ↔ WriteJoins t fence p d) ∧ (AppendKeeps t fence p d ↔ AppendJoins t fence p d) :=
  ⟨writeKeeps_iff t fence p d, appendKeeps_iff t fence p d⟩

/-- Chunks of four characters. -/
def shortChunks : Tools := { plainTools with settings := { chunkChars := 4 } }

def noteParams : Params where
  fields := PyDict.ofList [("task_id".toList, .str "s1".toList), ("filename".toList, .str "a.md".toList),
    ("content".toList, .str "chapter".toList)]

/-- A word that is longer than a chunk comes back as two paragraphs. -/
theorem word_is_split : ¬ WriteKeeps shortChunks none noteParams {} := by
  intro h
  have hrun : (handleWriteTextArtifact shortChunks none noteParams {}).2.toOption.map (fun r =>
      (r.status, (handleWriteTextArtifact shortChunks none noteParams {}).1.stored r.path)) =
        some ("ok".toList, some "chap\n\nter".toList) := by
    decide +kernel
  obtain ⟨r, hr, hpair⟩ := Option.map_eq_some_iff.1 hrun
  rw [toOption_eq_some_iff] at hr
  rw [Prod.mk.injEq] at hpair
  have hkept := h _ r (Prod.ext rfl hr) hpair.1
  rw [hpair.2] at hkept
  revert hkept
  decide +kernel

end AgentLangraph.Artifact
