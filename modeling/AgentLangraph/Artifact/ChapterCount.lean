import AgentLangraph.Artifact.Project

/-! The count of finished chapters. It goes up with each write that leaves the body with a footer behind a long
    block, whether or not the chapter has been counted before:

        1 │ xxx（第1章完）  ──write──▶  2 │ xxx（第1章完）  ──same again──▶  3 │ xxx（第1章完） -/

namespace AgentLangraph.Artifact
open PyText

section
variable (digit : Char → Option ℕ)

/-- The parts of a text up to each of the places. -/
def cutAt (t : Text) : ℕ → List ℕ → List Text
  | _, [] => []
  | i, j :: js => (t.take j).drop i :: cutAt t j js

/-- The sealed chapters of a body. -/
def sealedChapters (t : Text) : List Text :=
  cutAt t 0 (((footers digit t).map Prod.snd).filter (sealsAt t))

/-- How many sealed chapters are long enough. -/
def longSealed (threshold : ℤ) (t : Text) : ℕ :=
  (sealedChapters digit t).countP fun chapter => threshold ≤ (strip chapter).length

/-- The body ends with a footer, and the block in front of it is long enough. -/
def finishes (threshold : ℤ) (body : Text) : Bool :=
  chapterProseEndsWithFooter digit (strip body) &&
    ((footers digit (strip body)).getLast?).any fun last =>
      threshold ≤ (strip ((strip body).drop (lastSealedChapterEnd digit ((strip body).take last.1)))).length

/-- The body of the next write has one long chapter more, if it ends with one, and otherwise as many. -/
def FitsBody (threshold : ℤ) (body body' : Text) : Prop :=
  longSealed digit threshold body' = longSealed digit threshold body + if finishes digit threshold body' then 1 else 0

/-- So have the bodies of all writes. -/
def Steady (threshold : ℤ) : Text → List Text → Prop
  | _, [] => True
  | body, body' :: bodies => FitsBody digit threshold body body' ∧ Steady threshold body' bodies

end

/-- A project and its body. -/
structure Novel where
  project : WritingProject
  body : Text

/-- Nothing is written yet. -/
def Novel.fresh (p : WritingProject) : Novel := ⟨{ p with nextChapter := 1 }, []⟩

section
variable (c : Codec)

/-- A write of the body, and what becomes of the project. -/
def Novel.write (s : Novel) (w : Text × Option ℕ) : Novel := ⟨chapterProgress c s.project w.1 w.2, w.1⟩

/-- The count is that of the sealed chapters that are long enough. -/
def Novel.Counted (s : Novel) : Prop :=
  s.project.nextChapter - 1 = longSealed c.digit (completionThreshold s.project) s.body

end

variable {digit : Char → Option ℕ}

/-! ### What the update does -/

theorem mem_footersFrom {t : Text} : ∀ {pos a b : ℕ}, (a, b) ∈ footersFrom digit pos t ↔
    ∃ i n, i < t.length ∧ footerAt digit (t.drop i) = some n ∧ a = pos + i ∧ b = pos + i + n := by
  induction t with
  | nil =>
    intro pos a b
    simp [footersFrom]
  | cons c t ih =>
    intro pos a b
    have hrest : (a, b) ∈ footersFrom digit (pos + 1) t ↔ ∃ i n, i + 1 < (c :: t).length ∧
        footerAt digit ((c :: t).drop (i + 1)) = some n ∧ a = pos + (i + 1) ∧ b = pos + (i + 1) + n := by
      rw [ih]
      simp only [List.length_cons, Nat.add_lt_add_iff_right, List.drop_succ_cons, Nat.add_assoc, Nat.add_comm 1]
    have hsplit : (∃ i n, i < (c :: t).length ∧ footerAt digit ((c :: t).drop i) = some n ∧ a = pos + i ∧
        b = pos + i + n) ↔ (∃ n, footerAt digit (c :: t) = some n ∧ a = pos ∧ b = pos + n) ∨
          (a, b) ∈ footersFrom digit (pos + 1) t := by
      rw [hrest]
      constructor
      · rintro ⟨i, n, hi, hfooter, ha, hb⟩
        cases i with
        | zero => exact .inl ⟨n, hfooter, ha, hb⟩
        | succ i => exact .inr ⟨i, n, hi, hfooter, ha, hb⟩
      · rintro (⟨n, hfooter, ha, hb⟩ | ⟨i, n, hi, hfooter, ha, hb⟩)
        · exact ⟨0, n, by simp, hfooter, ha, hb⟩
        · exact ⟨i + 1, n, hi, hfooter, ha, hb⟩
    rw [hsplit, footersFrom]
    cases hfooter : footerAt digit (c :: t) with
    | none => simp
    | some n => simp

/-- A text that ends with a footer. -/
theorem endsWithFooter_iff {t : Text} : chapterProseEndsWithFooter digit t = true ↔
    ∃ pre rest n, strip t = pre ++ rest ∧ rest ≠ [] ∧ footerAt digit rest = some n ∧ n = rest.length := by
  rw [chapterProseEndsWithFooter, List.any_eq_true]
  constructor
  · rintro ⟨⟨a, b⟩, hmem, hend⟩
    obtain ⟨i, n, hi, hfooter, -, hb⟩ := mem_footersFrom.1 hmem
    refine ⟨(strip t).take i, (strip t).drop i, n, (List.take_append_drop i _).symm, ?_, hfooter, ?_⟩
    · rw [ne_eq, List.drop_eq_nil_iff]
      omega
    · have hend' : b = (strip t).length := of_decide_eq_true hend
      rw [List.length_drop]
      omega
  · rintro ⟨pre, rest, n, hsplit, hne, hfooter, hn⟩
    refine ⟨(0 + pre.length, 0 + pre.length + n), mem_footersFrom.2 ⟨pre.length, n, ?_, ?_, rfl, rfl⟩, ?_⟩
    · rw [hsplit, List.length_append]
      have hpos := List.length_pos_iff.2 hne
      omega
    · rw [hsplit, List.drop_left]
      exact hfooter
    · rw [hsplit, List.length_append, decide_eq_true_eq]
      omega

theorem lstrip_suffix {t u : Text} (h : u <:+ t) : lstrip u <:+ lstrip t := by
  obtain ⟨pre, rfl⟩ := h
  induction pre with
  | nil => exact List.suffix_rfl
  | cons c pre ih =>
    refine ih.trans ?_
    rw [List.cons_append, lstrip, lstrip, List.dropWhile_cons]
    split_ifs
    · exact List.suffix_rfl
    · exact (List.dropWhile_suffix _).trans (List.suffix_cons _ _)

theorem rstrip_suffix {t u : Text} (h : u <:+ t) : rstrip u <:+ rstrip t := by
  obtain ⟨pre, rfl⟩ := h
  rw [rstrip, rstrip, List.rdropWhile, List.rdropWhile, List.reverse_suffix, List.reverse_append,
    List.dropWhile_append]
  split_ifs with hnil
  · rw [List.isEmpty_iff.1 hnil]
    exact List.nil_prefix
  · exact List.prefix_append _ _

/-- The end of a text, stripped, is an end of the text, stripped. -/
theorem strip_suffix {t u : Text} (h : u <:+ t) : strip u <:+ strip t := rstrip_suffix (lstrip_suffix h)

/-- The chapter in progress ends with a footer only where the body does. -/
theorem inProgress_endsWithFooter {t : Text}
    (h : chapterProseEndsWithFooter digit (inProgressChapterText digit t) = true) :
    chapterProseEndsWithFooter digit (strip t) = true := by
  obtain ⟨pre, rest, n, hsplit, hne, hfooter, hn⟩ := endsWithFooter_iff.1 h
  rw [inProgressChapterText, strip_strip] at hsplit
  obtain ⟨front, hfront⟩ := strip_suffix (List.drop_suffix (lastSealedChapterEnd digit t) t)
  refine endsWithFooter_iff.2 ⟨front ++ pre, rest, n, ?_, hne, hfooter, hn⟩
  rw [strip_strip, ← hfront, hsplit, List.append_assoc]

/-- The update counts a chapter where the body finishes one, and otherwise marks it unfinished. -/
theorem chapterProgress_eq (c : Codec) (p : WritingProject) (body : Text) (count : Option ℕ) :
    chapterProgress c p body count = if finishes c.digit (completionThreshold p) body then
      { p with currentChapterIncomplete := false, nextChapter := p.nextChapter + 1 }
      else { p with currentChapterIncomplete := true } := by
  rw [chapterProgress, finishes]
  dsimp only
  by_cases hends : chapterProseEndsWithFooter c.digit (strip body) = true
  · rw [if_pos hends, hends, Bool.true_and]
    cases (footers c.digit (strip body)).getLast? with
    | none => rfl
    | some last => simp
  · have hsegment : chapterProseEndsWithFooter c.digit (inProgressChapterText c.digit body) = false := by
      rw [← Bool.not_eq_true]
      exact mt inProgress_endsWithFooter hends
    rw [if_neg hends, hsegment]
    simp [hends]

theorem completionThreshold_progress (c : Codec) (p : WritingProject) (body : Text) (count : Option ℕ) :
    completionThreshold (chapterProgress c p body count) = completionThreshold p := by
  rw [chapterProgress_eq]
  split_ifs <;> rfl

/-- The same body again changes nothing just where it does not finish a chapter. -/
theorem again_iff (c : Codec) (p : WritingProject) (body : Text) (count count' : Option ℕ) :
    chapterProgress c (chapterProgress c p body count) body count' = chapterProgress c p body count ↔
      finishes c.digit (completionThreshold p) body = false := by
  have hthreshold := completionThreshold_progress c p body count
  rw [chapterProgress_eq c (chapterProgress c p body count), hthreshold, chapterProgress_eq c p]
  cases finishes c.digit (completionThreshold p) body with
  | false => simp
  | true =>
    simp only [if_true, Bool.true_eq_false, iff_false]
    intro hsame
    have hnext := congrArg WritingProject.nextChapter hsame
    dsimp only at hnext
    omega

/-! ### Runs -/

/-- One write keeps the count right just where its body fits. -/
theorem counted_write_iff {c : Codec} {s : Novel} (h : s.Counted c) (w : Text × Option ℕ) :
    (s.write c w).Counted c ↔ FitsBody c.digit (completionThreshold s.project) s.body w.1 := by
  rw [Novel.Counted] at h
  rw [Novel.Counted, Novel.write, completionThreshold_progress, FitsBody, chapterProgress_eq]
  cases finishes c.digit (completionThreshold s.project) w.1 with
  | false =>
    simp only [Bool.false_eq_true, if_false]
    omega
  | true =>
    simp only [if_true]
    omega

/-- The count is right after all writes just where their bodies fit. -/
theorem counted_run_iff {c : Codec} (ws : List (Text × Option ℕ)) : ∀ {s : Novel}, s.Counted c →
    ((∀ n, ((ws.take n).foldl (Novel.write c) s).Counted c) ↔
      Steady c.digit (completionThreshold s.project) s.body (ws.map Prod.fst)) := by
  induction ws with
  | nil =>
    intro s h
    simp [Steady, h]
  | cons w ws ih =>
    intro s h
    rw [List.map_cons, Steady, ← counted_write_iff h w]
    have hthreshold : completionThreshold (s.write c w).project = completionThreshold s.project :=
      completionThreshold_progress ..
    constructor
    · intro hall
      have hone : (s.write c w).Counted c := hall 1
      refine ⟨hone, ?_⟩
      rw [← hthreshold]
      exact (ih hone).1 fun n => hall (n + 1)
    · rintro ⟨hone, hsteady⟩ n
      rw [← hthreshold] at hsteady
      cases n with
      | zero => exact h
      | succ n => exact (ih hone).2 hsteady n

theorem fresh_counted (c : Codec) (p : WritingProject) : (Novel.fresh p).Counted c := by
  simp [Novel.Counted, Novel.fresh, longSealed, sealedChapters, footers, footersFrom, cutAt]

/-- COUNT: the same body again changes nothing just where it finishes no chapter; and along the writes of a new
    project the count is that of the long sealed chapters just where each body fits the one before it. -/
theorem chapters_counted_iff (c : Codec) (p : WritingProject) :
    (∀ (body : Text) (count count' : Option ℕ),
      chapterProgress c (chapterProgress c p body count) body count' = chapterProgress c p body count ↔
        finishes c.digit (completionThreshold p) body = false) ∧
    ∀ ws : List (Text × Option ℕ), (∀ n, ((ws.take n).foldl (Novel.write c) (Novel.fresh p)).Counted c) ↔
      Steady c.digit (completionThreshold p) [] (ws.map Prod.fst) :=
  ⟨again_iff c p, fun ws => counted_run_iff ws (fresh_counted c p)⟩

/-- The update again, with the body of a chapter that it has counted: the count is three, for one chapter. -/
theorem counted_twice : ¬ ∀ (c : Codec) (p : WritingProject) (body : Text) (count : Option ℕ),
    chapterProgress c (chapterProgress c p body count) body count = chapterProgress c p body count := by
  intro h
  have hfinished := (again_iff _ _ _ _ _).1 (h
    { loads := fun _ => none, dumps := fun _ => [], digit := fun ch => if ch = '1' then some 1 else none }
    {} (List.replicate 3600 'x' ++ "（第1章完）".toList) none)
  revert hfinished
  decide +kernel

end AgentLangraph.Artifact
