import AgentLangraph.Lib.PyEdit

/-! The occurrences of a text in another, none overlapping the one before. They cut the text into parts;
    putting something else in the seams between the parts is what `replace` does, `count` says how many
    seams there are, and `find` gives the first.

        a b sub c sub d  ──cut──▶  [a b] · [c] · [d] -/

namespace PyText

variable {sub t : Text}

/-! ### `find` -/

theorem split_of_find : ∀ {t : Text} {i : ℕ}, find sub t = some i →
    ∃ pre post, t = pre ++ sub ++ post ∧ pre.length = i
  | [], i, h => by
    rw [find] at h
    split_ifs at h with hsub
    exact ⟨[], [], by simp [hsub], Option.some.inj h⟩
  | c :: t, i, h => by
    rw [find] at h
    split_ifs at h with hpre
    · obtain ⟨post, hpost⟩ := List.isPrefixOf_iff_prefix.1 hpre
      exact ⟨[], post, hpost.symm, Option.some.inj h⟩
    · obtain ⟨j, hj, rfl⟩ := Option.map_eq_some_iff.1 h
      obtain ⟨pre, post, rfl, rfl⟩ := split_of_find hj
      exact ⟨c :: pre, post, rfl, rfl⟩

/-- No occurrence starts before the one that `find` gives. -/
theorem find_le : ∀ {t pre post : Text} {i : ℕ}, find sub t = some i → t = pre ++ sub ++ post → i ≤ pre.length
  | [], pre, post, i, h, _ => by
    rw [find] at h
    split_ifs at h
    obtain rfl := Option.some.inj h
    exact Nat.zero_le _
  | c :: t, pre, post, i, h, heq => by
    rw [find] at h
    split_ifs at h with hpre
    · obtain rfl := Option.some.inj h
      exact Nat.zero_le _
    · obtain ⟨j, hj, rfl⟩ := Option.map_eq_some_iff.1 h
      cases pre with
      | nil => exact absurd (List.isPrefixOf_iff_prefix.2 ⟨post, heq.symm⟩) hpre
      | cons d pre =>
        have htail : t = pre ++ sub ++ post := (List.cons.inj heq).2
        have := find_le hj htail
        simpa using this

theorem exists_find : ∀ {t pre post : Text}, t = pre ++ sub ++ post → ∃ i, find sub t = some i
  | [], pre, post, heq => by
    have hsub : sub = [] := by
      have := congrArg List.length heq
      simp only [List.length_nil, List.length_append] at this
      exact List.eq_nil_of_length_eq_zero (by omega)
    exact ⟨0, by rw [find, if_pos hsub]⟩
  | c :: t, pre, post, heq => by
    rw [find]
    split_ifs with hpre
    · exact ⟨0, rfl⟩
    · cases pre with
      | nil => exact absurd (List.isPrefixOf_iff_prefix.2 ⟨post, heq.symm⟩) hpre
      | cons d pre =>
        obtain ⟨i, hi⟩ := exists_find (List.cons.inj heq).2
        exact ⟨i + 1, by rw [hi]; rfl⟩

theorem find_eq_none_iff : find sub t = none ↔ ¬ sub <:+: t := by
  constructor
  · rintro h ⟨pre, post, heq⟩
    obtain ⟨i, hi⟩ := exists_find heq.symm
    rw [hi] at h
    cases h
  · intro h
    cases hf : find sub t with
    | none => rfl
    | some i =>
      obtain ⟨pre, post, rfl, -⟩ := split_of_find hf
      exact absurd ⟨pre, post, rfl⟩ h

theorem contains_iff : contains t sub = true ↔ sub <:+: t := by
  rw [contains, Option.isSome_iff_ne_none, ne_eq, find_eq_none_iff, not_not]

/-- The first occurrence, with what stands before and after it. -/
theorem find_eq_some_iff {i : ℕ} : find sub t = some i ↔
    ∃ pre post, t = pre ++ sub ++ post ∧ pre.length = i ∧
      ∀ pre' post', t = pre' ++ sub ++ post' → i ≤ pre'.length := by
  constructor
  · intro h
    obtain ⟨pre, post, heq, hlen⟩ := split_of_find h
    exact ⟨pre, post, heq, hlen, fun _ _ => find_le h⟩
  · rintro ⟨pre, post, heq, rfl, hfirst⟩
    obtain ⟨j, hj⟩ := exists_find heq
    obtain ⟨pre', post', heq', rfl⟩ := split_of_find hj
    rw [hj, le_antisymm (find_le hj heq) (hfirst _ _ heq')]

/-- What does not hold a character lies to one side of it. -/
theorem infix_append_cons {c : Char} (hc : c ∉ sub) {u v : Text} (h : sub <:+: u ++ c :: v) :
    sub <:+: u ∨ sub <:+: v := by
  obtain ⟨pre, post, heq⟩ := h
  rcases List.append_eq_append_iff.1 heq with ⟨more, hu, -⟩ | ⟨more, hpre, hmore⟩
  · exact Or.inl ⟨pre, more, hu.symm⟩
  · rcases List.append_eq_append_iff.1 hpre with ⟨front, hu, hsub⟩ | ⟨front, -, hrest⟩
    · cases more with
      | nil => exact Or.inl ⟨pre, [], by rw [hpre, List.append_nil, List.append_nil]⟩
      | cons d more =>
        obtain ⟨rfl, -⟩ := List.cons.inj hmore
        exact absurd (hsub ▸ List.mem_append_right front List.mem_cons_self) hc
    · rw [hrest] at hmore
      cases front with
      | nil =>
        cases sub with
        | nil => exact Or.inl List.nil_infix
        | cons d sub => exact absurd ((List.cons.inj hmore).1 ▸ List.mem_cons_self) hc
      | cons d front => exact Or.inr ⟨front, post, (List.cons.inj hmore).2.symm⟩

/-- A text that does not hold another, and ends in none of its characters, may be left out of a search. -/
theorem find_append (t : Text) : ∀ {pre : Text}, ¬ sub <:+: pre → (∀ c ∈ pre.getLast?, c ∉ sub) →
    find sub (pre ++ t) = (find sub t).map (pre.length + ·)
  | [], _, _ => by
    cases h : find sub t <;> simp [h]
  | c :: pre, hno, hlast => by
    have hprefix : ¬ sub.isPrefixOf (c :: (pre ++ t)) := by
      intro h
      rcases List.prefix_or_prefix_of_prefix (List.isPrefixOf_iff_prefix.1 h) (List.prefix_append (c :: pre) t)
        with hsub | ⟨rest, rfl⟩
      · exact hno hsub.isInfix
      · refine hlast _ (List.getLast?_eq_some_getLast (List.cons_ne_nil c pre)) ?_
        exact List.mem_append_left rest (List.getLast_mem _)
    have htail : ∀ d ∈ pre.getLast?, d ∉ sub := by
      intro d hd
      cases pre with
      | nil => cases hd
      | cons e pre => exact hlast d (by rw [List.getLast?_cons_cons]; exact hd)
    have ih := find_append t (fun h => hno (h.trans (List.suffix_cons c pre).isInfix)) htail
    rw [List.cons_append, find, if_neg hprefix, ih, Option.map_map]
    congr 1
    funext n
    simp only [Function.comp_apply, List.length_cons]
    omega

/-- An occurrence is found in every longer text. -/
theorem find_append_right (u : Text) : ∀ {t : Text} {i : ℕ}, find sub t = some i → find sub (t ++ u) = some i
  | [], i, h => by
    rw [find] at h
    split_ifs at h with hsub
    cases u <;> simp_all [find]
  | c :: t, i, h => by
    have hle : sub.length ≤ (c :: t).length := by
      obtain ⟨pre, post, heq, -⟩ := split_of_find h
      rw [heq]
      simp
      omega
    rw [find] at h
    rw [List.cons_append, find]
    split_ifs at h with hpre
    · have hpre' : sub.isPrefixOf (c :: (t ++ u)) :=
        List.isPrefixOf_iff_prefix.2 ((List.isPrefixOf_iff_prefix.1 hpre).trans (List.prefix_append (c :: t) u))
      rw [if_pos hpre', ← h]
    · have hpre' : ¬ sub.isPrefixOf (c :: (t ++ u)) := by
        intro h
        refine hpre (List.isPrefixOf_iff_prefix.2 ?_)
        exact List.prefix_of_prefix_length_le (List.isPrefixOf_iff_prefix.1 h) (List.prefix_append (c :: t) u) hle
      obtain ⟨j, hj, rfl⟩ := Option.map_eq_some_iff.1 h
      rw [if_neg hpre', find_append_right u hj]
      rfl

theorem find_self_append (hsub : sub ≠ []) (post : Text) : find sub (sub ++ post) = some 0 := by
  obtain ⟨c, cs, rfl⟩ := List.exists_cons_of_ne_nil hsub
  have hpre : List.isPrefixOf (c :: cs) (c :: (cs ++ post)) :=
    List.isPrefixOf_iff_prefix.2 (List.prefix_append (c :: cs) post)
  rw [List.cons_append, find, if_pos hpre]

/-! ### Cutting at the occurrences -/

/-- The parts between the occurrences, read from the left. -/
inductive Cut (sub : Text) : Text → List Text → Prop
  | last {rest : Text} : find sub rest = none → Cut sub rest [rest]
  | next {pre rest : Text} {parts : List Text} : find sub (pre ++ sub ++ rest) = some pre.length → Cut sub rest parts →
      Cut sub (pre ++ sub ++ rest) (pre :: parts)

/-- The parts again, with a text of its own in each seam. -/
def weave (seam : ℕ → Text) : List Text → Text
  | [] => []
  | [part] => part
  | part :: next :: parts => part ++ seam 0 ++ weave (fun i => seam (i + 1)) (next :: parts)

theorem Cut.ne_nil {parts : List Text} (h : Cut sub t parts) : parts ≠ [] := by
  cases h <;> simp

theorem weave_cons (seam : ℕ → Text) (part : Text) {parts : List Text} (h : parts ≠ []) :
    weave seam (part :: parts) = part ++ seam 0 ++ weave (fun i => seam (i + 1)) parts := by
  cases parts with
  | nil => exact absurd rfl h
  | cons next parts => rfl

theorem weave_congr : ∀ {parts : List Text} {seam seam' : ℕ → Text},
    (∀ i, i + 1 < parts.length → seam i = seam' i) → weave seam parts = weave seam' parts
  | [], _, _, _ => rfl
  | [_], _, _, _ => rfl
  | part :: next :: parts, seam, seam', h => by
    rw [weave, weave, h 0 (by simp)]
    congr 1
    exact weave_congr fun i hi => h (i + 1) (by simpa using hi)

/-- The occurrences themselves in the seams give the text back. -/
theorem Cut.weave_self {parts : List Text} (h : Cut sub t parts) : weave (fun _ => sub) parts = t := by
  induction h with
  | last _ => rfl
  | next _ hcut ih => rw [weave_cons _ _ hcut.ne_nil, ih]

theorem exists_cut (hsub : sub ≠ []) (t : Text) : ∃ parts, Cut sub t parts := by
  induction h : t.length using Nat.strong_induction_on generalizing t with
  | _ n ih =>
    cases hf : find sub t with
    | none => exact ⟨[t], .last hf⟩
    | some i =>
      obtain ⟨pre, post, rfl, rfl, -⟩ := find_eq_some_iff.1 hf
      have hpos := List.length_pos_iff.2 hsub
      obtain ⟨parts, hparts⟩ := ih post.length (by simp at h; omega) post rfl
      exact ⟨pre :: parts, .next hf hparts⟩

theorem drop_occurrence (pre sub t : Text) : (pre ++ sub ++ t).drop (pre.length + sub.length) = t := by
  rw [← List.length_append, List.drop_left]

theorem take_occurrence (pre sub t : Text) : (pre ++ sub ++ t).take pre.length = pre := by
  rw [List.append_assoc, List.take_left]

/-! ### `count` and `replace` in terms of the parts -/

theorem Cut.countFrom_eq {parts : List Text} (hsub : sub ≠ []) (h : Cut sub t parts) :
    ∀ {fuel : ℕ}, t.length ≤ fuel → countFrom sub fuel t + 1 = parts.length := by
  induction h with
  | last hnone =>
    rintro (_ | fuel) _
    · rfl
    · rw [countFrom, hnone]
      rfl
  | @next pre t parts hfind hcut ih =>
    have hpos := List.length_pos_iff.2 hsub
    rintro (_ | fuel) hfuel
    · simp only [List.length_append] at hfuel
      omega
    · rw [countFrom, hfind]
      dsimp only
      rw [drop_occurrence, List.length_cons, ← @ih fuel (by simp at hfuel; omega)]
      omega

/-- `count` is the number of seams. -/
theorem Cut.count_eq {parts : List Text} (hsub : sub ≠ []) (h : Cut sub t parts) :
    count t sub + 1 = parts.length := by
  rw [count, if_neg hsub]
  exact h.countFrom_eq hsub le_rfl

theorem Cut.replaceFrom_eq {parts : List Text} (hsub : sub ≠ []) (new : Text) (h : Cut sub t parts) :
    ∀ {fuel : ℕ}, t.length ≤ fuel → replaceFrom sub new fuel t = weave (fun _ => new) parts := by
  induction h with
  | last hnone =>
    rintro (_ | fuel) _
    · rfl
    · rw [replaceFrom, hnone]
      rfl
  | @next pre t parts hfind hcut ih =>
    have hpos := List.length_pos_iff.2 hsub
    rintro (_ | fuel) hfuel
    · simp only [List.length_append] at hfuel
      omega
    · rw [replaceFrom, hfind]
      dsimp only
      rw [drop_occurrence, take_occurrence, ih (by simp at hfuel; omega),
        weave_cons _ _ hcut.ne_nil]

/-- `replace` puts the new text into every seam. -/
theorem Cut.replace_eq {parts : List Text} (hsub : sub ≠ []) (new : Text) (h : Cut sub t parts) :
    replace t sub new = weave (fun _ => new) parts := by
  rw [replace, if_neg hsub]
  exact h.replaceFrom_eq hsub new le_rfl

/-- `replace` with a limit of one puts it into the first. -/
theorem Cut.replaceOne_eq {parts : List Text} (new : Text) (h : Cut sub t parts) :
    replaceOne t sub new = weave (fun i => if i = 0 then new else sub) parts := by
  cases h with
  | last hnone => rw [replaceOne, hnone, weave]
  | @next pre t parts hfind hcut =>
    rw [replaceOne, hfind]
    dsimp only
    rw [drop_occurrence, take_occurrence, weave_cons _ _ hcut.ne_nil]
    congr 1
    exact hcut.weave_self.symm

/-! ### Lines -/

/-- The lines with their ends are the whole text. -/
theorem flatten_splitlinesKeep : ∀ t : Text, (splitlinesKeep t).flatten = t
  | [] => rfl
  | [c] => by
    rw [splitlinesKeep]
    · split_ifs <;> rfl
    · simp
  | c :: d :: t => by
    by_cases hcr : c = '\r' ∧ d = '\n'
    · obtain ⟨rfl, rfl⟩ := hcr
      rw [splitlinesKeep, List.flatten_cons, flatten_splitlinesKeep t]
      rfl
    · have ih := flatten_splitlinesKeep (d :: t)
      rw [splitlinesKeep]
      · split_ifs
        · rw [List.flatten_cons, ih]
          rfl
        · cases hlines : splitlinesKeep (d :: t) with
          | nil =>
            rw [hlines] at ih
            simp at ih
          | cons line lines =>
            rw [hlines] at ih
            simp only [List.flatten_cons, List.cons_append] at ih ⊢
            rw [ih]
      · rintro rest rfl heq
        exact hcr ⟨rfl, (List.cons.inj heq).1⟩

end PyText
