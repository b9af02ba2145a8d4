import Mathlib.Data.List.Sort

/-! Sorting by a key, and what is among the first of the sorted list: an element is there exactly when fewer
    elements have a smaller key. -/

namespace Ranked

variable {α κ : Type*} [LinearOrder κ]

/-- `sorted(l, key=key)`. -/
def sortBy (key : α → κ) (l : List α) : List α := l.insertionSort fun a b => key a ≤ key b

/-- How many elements come before one. -/
def rank (key : α → κ) (l : List α) (x : α) : ℕ := l.countP fun a => key a < key x

variable {key : α → κ} {l : List α} {x : α}

theorem perm_sortBy (key : α → κ) (l : List α) : (sortBy key l).Perm l := List.perm_insertionSort _ l

@[simp] theorem mem_sortBy : x ∈ sortBy key l ↔ x ∈ l := List.mem_insertionSort _

@[simp] theorem sortBy_eq_nil : sortBy key l = [] ↔ l = [] := by
  rw [← List.length_eq_zero_iff, (perm_sortBy key l).length_eq, List.length_eq_zero_iff]

theorem rank_perm {l' : List α} (h : l.Perm l') (key : α → κ) (x : α) : rank key l x = rank key l' x :=
  h.countP_eq _

theorem pairwise_sortBy (key : α → κ) (l : List α) : (sortBy key l).Pairwise fun a b => key a ≤ key b := by
  have : IsTrans α fun a b => key a ≤ key b := ⟨fun _ _ _ hab hbc => le_trans hab hbc⟩
  have : Std.Total fun a b : α => key a ≤ key b := ⟨fun a b => le_total (key a) (key b)⟩
  exact List.pairwise_insertionSort _ l

/-- Where the keys are all different, they increase strictly. -/
theorem pairwise_lt_sortBy (h : (l.map key).Nodup) : (sortBy key l).Pairwise fun a b => key a < key b := by
  have hnodup : (sortBy key l).Pairwise fun a b => key a ≠ key b := by
    rw [← List.pairwise_map (f := key) (R := fun a b => a ≠ b)]
    exact (((perm_sortBy key l).map key).nodup_iff).2 h
  exact (pairwise_sortBy key l).imp₂ (fun _ _ hle hne => lt_of_le_of_ne hle hne) hnodup

/-- RANK RULE: in a list whose keys increase, those among the first `k` are preceded by fewer than `k`. -/
theorem mem_take_iff {k : ℕ} : ∀ {l : List α}, (l.Pairwise fun a b => key a < key b) →
    (x ∈ l.take k ↔ x ∈ l ∧ rank key l x < k)
  | [], _ => by simp
  | a :: l, h => by
      rw [List.pairwise_cons] at h
      cases k with
      | zero => simp
      | succ k =>
        rw [List.take_succ_cons, List.mem_cons, List.mem_cons, mem_take_iff h.2, rank, rank, List.countP_cons]
        by_cases hx : x = a
        · subst hx
          have hnone : (l.countP fun b => key b < key x) = 0 := by
            rw [List.countP_eq_zero]
            intro b hb
            simpa using (h.1 b hb).le
          simp [hnone]
        · simp only [hx, false_or]
          refine and_congr_right fun hmem => ?_
          simp [h.1 x hmem]

/-- What is picked from a list whose keys increase, in any order, stands as in the list once it is sorted back. -/
theorem sortBy_sublist {picked : List α} (h : picked.Subperm l) (hl : l.Pairwise fun a b => key a < key b) :
    (sortBy key picked).Sublist l := by
  have : Std.Antisymm fun a b : α => key a < key b := ⟨fun _ _ hab hba => absurd hab hba.asymm⟩
  obtain ⟨d, hperm, hsub⟩ := h
  have hd := hl.sublist hsub
  have hnodup : (d.map key).Nodup := List.pairwise_map.2 (hd.imp fun hlt => hlt.ne)
  have hsorted := pairwise_lt_sortBy ((hperm.map key).nodup_iff.1 hnodup)
  rwa [((perm_sortBy key picked).trans hperm.symm).eq_of_pairwise' hsorted hd]

/-- STABLE: the head of the sorted list is the first of those with the least key. -/
theorem head_sortBy {ι : Type*} [LinearOrder ι] {pos : α → ι} {b : α} {rest : List α}
    (hl : l.Pairwise fun a b => pos a < pos b) (h : sortBy key l = b :: rest) :
    ∀ s ∈ l, s ≠ b → key b < key s ∨ key s = key b ∧ pos b < pos s := by
  intro s hs hne
  have hb : b ∈ sortBy key l := by
    rw [h]
    exact .head _
  rw [mem_sortBy] at hb
  have hrest : s ∈ rest := by
    have hmem : s ∈ sortBy key l := mem_sortBy.2 hs
    rw [h] at hmem
    exact (List.mem_cons.1 hmem).resolve_left hne
  have hsorted := pairwise_sortBy key l
  rw [h, List.pairwise_cons] at hsorted
  rcases (hsorted.1 s hrest).lt_or_eq with hlt | heq
  · exact Or.inl hlt
  · refine Or.inr ⟨heq.symm, ?_⟩
    by_contra hle
    -- otherwise `s` comes before `b`, and the sort keeps the two in this order
    have hpair : [s, b].Sublist l := by
      obtain ⟨pre, post, rfl⟩ := List.append_of_mem hs
      rw [List.pairwise_append] at hl
      rcases List.mem_append.1 hb with hpre | hpost
      · exact absurd (hl.2.2 b hpre s (.head _)) hle
      · have hafter := (List.mem_cons.1 hpost).resolve_left hne.symm
        exact ((List.singleton_sublist.2 hafter).cons_cons s).trans (List.sublist_append_right ..)
    have hkept : [s, b].Sublist (b :: rest) := h ▸ List.pair_sublist_insertionSort (le_of_eq heq.symm) hpair
    have hnodup : (b :: rest).Nodup := h ▸ (perm_sortBy key l).nodup_iff.2 (hl.imp fun hlt heq => hlt.ne (by rw [heq]))
    cases hkept with
    | cons _ hin => exact (List.nodup_cons.1 hnodup).1 (hin.subset (by simp))
    | cons_cons _ _ => exact hne rfl

/-- The first `k` of the sorted list, by what is in the list. -/
theorem mem_take_sortBy_iff (h : (l.map key).Nodup) {k : ℕ} :
    x ∈ (sortBy key l).take k ↔ x ∈ l ∧ rank key l x < k := by
  rw [mem_take_iff (pairwise_lt_sortBy h), mem_sortBy, rank_perm (perm_sortBy key l)]

/-! ### Sorting and filtering -/

theorem orderedInsert_of_forall {r : α → α → Prop} [DecidableRel r] {a : α} (h : ∀ b ∈ l, r a b) :
    l.orderedInsert r a = a :: l := by
  cases l with
  | nil => rfl
  | cons b l => exact List.orderedInsert_cons_of_le r l (h b (.head _))

/-- What is inserted in its place is there after a filter too, if the filter keeps it. -/
theorem filter_orderedInsert {r : α → α → Prop} [DecidableRel r] [IsTrans α r] (p : α → Bool) (a : α) :
    ∀ {l : List α}, l.Pairwise r →
      (l.orderedInsert r a).filter p = if p a then (l.filter p).orderedInsert r a else l.filter p
  | [], _ => by cases hp : p a <;> simp [hp]
  | b :: l, h => by
      rw [List.pairwise_cons] at h
      by_cases hab : r a b
      · have hall : ∀ c ∈ (b :: l).filter p, r a c := by
          intro c hc
          rcases List.mem_cons.1 (List.mem_filter.1 hc).1 with rfl | hc
          · exact hab
          · exact IsTrans.trans a b c hab (h.1 c hc)
        rw [List.orderedInsert_cons_of_le r l hab, orderedInsert_of_forall hall, List.filter_cons]
      · rw [List.orderedInsert_of_not_le r l hab, List.filter_cons, List.filter_cons,
          filter_orderedInsert p a h.2]
        cases hb : p b with
        | false => simp
        | true =>
          cases ha : p a with
          | false => simp
          | true => simp [List.orderedInsert_of_not_le r _ hab]

/-- STABLE: filtering commutes with sorting, equal keys included. -/
theorem filter_sortBy (p : α → Bool) : ∀ l : List α, (sortBy key l).filter p = sortBy key (l.filter p)
  | [] => rfl
  | a :: l => by
      have : IsTrans α fun a b => key a ≤ key b := ⟨fun _ _ _ hab hbc => le_trans hab hbc⟩
      have ih := filter_sortBy p l
      have hstep : sortBy key (a :: l) = (sortBy key l).orderedInsert (fun a b => key a ≤ key b) a := rfl
      rw [hstep, filter_orderedInsert p a (pairwise_sortBy key l), ih, List.filter_cons]
      split_ifs
      · rfl
      · rfl

/-! ### Cuts -/

/-- A cut after a filter takes the same as the cut alone exactly when the filter keeps all that is taken. -/
theorem take_filter_eq_iff (p : α → Bool) : ∀ (n : ℕ) (l : List α),
    (l.filter p).take n = l.take n ↔ ∀ x ∈ l.take n, p x = true
  | 0, l => by simp
  | n + 1, [] => by simp
  | n + 1, a :: l => by
      rw [List.take_succ_cons, List.forall_mem_cons]
      cases ha : p a with
      | true =>
        rw [List.filter_cons_of_pos ha, List.take_succ_cons, List.cons.injEq, take_filter_eq_iff p n l]
        simp
      | false =>
        refine iff_of_false (fun heq => ?_) (by simp)
        have hmem : a ∈ l.filter p := by
          refine List.mem_of_mem_take (i := n + 1) ?_
          rw [← List.filter_cons_of_neg (a := a) (by simp [ha]), heq]
          exact .head _
        rw [List.mem_filter, ha] at hmem
        cases hmem.2

/-- In a list without duplicates a cut is a filter. -/
theorem filter_mem_take [DecidableEq α] {l : List α} (h : l.Nodup) (n : ℕ) :
    l.filter (· ∈ l.take n) = l.take n := by
  have hsplit : ∀ x ∈ l.drop n, x ∉ l.take n := by
    intro x hx hx'
    rw [← List.take_append_drop n l, List.nodup_append] at h
    exact h.2.2 x hx' x hx rfl
  calc l.filter (· ∈ l.take n)
      = (l.take n).filter (· ∈ l.take n) ++ (l.drop n).filter (· ∈ l.take n) := by
        rw [← List.filter_append, List.take_append_drop]
    _ = l.take n := by
        rw [List.filter_eq_self.2 (by simp), List.filter_eq_nil_iff.2 (by simpa using hsplit), List.append_nil]

end Ranked
