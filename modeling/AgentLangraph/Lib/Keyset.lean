import Mathlib.Data.List.Sort
import Mathlib.Order.Interval.Set.Basic

/-! Paging through rows by their key: each page starts after the last key of the page before. The rows
    are in no order; their keys are different. -/

namespace Keyset

variable {α κ : Type*} [LinearOrder κ] (key : α → κ)

/-- The rows in the order of their keys. -/
def sorted (rows : List α) : List α := rows.insertionSort fun a b => key a ≤ key b

/-- The rows whose key is in `(lo, hi]`, in order. -/
def between (rows : List α) (lo hi : κ) : List α :=
  sorted key (rows.filter fun a => lo < key a ∧ key a ≤ hi)

/-- At most `limit` of the rows after `lo`, in order. -/
def page (rows : List α) (lo : κ) (limit : ℕ) : List α :=
  (sorted key (rows.filter fun a => lo < key a)).take limit

/-- Where the next page starts. -/
def cursor (lo : κ) (rows : List α) : κ := (rows.getLast?.map key).getD lo

variable {key}

theorem mem_sorted {rows : List α} {a : α} : a ∈ sorted key rows ↔ a ∈ rows :=
  List.mem_insertionSort _

theorem pairwise_sorted {rows : List α} (h : (rows.map key).Nodup) :
    (sorted key rows).Pairwise fun a b => key a < key b := by
  have hle : (sorted key rows).Pairwise fun a b => key a ≤ key b := by
    have : IsTrans α fun a b => key a ≤ key b := ⟨fun _ _ _ => le_trans⟩
    have : Std.Total fun a b : α => key a ≤ key b := ⟨fun _ _ => le_total _ _⟩
    exact List.pairwise_insertionSort _ rows
  have hne : (sorted key rows).Pairwise fun a b => key a ≠ key b := by
    have hperm : ((sorted key rows).map key).Perm (rows.map key) :=
      (List.perm_insertionSort _ _).map key
    exact List.pairwise_map.1 (hperm.nodup_iff.2 h)
  exact hle.imp₂ (fun _ _ hab hne => lt_of_le_of_ne hab hne) hne

/-- Rows in order are determined by which rows they are. -/
theorem eq_of_pairwise {l l' : List α} (h : l.Pairwise fun a b => key a < key b)
    (h' : l'.Pairwise fun a b => key a < key b) (hmem : ∀ a, a ∈ l ↔ a ∈ l') : l = l' := by
  have hnodup : ∀ {l : List α}, (l.Pairwise fun a b => key a < key b) → l.Nodup :=
    fun h => h.imp fun hlt heq => absurd (heq ▸ hlt) (lt_irrefl _)
  have hperm := (List.perm_ext_iff_of_nodup (hnodup h) (hnodup h')).2 hmem
  exact hperm.eq_of_pairwise (fun a b _ _ hab hba => absurd hab hba.asymm) h h'

theorem pairwise_filter {rows : List α} (h : (rows.map key).Nodup) (p : α → Bool) :
    (sorted key (rows.filter p)).Pairwise fun a b => key a < key b :=
  pairwise_sorted (h.sublist (List.filter_sublist.map key))

theorem pairwise_between {rows : List α} (h : (rows.map key).Nodup) (lo hi : κ) :
    (between key rows lo hi).Pairwise fun a b => key a < key b := pairwise_filter h _

@[simp] theorem mem_between {rows : List α} {lo hi : κ} {a : α} :
    a ∈ between key rows lo hi ↔ a ∈ rows ∧ lo < key a ∧ key a ≤ hi := by
  rw [between, mem_sorted, List.mem_filter, decide_eq_true_eq]

theorem mem_of_mem_page {rows : List α} {lo : κ} {limit : ℕ} {a : α}
    (h : a ∈ page key rows lo limit) : a ∈ rows ∧ lo < key a := by
  simpa [mem_sorted] using List.mem_of_mem_take h

/-- Two stretches of the rows, one after the other. -/
theorem between_append {rows : List α} (h : (rows.map key).Nodup) {lo mid hi : κ} (hlo : lo ≤ mid)
    (hhi : mid ≤ hi) :
    between key rows lo mid ++ between key rows mid hi = between key rows lo hi := by
  refine eq_of_pairwise ?_ (pairwise_between h lo hi) fun a => ?_
  · refine List.pairwise_append.2 ⟨pairwise_between h lo mid, pairwise_between h mid hi, ?_⟩
    intro a ha b hb
    exact (mem_between.1 ha).2.2.trans_lt (mem_between.1 hb).2.1
  · rw [List.mem_append, mem_between, mem_between, mem_between]
    constructor
    · rintro (⟨ha, hgt, hle⟩ | ⟨ha, hgt, hle⟩)
      · exact ⟨ha, hgt, hle.trans hhi⟩
      · exact ⟨ha, hlo.trans_lt hgt, hle⟩
    · rintro ⟨ha, hgt, hle⟩
      rcases le_or_gt (key a) mid with hmid | hmid
      · exact Or.inl ⟨ha, hgt, hmid⟩
      · exact Or.inr ⟨ha, hmid, hle⟩

/-- Equal exactly when no row is in one stretch only. -/
theorem between_eq_iff {rows : List α} (h : (rows.map key).Nodup) {lo hi hi' : κ} :
    between key rows lo hi = between key rows lo hi' ↔
      ∀ a ∈ rows, lo < key a → (key a ≤ hi ↔ key a ≤ hi') := by
  constructor
  · intro heq a ha hgt
    have hmem : a ∈ between key rows lo hi ↔ a ∈ between key rows lo hi' := by rw [heq]
    simpa [ha, hgt] using hmem
  · intro hiff
    refine eq_of_pairwise (pairwise_between h _ _) (pairwise_between h _ _) fun a => ?_
    rw [mem_between, mem_between]
    exact and_congr_right fun ha => and_congr_right fun hgt => hiff a ha hgt

theorem between_self (rows : List α) (lo : κ) : between key rows lo lo = [] := by
  rw [List.eq_nil_iff_forall_not_mem]
  intro a ha
  exact (mem_between.1 ha).2.1.not_ge (mem_between.1 ha).2.2

/-- A row outside the stretch does not change it. -/
theorem between_concat (rows : List α) {a : α} {lo hi : κ}
    (ha : ¬ (lo < key a ∧ key a ≤ hi)) :
    between key (rows ++ [a]) lo hi = between key rows lo hi := by
  rw [between, between, List.filter_append, List.filter_singleton, decide_eq_false ha, cond_false,
    List.append_nil]

/-! ### Pages -/

omit [LinearOrder κ] in
variable (key) in
theorem cursor_cases (lo : κ) (rows : List α) :
    (rows = [] ∧ cursor key lo rows = lo) ∨
      ∃ (init : List α) (a : α), rows = init ++ [a] ∧ cursor key lo rows = key a := by
  rcases List.eq_nil_or_concat rows with rfl | ⟨init, a, rfl⟩
  · exact Or.inl ⟨rfl, rfl⟩
  · exact Or.inr ⟨init, a, by simp, by simp [cursor]⟩

omit [LinearOrder κ] in
variable (key) in
theorem cursor_of_ne_nil {rows : List α} (h : rows ≠ []) (lo lo' : κ) :
    cursor key lo rows = cursor key lo' rows := by
  rcases List.eq_nil_or_concat rows with rfl | ⟨init, a, rfl⟩
  · exact absurd rfl h
  · simp [cursor]

variable (key) in
theorem length_page (rows : List α) (lo : κ) (limit : ℕ) :
    (page key rows lo limit).length = min limit (rows.countP fun a => lo < key a) := by
  rw [page, List.length_take, sorted, List.length_insertionSort, List.countP_eq_length_filter]

/-- A page that has rows: it ends with the row that the cursor is on, and what it leaves comes after. -/
structure Cut (key : α → κ) (rows : List α) (lo : κ) (limit : ℕ) (page rest : List α) (last : κ) :
    Prop where
  split : page ++ rest = sorted key (rows.filter fun a => lo < key a)
  length : page.length = min limit (rows.countP fun a => lo < key a)
  le : ∀ a ∈ page, key a ≤ last
  lt : ∀ a ∈ rest, last < key a
  mem : ∃ a ∈ page, key a = last

theorem cut {rows : List α} (h : (rows.map key).Nodup) {lo : κ} {limit : ℕ}
    (hne : page key rows lo limit ≠ []) :
    Cut key rows lo limit (page key rows lo limit)
      ((sorted key (rows.filter fun a => lo < key a)).drop limit)
      (cursor key lo (page key rows lo limit)) := by
  have hsplit := List.take_append_drop limit (sorted key (rows.filter fun a => lo < key a))
  have hpairwise := pairwise_filter h fun a => decide (lo < key a)
  rw [← hsplit, List.pairwise_append] at hpairwise
  obtain ⟨htake, -, hcross⟩ := hpairwise
  rcases cursor_cases key lo (page key rows lo limit) with
    ⟨hnil, -⟩ | ⟨init, b, hpage, hcursor⟩
  · exact absurd hnil hne
  · have hb : b ∈ page key rows lo limit := by simp [hpage]
    rw [hcursor]
    refine ⟨hsplit, length_page key rows lo limit, ?_, fun a ha => hcross b hb a ha, ⟨b, hb, rfl⟩⟩
    intro a ha
    rw [← page, hpage, List.pairwise_append] at htake
    rw [hpage, List.mem_append, List.mem_singleton] at ha
    rcases ha with ha | rfl
    · exact (htake.2.2 a ha b (List.mem_singleton.2 rfl)).le
    · exact le_rfl

/-- A page is the stretch up to its last row. -/
theorem page_eq_between {rows : List α} (h : (rows.map key).Nodup) (lo : κ) (limit : ℕ) :
    page key rows lo limit = between key rows lo (cursor key lo (page key rows lo limit)) := by
  have hpairwise : (page key rows lo limit).Pairwise fun a b => key a < key b :=
    (pairwise_filter h _).sublist (List.take_sublist _ _)
  refine eq_of_pairwise hpairwise (pairwise_between h _ _) fun a => ?_
  rcases eq_or_ne (page key rows lo limit) [] with hnil | hne
  · simp only [hnil, cursor, List.not_mem_nil, mem_between, List.getLast?_nil, Option.map_none,
      Option.getD_none, false_iff, not_and, not_le]
    exact fun _ hlt => hlt
  · have hcut := cut h hne
    rw [mem_between]
    constructor
    · intro ha
      have hafter : a ∈ sorted key (rows.filter fun a => lo < key a) := List.mem_of_mem_take ha
      rw [mem_sorted, List.mem_filter, decide_eq_true_eq] at hafter
      exact ⟨hafter.1, hafter.2, hcut.le a ha⟩
    · rintro ⟨hrow, hlt, hle⟩
      have hafter : a ∈ sorted key (rows.filter fun a => lo < key a) := by
        simp [mem_sorted, hrow, hlt]
      rw [← hcut.split, List.mem_append] at hafter
      rcases hafter with ha | ha
      · exact ha
      · exact absurd hle (hcut.lt a ha).not_ge

variable (key) in
theorem le_cursor_page (rows : List α) (lo : κ) (limit : ℕ) :
    lo ≤ cursor key lo (page key rows lo limit) := by
  rcases cursor_cases key lo (page key rows lo limit) with
    ⟨-, hcursor⟩ | ⟨init, b, hpage, hcursor⟩
  · exact hcursor.ge
  · have hb : b ∈ sorted key (rows.filter fun a => lo < key a) :=
      List.mem_of_mem_take (by rw [← page, hpage]; simp)
    rw [mem_sorted, List.mem_filter, decide_eq_true_eq] at hb
    rw [hcursor]
    exact hb.2.le

/-- How many rows of a stretch are in a page and how many are left. -/
theorem Cut.countP {rows page rest : List α} {lo last : κ} {limit : ℕ}
    (h : Cut key rows lo limit page rest last) (c : κ) :
    (rows.countP fun a => lo < key a ∧ key a ≤ c) =
      page.countP (fun a => key a ≤ c) + rest.countP (fun a => key a ≤ c) := by
  have hperm := (List.perm_insertionSort (fun a b => key a ≤ key b)
    (rows.filter fun a => lo < key a)).countP_eq fun a => decide (key a ≤ c)
  rw [← List.countP_append, h.split, sorted, hperm, List.countP_filter]
  exact List.countP_congr fun a _ => by simp [and_comm]

/-- The last row of a page is behind `c` exactly when that many rows are. -/
theorem Cut.last_le_iff {rows page rest : List α} {lo last : κ} {limit : ℕ}
    (h : Cut key rows lo limit page rest last) (c : κ) :
    last ≤ c ↔ min limit (rows.countP fun a => lo < key a) ≤
      rows.countP fun a => lo < key a ∧ key a ≤ c := by
  rw [← h.length, h.countP c]
  constructor
  · intro hc
    have hall : page.countP (fun a => key a ≤ c) = page.length :=
      List.countP_eq_length.2 fun a ha => by simpa using (h.le a ha).trans hc
    omega
  · intro hcount
    by_contra hlast
    rw [not_le] at hlast
    obtain ⟨b, hb, hblast⟩ := h.mem
    have hrest : rest.countP (fun a => key a ≤ c) = 0 :=
      List.countP_eq_zero.2 fun a ha => by simpa using hlast.trans (h.lt a ha)
    have hpage : page.countP (fun a => key a ≤ c) ≠ page.length := fun hall => by
      have := List.countP_eq_length.1 hall b hb
      exact absurd hlast (by simpa [hblast] using this)
    have := List.countP_le_length (p := fun a => decide (key a ≤ c)) (l := page)
    omega

/-- A row is in a page exactly when at most `limit` rows come up to it. -/
theorem Cut.le_last_iff {rows page rest : List α} {lo last : κ} {limit : ℕ}
    (h : Cut key rows lo limit page rest last) {a : α} (ha : a ∈ rows) (hlo : lo < key a) :
    key a ≤ last ↔ (rows.countP fun b => lo < key b ∧ key b ≤ key a) ≤ limit := by
  have hlength := h.length
  rw [h.countP]
  constructor
  · intro hle
    have hrest : rest.countP (fun b => key b ≤ key a) = 0 :=
      List.countP_eq_zero.2 fun b hb => by simpa using hle.trans_lt (h.lt b hb)
    have := List.countP_le_length (p := fun b => decide (key b ≤ key a)) (l := page)
    omega
  · intro hcount
    by_contra hlast
    rw [not_le] at hlast
    have hmem : a ∈ page ++ rest := by rw [h.split, mem_sorted]; simp [ha, hlo]
    have hrest : a ∈ rest := (List.mem_append.1 hmem).resolve_left fun hp =>
      (h.le a hp).not_gt hlast
    have hone : 0 < rest.countP (fun b => key b ≤ key a) :=
      List.countP_pos_iff.2 ⟨a, hrest, by simp⟩
    have hall : page.countP (fun b => key b ≤ key a) = page.length :=
      List.countP_eq_length.2 fun b hb => by simpa using (h.le b hb).trans hlast.le
    have hsplit := congrArg List.length h.split
    rw [List.length_append, sorted, List.length_insertionSort,
      ← List.countP_eq_length_filter] at hsplit
    have hpos := List.length_pos_of_mem hrest
    omega

end Keyset
