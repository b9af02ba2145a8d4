import Mathlib.Algebra.BigOperators.Group.List.Basic
import Mathlib.Algebra.GroupWithZero.Nat

/-! Parties in a list, of which one moves at a time: what a move does to a count over the parties,
    and to what holds of all of them. -/

namespace Party

variable {α : Type*}

/-- One as a number, if it holds. -/
def one (b : Bool) : ℕ := if b then 1 else 0

@[simp] theorem one_true : one true = 1 := rfl

@[simp] theorem one_false : one false = 0 := rfl

theorem one_le_one (b : Bool) : one b ≤ 1 := by cases b <;> simp

theorem one_mono {b c : Bool} (h : b → c) : one b ≤ one c := by
  cases b with
  | false => exact Nat.zero_le _
  | true =>
    have hc : c = true := h rfl
    subst hc
    exact Nat.le_refl _

/-- COUNT RULE: a move takes what the party counted and adds what it counts now. -/
theorem countP_set (p : α → Bool) : ∀ {l : List α} {i : ℕ} {a : α} (b : α), l[i]? = some a →
    (l.set i b).countP p + one (p a) = l.countP p + one (p b)
  | [], i, a, b, h => by simp at h
  | c :: l, 0, a, b, h => by
      rw [List.getElem?_cons_zero, Option.some.injEq] at h
      rw [List.set_cons_zero, List.countP_cons, List.countP_cons, h, one, one]
      omega
  | c :: l, i + 1, a, b, h => by
      rw [List.getElem?_cons_succ] at h
      have ih := countP_set p b h
      rw [List.set_cons_succ, List.countP_cons, List.countP_cons]
      omega

/-- SUM RULE: the same for a weight of each party. -/
theorem sum_set (w : α → ℕ) : ∀ {l : List α} {i : ℕ} {a : α} (b : α), l[i]? = some a →
    ((l.set i b).map w).sum + w a = (l.map w).sum + w b
  | [], i, a, b, h => by simp at h
  | c :: l, 0, a, b, h => by
      rw [List.getElem?_cons_zero, Option.some.injEq] at h
      rw [List.set_cons_zero, List.map_cons, List.map_cons, List.sum_cons, List.sum_cons, h]
      omega
  | c :: l, i + 1, a, b, h => by
      rw [List.getElem?_cons_succ] at h
      have ih := sum_set w b h
      rw [List.set_cons_succ, List.map_cons, List.map_cons, List.sum_cons, List.sum_cons]
      omega

theorem le_sum (w : α → ℕ) : ∀ {l : List α} {i : ℕ} {a : α}, l[i]? = some a → w a ≤ (l.map w).sum
  | [], i, a, h => by simp at h
  | c :: l, 0, a, h => by
      rw [List.getElem?_cons_zero, Option.some.injEq] at h
      rw [List.map_cons, List.sum_cons, h]
      omega
  | c :: l, i + 1, a, h => by
      rw [List.getElem?_cons_succ] at h
      have ih := le_sum w h
      rw [List.map_cons, List.sum_cons]
      omega

theorem countP_le_sum {κ : Type*} {p : α → Bool} {q : κ → α → Bool} {keys : List κ} : ∀ {l : List α},
    (∀ x ∈ l, p x → ∃ k ∈ keys, q k x) → l.countP p ≤ (keys.map fun k => l.countP (q k)).sum
  | [], _ => Nat.zero_le _
  | x :: l, h => by
      rw [List.forall_mem_cons] at h
      have ih := countP_le_sum h.2
      have hhead : one (p x) ≤ (keys.map fun k => one (q k x)).sum := by
        cases hp : p x with
        | false => exact Nat.zero_le _
        | true =>
          obtain ⟨k, hk, hq⟩ := h.1 hp
          obtain ⟨i, hi⟩ := List.mem_iff_getElem?.1 hk
          have hle := le_sum (fun k => one (q k x)) hi
          rw [hq] at hle
          exact hle
      have hsplit : (keys.map fun k => (x :: l).countP (q k)).sum =
          (keys.map fun k => l.countP (q k)).sum + (keys.map fun k => one (q k x)).sum := by
        rw [← List.sum_map_add]
        simp only [List.countP_cons, one]
      rw [hsplit, List.countP_cons]
      exact Nat.add_le_add ih hhead

theorem sum_le_length {κ : Type*} {f : κ → ℕ} : ∀ {keys : List κ}, (∀ k ∈ keys, f k ≤ 1) →
    (keys.map f).sum ≤ keys.length
  | [], _ => Nat.le_refl 0
  | k :: keys, h => by
      rw [List.forall_mem_cons] at h
      have ih := sum_le_length h.2
      rw [List.map_cons, List.sum_cons, List.length_cons]
      omega

/-- PIGEONHOLE RULE: where every party that is counted has a key, and no key has two, there are no more
    than keys. -/
theorem countP_le_length {κ : Type*} {p : α → Bool} {q : κ → α → Bool} {keys : List κ} {l : List α}
    (hkey : ∀ x ∈ l, p x → ∃ k ∈ keys, q k x) (hone : ∀ k ∈ keys, l.countP (q k) ≤ 1) :
    l.countP p ≤ keys.length := by
  exact Nat.le_trans (countP_le_sum hkey) (sum_le_length hone)

theorem forall_set {P : α → Prop} {l : List α} {i : ℕ} {b : α} (h : ∀ x ∈ l, P x) (hb : P b) :
    ∀ x ∈ l.set i b, P x := by
  intro x hx
  rcases List.mem_or_eq_of_mem_set hx with hx | rfl
  · exact h x hx
  · exact hb

/-- The party that moves is the one at its place; the others are who they were. -/
theorem getElem?_set_of_some {l : List α} {i : ℕ} {a b : α} (h : l[i]? = some a) (j : ℕ) :
    (l.set i b)[j]? = if j = i then some b else l[j]? := by
  have hlt : i < l.length := (List.getElem?_eq_some_iff.1 h).1
  rw [List.getElem?_set, if_pos hlt]
  simp only [eq_comm]

/-- What holds of every party at its place, and of the one that moves at its own, still does. -/
theorem forall_getElem?_set {P : ℕ → α → Prop} {l : List α} {i : ℕ} {a b : α}
    (h : ∀ j x, l[j]? = some x → P j x) (hi : l[i]? = some a) (hb : P i b) :
    ∀ j x, (l.set i b)[j]? = some x → P j x := by
  intro j x hj
  rw [getElem?_set_of_some hi] at hj
  split_ifs at hj with hji
  · rw [Option.some.injEq] at hj
    rw [← hj, hji]
    exact hb
  · exact h j x hj

/-- A party that joins is the last one. -/
theorem getElem?_concat_eq_some {l : List α} {j : ℕ} {a b : α} :
    (l ++ [b])[j]? = some a ↔ l[j]? = some a ∨ j = l.length ∧ b = a := by
  rcases Nat.lt_trichotomy j l.length with hlt | rfl | hgt
  · rw [List.getElem?_append_left hlt, or_iff_left fun h => Nat.ne_of_lt hlt h.1]
  · simp
  · have hnone : l[j]? = none := List.getElem?_eq_none_iff.2 (Nat.le_of_lt hgt)
    have hnone' : (l ++ [b])[j]? = none := List.getElem?_eq_none_iff.2 (by simp; omega)
    simp [hnone, hnone', Nat.ne_of_gt hgt]

/-- Some other party than the one at `i`. -/
def Other (l : List α) (i : ℕ) (x : α) : Prop := ∃ j, j ≠ i ∧ l[j]? = some x

theorem Other.mem {l : List α} {i : ℕ} {x : α} (h : Other l i x) : x ∈ l := by
  obtain ⟨j, -, hj⟩ := h
  exact List.mem_of_getElem? hj

theorem mem_iff_other {l : List α} {i : ℕ} {a : α} (h : l[i]? = some a) (x : α) :
    x ∈ l ↔ x = a ∨ Other l i x := by
  constructor
  · intro hx
    obtain ⟨j, hj⟩ := List.mem_iff_getElem?.1 hx
    rcases eq_or_ne j i with rfl | hne
    · rw [h, Option.some.injEq] at hj
      exact Or.inl hj.symm
    · exact Or.inr ⟨j, hne, hj⟩
  · rintro (rfl | hother)
    · exact List.mem_of_getElem? h
    · exact hother.mem

theorem getElem?_set_same {l : List α} {i : ℕ} {a : α} (h : l[i]? = some a) (b : α) :
    (l.set i b)[i]? = some b := by rw [getElem?_set_of_some h, if_pos rfl]

/-- A move does not touch the others. -/
theorem other_set {l : List α} {i : ℕ} {a : α} (h : l[i]? = some a) (b x : α) :
    Other (l.set i b) i x ↔ Other l i x :=
  exists_congr fun j => and_congr_right fun hne => by rw [getElem?_set_of_some h, if_neg hne]

theorem mem_set_iff_other {l : List α} {i : ℕ} {a : α} (h : l[i]? = some a) (b x : α) :
    x ∈ l.set i b ↔ x = b ∨ Other l i x := by
  rw [mem_iff_other (getElem?_set_same h b), other_set h]

theorem mem_set_self {l : List α} {i : ℕ} {a : α} (h : l[i]? = some a) (b : α) : b ∈ l.set i b :=
  List.mem_of_getElem? (getElem?_set_same h b)

/-- Whoever is not the one that moves is still there. -/
theorem mem_set_of_ne {l : List α} {i : ℕ} {a b x : α} (h : l[i]? = some a) (hx : x ∈ l) (hne : x ≠ a) :
    x ∈ l.set i b :=
  (mem_set_iff_other h b x).2 (Or.inr (((mem_iff_other h x).1 hx).resolve_left hne))

/-- A party that moves back is where it was. -/
theorem set_set_of_some {l : List α} {i : ℕ} {a : α} (h : l[i]? = some a) (b : α) :
    (l.set i b).set i a = l := by
  obtain ⟨hlt, rfl⟩ := List.getElem?_eq_some_iff.1 h
  rw [List.set_set, List.set_getElem_self]

end Party
