import Mathlib.Data.List.Sort
import Mathlib.Data.Rat.Floor

/-! Python floats, as far as they are written down, compared, computed with and sorted by. Nothing is assumed of
    the operations, so that what is proved holds whatever they round to. -/

class PyFloat (α : Type*) extends LinearOrder α, Zero α, Add α, Sub α, Mul α, Div α, NatCast α, OfScientific α

namespace PyFloat

instance : PyFloat ℚ where

variable {α β : Type*}

/-- `a or b`. -/
def orElse [DecidableEq α] [Zero α] (a b : α) : α := if a = 0 then b else a

section
variable [DecidableEq α] [Zero α]

@[simp] theorem orElse_zero_left (b : α) : orElse 0 b = b := if_pos rfl

theorem orElse_of_ne {a : α} (h : a ≠ 0) (b : α) : orElse a b = a := if_neg h

@[simp] theorem orElse_zero_right (a : α) : orElse a 0 = a := by
  rw [orElse]
  split_ifs with h
  · exact h.symm
  · rfl

theorem orElse_eq_zero {a b : α} : orElse a b = 0 ↔ a = 0 ∧ b = 0 := by
  rw [orElse]
  split_ifs with h <;> simp [h]

end

variable [LinearOrder α]

/-- `sorted(l, key=key, reverse=True)`: equal keys stay in their order. -/
def sortDesc (key : β → α) (l : List β) : List β := l.insertionSort fun a b => key b ≤ key a

variable {key : β → α} {l : List β}

theorem perm_sortDesc (key : β → α) (l : List β) : (sortDesc key l).Perm l := List.perm_insertionSort _ l

@[simp] theorem mem_sortDesc {x : β} : x ∈ sortDesc key l ↔ x ∈ l := List.mem_insertionSort _

theorem pairwise_sortDesc (key : β → α) (l : List β) : (sortDesc key l).Pairwise fun a b => key b ≤ key a := by
  have : IsTrans β fun a b => key b ≤ key a := ⟨fun _ _ _ hab hbc => le_trans hbc hab⟩
  have : Std.Total fun a b : β => key b ≤ key a := ⟨fun a b => le_total (key b) (key a)⟩
  exact List.pairwise_insertionSort _ l

end PyFloat
