import AgentLangraph.Lib.PyText
import Mathlib.Data.List.Infix

/-! `LIKE` of SQL: `%` stands for any text, `_` for any character, and characters are compared as `fold` has
    them. Patterns that end in their only `%` ask how a text begins. -/

namespace SqlLike
open PyText

/-- `x LIKE p`. -/
def like (fold : Char → Char) : Text → Text → Bool
  | [], x => x.isEmpty
  | c :: p, x =>
    if c = '%' then x.tails.any (like fold p)
    else match x with
      | [] => false
      | d :: x => (c == '_' || fold c == fold d) && like fold p x

/-- The text begins as the pattern, in which `_` stands for any character. -/
def begins (fold : Char → Char) : Text → Text → Bool
  | [], _ => true
  | _ :: _, [] => false
  | c :: p, d :: x => (c == '_' || fold c == fold d) && begins fold p x

variable {fold : Char → Char}

theorem like_cons {c : Char} (h : c ≠ '%') (p x : Text) (d : Char) :
    like fold (c :: p) (d :: x) = ((c == '_' || fold c == fold d) && like fold p x) := by
  rw [like, if_neg h]

theorem like_cons_nil {c : Char} (h : c ≠ '%') (p : Text) : like fold (c :: p) [] = false := by
  rw [like, if_neg h]

/-- PREFIX RULE. -/
theorem like_percent : ∀ {p : Text} (x : Text), '%' ∉ p → like fold (p ++ ['%']) x = begins fold p x
  | [], x, _ => by
      simp [like, begins]
  | c :: p, x, h => by
      rw [List.mem_cons, not_or] at h
      cases x with
      | nil => rw [List.cons_append, like_cons_nil (Ne.symm h.1), begins]
      | cons d x => rw [List.cons_append, like_cons (Ne.symm h.1), begins, like_percent x h.2]

/-- A character that only matches itself is not passed over. -/
theorem begins_of_not_mem {c : Char} (hc : c ≠ '_') (hfold : ∀ d, fold c = fold d ↔ d = c) (q : Text) :
    ∀ (p : Text) {x : Text}, c ∉ x → begins fold (p ++ c :: q) x = false
  | p, [], _ => by cases p <;> rfl
  | [], d :: x, h => by
      rw [List.mem_cons, not_or] at h
      simp [begins, hc, hfold, Ne.symm h.1]
  | b :: p, d :: x, h => by
      rw [List.mem_cons, not_or] at h
      rw [List.cons_append, begins, begins_of_not_mem hc hfold q p h.2, Bool.and_false]

end SqlLike
