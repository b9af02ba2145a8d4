import AgentLangraph.Lib.Regex

/-! `re.search` with a pattern that looks around: what the pattern itself matches is a language, and on
    either side of it the characters next to the border may be looked at. A search finds something
    exactly when the text has an occurrence, and a text cut behind an occurrence still has it unless
    the pattern looks at what was cut off. -/

namespace Regex
open PyText

/-! ### The language of an expression -/

/-- No assertion inside. -/
def Re.Plain : Re → Prop
  | .cls _ | .rep .. => True
  | .opt r => r.Plain
  | .seq r s | .alt r s => r.Plain ∧ s.Plain
  | .boundary _ => False

instance Re.decidablePlain : (r : Re) → Decidable r.Plain
  | .cls _ | .rep .. => isTrue trivial
  | .opt r => Re.decidablePlain r
  | .seq r s | .alt r s =>
    have := Re.decidablePlain r
    have := Re.decidablePlain s
    inferInstanceAs (Decidable (_ ∧ _))
  | .boundary _ => isFalse id

/-- The texts an expression without assertions matches. -/
def Lang : Re → Text → Prop
  | .cls p, m => ∃ c, m = [c] ∧ p c
  | .rep p lo hi, m => (∀ c ∈ m, p c) ∧ lo ≤ m.length ∧ hi.all fun h => m.length ≤ h
  | .opt r, m => Lang r m ∨ m = []
  | .seq r s, m => ∃ m₁ m₂, m = m₁ ++ m₂ ∧ Lang r m₁ ∧ Lang s m₂
  | .alt r s, m => Lang r m ∨ Lang s m
  | .boundary _, _ => False

/-- The character before a place, of a text after `prev`. -/
def lastOf (prev : Option Char) (m : Text) : Option Char := m.getLast?.or prev

theorem lastOf_nil (prev : Option Char) : lastOf prev [] = prev := Option.none_or

theorem lastOf_append (prev : Option Char) (m m' : Text) :
    lastOf prev (m ++ m') = lastOf (lastOf prev m) m' := by
  rw [lastOf, lastOf, lastOf, List.getLast?_append, Option.or_assoc]

theorem lastOf_cons (prev : Option Char) (c : Char) (m : Text) :
    lastOf prev (c :: m) = lastOf (some c) m := lastOf_append prev [c] m

/-- The cursor after `m`. -/
def Cursor.after (prev : Option Char) (m rest : Text) : Cursor := ⟨lastOf prev m, rest⟩

theorem mem_runs_iff {p : Char → Bool} {t : Text} : ∀ {prev : Option Char} {e : Cursor},
    e ∈ runs p prev t ↔ ∃ m rest, (∀ c ∈ m, p c) ∧ t = m ++ rest ∧ e = Cursor.after prev m rest := by
  induction t with
  | nil =>
    intro prev e
    rw [runs, List.mem_singleton]
    constructor
    · rintro rfl
      exact ⟨[], [], by simp, rfl, by rw [Cursor.after, lastOf_nil]⟩
    · rintro ⟨m, rest, -, hm, rfl⟩
      obtain ⟨rfl, rfl⟩ := List.append_eq_nil_iff.1 hm.symm
      rw [Cursor.after, lastOf_nil]
  | cons c cs ih =>
    intro prev e
    have hstop : Cursor.after prev [] (c :: cs) = ⟨prev, c :: cs⟩ := by rw [Cursor.after, lastOf_nil]
    rw [runs]
    constructor
    · intro h
      by_cases hc : p c
      · rw [if_pos hc, List.mem_append, List.mem_singleton] at h
        rcases h with h | rfl
        · obtain ⟨m, rest, hm, rfl, rfl⟩ := ih.1 h
          refine ⟨c :: m, rest, List.forall_mem_cons.2 ⟨hc, hm⟩, rfl, ?_⟩
          rw [Cursor.after, Cursor.after, lastOf_cons]
        · exact ⟨[], c :: cs, by simp, rfl, hstop.symm⟩
      · rw [if_neg hc, List.mem_singleton] at h
        exact ⟨[], c :: cs, by simp, rfl, h.trans hstop.symm⟩
    · rintro ⟨m, rest, hm, heq, rfl⟩
      cases m with
      | nil =>
        rw [List.nil_append] at heq
        rw [← heq, hstop]
        split_ifs
        · exact List.mem_append_right _ (List.mem_singleton_self _)
        · exact List.mem_singleton_self _
      | cons d m =>
        obtain ⟨rfl, rfl⟩ := List.cons.inj heq
        rw [List.forall_mem_cons] at hm
        rw [if_pos hm.1]
        refine List.mem_append_left _ (ih.2 ⟨m, rest, hm.2, rfl, ?_⟩)
        rw [Cursor.after, Cursor.after, lastOf_cons]

/-- ENDS: the engine finds just the texts of the language. -/
theorem mem_ends_iff {r : Re} (h : r.Plain) : ∀ {prev : Option Char} {t : Text} {e : Cursor},
    e ∈ ends r ⟨prev, t⟩ ↔ ∃ m rest, Lang r m ∧ t = m ++ rest ∧ e = Cursor.after prev m rest := by
  induction r with
  | cls p =>
    intro prev t e
    cases t with
    | nil =>
      rw [ends]
      constructor
      · intro he
        cases he
      · rintro ⟨m, rest, ⟨c, rfl, -⟩, heq, -⟩
        cases heq
    | cons c cs =>
      rw [ends]
      constructor
      · intro he
        by_cases hc : p c
        · rw [if_pos hc, List.mem_singleton] at he
          exact ⟨[c], cs, ⟨c, rfl, hc⟩, rfl, he⟩
        · rw [if_neg hc] at he
          cases he
      · rintro ⟨m, rest, ⟨d, rfl, hd⟩, heq, rfl⟩
        obtain ⟨rfl, rfl⟩ := List.cons.inj heq
        rw [if_pos hd]
        exact List.mem_singleton_self _
  | rep p lo hi =>
    intro prev t e
    rw [ends, List.mem_filter, mem_runs_iff, Bool.and_eq_true, decide_eq_true_eq]
    constructor
    · rintro ⟨⟨m, rest, hm, rfl, rfl⟩, hlo, hhi⟩
      have hlen : (m ++ rest).length - rest.length = m.length := by
        rw [List.length_append]
        omega
      rw [Cursor.after, hlen] at hlo hhi
      exact ⟨m, rest, ⟨hm, hlo, hhi⟩, rfl, rfl⟩
    · rintro ⟨m, rest, ⟨hm, hlo, hhi⟩, rfl, rfl⟩
      have hlen : (m ++ rest).length - rest.length = m.length := by
        rw [List.length_append]
        omega
      refine ⟨⟨m, rest, hm, rfl, rfl⟩, ?_⟩
      rw [Cursor.after, hlen]
      exact ⟨hlo, hhi⟩
  | opt r ih =>
    intro prev t e
    rw [ends, List.mem_append, List.mem_singleton, ih h]
    constructor
    · rintro (⟨m, rest, hm, rfl, rfl⟩ | rfl)
      · exact ⟨m, rest, Or.inl hm, rfl, rfl⟩
      · exact ⟨[], t, Or.inr rfl, rfl, by rw [Cursor.after, lastOf_nil]⟩
    · rintro ⟨m, rest, hm | rfl, rfl, rfl⟩
      · exact Or.inl ⟨m, rest, hm, rfl, rfl⟩
      · exact Or.inr (congrArg (fun p => Cursor.mk p _) (lastOf_nil prev))
  | seq r s ihr ihs =>
    intro prev t e
    rw [ends, List.mem_flatMap]
    constructor
    · rintro ⟨e₁, he₁, he⟩
      obtain ⟨m₁, rest₁, hm₁, rfl, rfl⟩ := (ihr h.1).1 he₁
      obtain ⟨m₂, rest, hm₂, rfl, rfl⟩ := (ihs h.2).1 he
      refine ⟨m₁ ++ m₂, rest, ⟨m₁, m₂, rfl, hm₁, hm₂⟩, (List.append_assoc ..).symm, ?_⟩
      rw [Cursor.after, Cursor.after, lastOf_append]
    · rintro ⟨m, rest, ⟨m₁, m₂, rfl, hm₁, hm₂⟩, rfl, rfl⟩
      refine ⟨Cursor.after prev m₁ (m₂ ++ rest),
        (ihr h.1).2 ⟨m₁, m₂ ++ rest, hm₁, List.append_assoc .., rfl⟩,
        (ihs h.2).2 ⟨m₂, rest, hm₂, rfl, ?_⟩⟩
      rw [Cursor.after, Cursor.after, lastOf_append]
  | alt r s ihr ihs =>
    intro prev t e
    rw [ends, List.mem_append, ihr h.1, ihs h.2]
    constructor
    · rintro (⟨m, rest, hm, rfl, rfl⟩ | ⟨m, rest, hm, rfl, rfl⟩)
      · exact ⟨m, rest, Or.inl hm, rfl, rfl⟩
      · exact ⟨m, rest, Or.inr hm, rfl, rfl⟩
    · rintro ⟨m, rest, hm | hm, rfl, rfl⟩
      · exact Or.inl ⟨m, rest, hm, rfl, rfl⟩
      · exact Or.inr ⟨m, rest, hm, rfl, rfl⟩
  | boundary w => exact h.elim

/-! ### Patterns that look around -/

/-- An expression between two assertions on the characters at its borders: the one before the border,
    and the one behind it. -/
structure Pattern where
  opens : Option Char → Option Char → Bool
  body : Re
  closes : Option Char → Option Char → Bool
  plain : body.Plain

/-- `m` is an occurrence of the pattern in `a ++ m ++ b`. -/
def Pattern.Occurs (pat : Pattern) (a m b : Text) : Prop :=
  Lang pat.body m ∧ pat.opens a.getLast? (m ++ b).head? ∧ pat.closes (a ++ m).getLast? b.head?

/-- The end of a match at a cursor. -/
def Pattern.matchAt (pat : Pattern) (cur : Cursor) : Option Cursor :=
  if pat.opens cur.prev cur.rest.head? then
    ((ends pat.body cur).filter fun e => pat.closes e.prev e.rest.head?).head?
  else none

/-- `re.search`: where the first match begins and ends. -/
def Pattern.searchFrom (pat : Pattern) (start : ℕ) (prev : Option Char) : Text → Option (ℕ × ℕ)
  | [] => (pat.matchAt ⟨prev, []⟩).map fun _ => (start, start)
  | c :: cs =>
    match pat.matchAt ⟨prev, c :: cs⟩ with
    | some e => some (start, start + ((c :: cs).length - e.rest.length))
    | none => pat.searchFrom (start + 1) (some c) cs

def Pattern.search (pat : Pattern) (t : Text) : Option (ℕ × ℕ) := pat.searchFrom 0 none t

section
variable {pat : Pattern}

theorem Pattern.matchAt_some {a t : Text} {e : Cursor} (h : pat.matchAt ⟨a.getLast?, t⟩ = some e) :
    ∃ m, t = m ++ e.rest ∧ pat.Occurs a m e.rest := by
  rw [matchAt] at h
  split_ifs at h with hopens
  obtain ⟨hmem, hcloses⟩ := List.mem_filter.1 (List.mem_of_head? h)
  obtain ⟨m, rest, hlang, rfl, rfl⟩ := (mem_ends_iff pat.plain).1 hmem
  refine ⟨m, rfl, hlang, hopens, ?_⟩
  rw [List.getLast?_append]
  exact hcloses

theorem Pattern.matchAt_isSome {a m b : Text} (h : pat.Occurs a m b) :
    ∃ e, pat.matchAt ⟨a.getLast?, m ++ b⟩ = some e := by
  obtain ⟨hlang, hopens, hcloses⟩ := h
  rw [matchAt, if_pos hopens]
  have hmem : Cursor.after a.getLast? m b ∈
      (ends pat.body ⟨a.getLast?, m ++ b⟩).filter fun e => pat.closes e.prev e.rest.head? := by
    refine List.mem_filter.2 ⟨(mem_ends_iff pat.plain).2 ⟨m, b, hlang, rfl, rfl⟩, ?_⟩
    rwa [List.getLast?_append] at hcloses
  cases hlist : (ends pat.body ⟨a.getLast?, m ++ b⟩).filter fun e => pat.closes e.prev e.rest.head? with
  | nil => rw [hlist] at hmem; cases hmem
  | cons e es => exact ⟨e, rfl⟩

theorem Pattern.searchFrom_some {t : Text} : ∀ {a : Text} {i j : ℕ},
    pat.searchFrom a.length a.getLast? t = some (i, j) →
      ∃ a' m b, a ++ t = a' ++ m ++ b ∧ pat.Occurs a' m b ∧ a'.length = i ∧ (a' ++ m).length = j := by
  induction t with
  | nil =>
    intro a i j h
    obtain ⟨e, he, heq⟩ := Option.map_eq_some_iff.1 h
    obtain ⟨m, hm, hocc⟩ := matchAt_some he
    obtain ⟨rfl, hrest⟩ := List.append_eq_nil_iff.1 hm.symm
    obtain ⟨rfl, rfl⟩ := Prod.mk.inj heq
    rw [hrest] at hocc
    exact ⟨a, [], [], by simp, hocc, rfl, by simp⟩
  | cons c cs ih =>
    intro a i j h
    rw [searchFrom] at h
    cases hmatch : pat.matchAt ⟨a.getLast?, c :: cs⟩ with
    | some e =>
      rw [hmatch, Option.some_inj, Prod.mk.injEq] at h
      obtain ⟨m, hm, hocc⟩ := matchAt_some hmatch
      refine ⟨a, m, e.rest, by rw [hm, List.append_assoc], hocc, h.1, ?_⟩
      rw [← h.2, hm, List.length_append, List.length_append]
      omega
    | none =>
      rw [hmatch] at h
      have hlast : (a ++ [c]).getLast? = some c := by simp
      have hlen : (a ++ [c]).length = a.length + 1 := by simp
      obtain ⟨a', m, b, heq, hocc, hi, hj⟩ := @ih (a ++ [c]) i j (by rw [hlast, hlen]; exact h)
      exact ⟨a', m, b, by rw [← heq, List.append_assoc]; rfl, hocc, hi, hj⟩

theorem Pattern.searchFrom_isSome {m b : Text} : ∀ {a' a : Text}, pat.Occurs (a ++ a') m b →
    (pat.searchFrom a.length a.getLast? (a' ++ m ++ b)).isSome := by
  intro a'
  induction a' with
  | nil =>
    intro a h
    rw [List.append_nil] at h
    obtain ⟨e, he⟩ := matchAt_isSome h
    rw [List.nil_append]
    cases hmb : m ++ b with
    | nil =>
      rw [hmb] at he
      rw [searchFrom, he]
      rfl
    | cons c cs =>
      rw [hmb] at he
      rw [searchFrom, he]
      rfl
  | cons c a' ih =>
    intro a h
    have hlast : (a ++ [c]).getLast? = some c := by simp
    have hlen : (a ++ [c]).length = a.length + 1 := by simp
    have hnext := @ih (a ++ [c]) (by rw [List.append_assoc]; exact h)
    rw [hlast, hlen] at hnext
    rw [List.cons_append, List.cons_append, searchFrom]
    cases pat.matchAt ⟨a.getLast?, c :: (a' ++ m ++ b)⟩ with
    | some e => rfl
    | none => exact hnext

/-- SOUND: what a search finds is an occurrence. -/
theorem Pattern.search_some {t : Text} {i j : ℕ} (h : pat.search t = some (i, j)) :
    ∃ a m b, t = a ++ m ++ b ∧ pat.Occurs a m b ∧ a.length = i ∧ (a ++ m).length = j :=
  @searchFrom_some pat t [] i j h

/-- COMPLETE: a search finds something where there is an occurrence. -/
theorem Pattern.search_isSome_iff {t : Text} :
    (pat.search t).isSome ↔ ∃ a m b, t = a ++ m ++ b ∧ pat.Occurs a m b := by
  constructor
  · intro h
    obtain ⟨⟨i, j⟩, hsearch⟩ := Option.isSome_iff_exists.1 h
    obtain ⟨a, m, b, ht, hocc, -⟩ := search_some hsearch
    exact ⟨a, m, b, ht, hocc⟩
  · rintro ⟨a, m, b, rfl, hocc⟩
    exact @searchFrom_isSome pat m b a [] hocc

end

end Regex
