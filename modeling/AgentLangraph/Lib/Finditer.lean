import AgentLangraph.Lib.RegexSearch
import Mathlib.Algebra.GroupWithZero.Nat

/-! `re.finditer` with the parts of a pattern, for patterns that never match the empty text. A match is
    where it starts and how long each part is; the matches stand in the text one behind the other:

        0 ≤ start ── parts ──▶ stop ≤ start ── parts ──▶ stop ≤ … ≤ length -/

namespace Regex
open PyText

/-! ### Matches -/

/-- Where a match starts, and the lengths of its parts. -/
structure Match where
  start : ℕ
  parts : List ℕ
  deriving DecidableEq

/-- Where a part of a match starts. -/
def Match.partStart (m : Match) (k : ℕ) : ℕ := m.start + (m.parts.take k).sum

def Match.stop (m : Match) : ℕ := m.start + m.parts.sum

/-- The parts of an expression one after the other, in backtracking order: their lengths, and where they end. -/
def partEnds : List Re → Cursor → List (List ℕ × Cursor)
  | [], cur => [([], cur)]
  | r :: rs, cur => (ends r cur).flatMap fun e =>
      (partEnds rs e).map fun x => ((cur.rest.length - e.rest.length) :: x.1, x.2)

/-- A pattern in parts, between two assertions on the characters at its borders. -/
structure Parts where
  opens : Option Char → Bool
  parts : List Re
  closes : Option Char → Bool
  plain : ∀ r ∈ parts, r.Plain

/-- The parts of the match at a cursor. -/
def Parts.matchAt (pat : Parts) (cur : Cursor) : Option (List ℕ) :=
  if pat.opens cur.prev then
    ((partEnds pat.parts cur).find? fun x => pat.closes x.2.rest.head?).map Prod.fst
  else none

/-- The cursor some code points further on. -/
def Cursor.advance (cur : Cursor) (n : ℕ) : Cursor := ⟨lastOf cur.prev (cur.rest.take n), cur.rest.drop n⟩

/-- The matches from a cursor on. The fuel bounds the number of positions that are looked at. -/
def Parts.finditerFrom (pat : Parts) : ℕ → ℕ → Cursor → List Match
  | 0, _, _ => []
  | fuel + 1, i, cur =>
    match pat.matchAt cur with
    | some parts => ⟨i, parts⟩ :: pat.finditerFrom fuel (i + parts.sum) (cur.advance parts.sum)
    | none =>
      match cur.rest with
      | [] => []
      | c :: cs => pat.finditerFrom fuel (i + 1) ⟨some c, cs⟩

/-- `re.finditer`. -/
def Parts.finditer (pat : Parts) (t : Text) : List Match := pat.finditerFrom (t.length + 1) 0 ⟨none, t⟩

/-! ### What the parts match -/

theorem partEnds_spec : ∀ {rs : List Re}, (∀ r ∈ rs, r.Plain) → ∀ {cur : Cursor} {x : List ℕ × Cursor},
    x ∈ partEnds rs cur → ∃ ms : List Text, List.Forall₂ Lang rs ms ∧ x.1 = ms.map List.length ∧
      cur.rest = ms.flatten ++ x.2.rest
  | [], _, cur, x, hx => by
    rw [partEnds, List.mem_singleton] at hx
    exact ⟨[], .nil, by rw [hx]; rfl, by rw [hx]; rfl⟩
  | r :: rs, hplain, cur, x, hx => by
    rw [partEnds, List.mem_flatMap] at hx
    obtain ⟨e, he, hx⟩ := hx
    obtain ⟨y, hy, rfl⟩ := List.mem_map.1 hx
    obtain ⟨m, rest, hm, hcur, rfl⟩ := (mem_ends_iff (hplain r List.mem_cons_self)).1 he
    obtain ⟨ms, hms, hlens, hrest⟩ := partEnds_spec (fun r hr => hplain r (List.mem_cons_of_mem _ hr)) hy
    refine ⟨m :: ms, .cons hm hms, ?_, ?_⟩
    · rw [List.map_cons, ← hlens, hcur, Cursor.after]
      simp
    · rw [List.flatten_cons, List.append_assoc, ← hrest, hcur, Cursor.after]

variable {pat : Parts}

/-- A match is made of texts that the parts match. -/
theorem Parts.matchAt_some {cur : Cursor} {parts : List ℕ} (h : pat.matchAt cur = some parts) :
    ∃ ms rest, List.Forall₂ Lang pat.parts ms ∧ parts = ms.map List.length ∧ cur.rest = ms.flatten ++ rest := by
  rw [matchAt] at h
  split_ifs at h
  obtain ⟨x, hx, rfl⟩ := Option.map_eq_some_iff.1 h
  obtain ⟨ms, hms, hlens, hrest⟩ := partEnds_spec pat.plain (List.mem_of_find?_eq_some hx)
  exact ⟨ms, x.2.rest, hms, hlens, hrest⟩

/-- The matches stand one behind the other from a place in a text on, each made of texts that the parts match. -/
inductive Stand (pat : Parts) (t : Text) : ℕ → List Match → Prop
  | nil {i : ℕ} : i ≤ t.length → Stand pat t i []
  | cons {i : ℕ} {m : Match} {ms : List Match} (texts : List Text) : i ≤ m.start →
      List.Forall₂ Lang pat.parts texts → m.parts = texts.map List.length →
      texts.flatten <+: t.drop m.start → Stand pat t m.stop ms → Stand pat t i (m :: ms)

theorem Stand.mono {t : Text} {i j : ℕ} {ms : List Match} (h : Stand pat t j ms) (hij : i ≤ j) :
    Stand pat t i ms := by
  cases h with
  | nil hj => exact .nil (hij.trans hj)
  | cons texts hj hlang hparts hpre hrest => exact .cons texts (hij.trans hj) hlang hparts hpre hrest

theorem Match.start_le_stop (m : Match) : m.start ≤ m.stop := Nat.le_add_right ..

theorem Stand.le_length {t : Text} {ms : List Match} : ∀ {i : ℕ}, Stand pat t i ms → i ≤ t.length := by
  induction ms with
  | nil =>
    intro i h
    cases h with
    | nil hi => exact hi
  | cons m ms ih =>
    intro i h
    cases h with
    | cons texts hi hlang hparts hpre hrest => exact hi.trans (m.start_le_stop.trans (ih hrest))

theorem sum_map_length (texts : List Text) : (texts.map List.length).sum = texts.flatten.length :=
  List.length_flatten.symm

theorem Parts.stand_finditerFrom {t : Text} : ∀ {fuel i : ℕ} {cur : Cursor}, i ≤ t.length → cur.rest = t.drop i →
    Stand pat t i (pat.finditerFrom fuel i cur)
  | 0, i, cur, hi, _ => .nil hi
  | fuel + 1, i, cur, hi, hcur => by
    rw [finditerFrom]
    cases hmatch : pat.matchAt cur with
    | some parts =>
      obtain ⟨texts, rest, hlang, rfl, hrest⟩ := matchAt_some hmatch
      rw [hcur] at hrest
      have hlen : i + (texts.map List.length).sum ≤ t.length := by
        have hlength := congrArg List.length hrest
        rw [List.length_drop, List.length_append, ← sum_map_length] at hlength
        omega
      refine .cons texts le_rfl hlang rfl ⟨rest, hrest.symm⟩ (stand_finditerFrom hlen ?_)
      rw [Cursor.advance, hcur, List.drop_drop]
      rfl
    | none =>
      dsimp only
      cases hrest : cur.rest with
      | nil => exact .nil hi
      | cons c cs =>
        have hdrop : t.drop i = c :: cs := by rw [← hcur, hrest]
        have hlt : i < t.length := by
          by_contra hge
          rw [List.drop_eq_nil_of_le (Nat.not_lt.1 hge)] at hdrop
          cases hdrop
        have hnext : t.drop (i + 1) = cs := by
          rw [← List.drop_drop, hdrop]
          rfl
        exact (stand_finditerFrom hlt hnext.symm).mono (Nat.le_succ i)

/-- FINDITER: the matches stand in the text one behind the other. -/
theorem Parts.stand_finditer (pat : Parts) (t : Text) : Stand pat t 0 (pat.finditer t) :=
  stand_finditerFrom (Nat.zero_le _) rfl

end Regex
