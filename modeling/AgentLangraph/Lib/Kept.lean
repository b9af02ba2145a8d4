import Mathlib.Data.List.Infix
import Mathlib.Tactic.SplitIfs

/-! What is kept of a list: the first copies of its elements, the longest end that fits, or some of the pieces that
    it is cut into. -/

/-! ### First copies

    For any relation of being a copy: an element is passed over when it is a copy of one that has been kept before
    it. The relation need be neither symmetric nor transitive.

        a  b  a'  c  b'   ──▶   a  b  c -/

namespace Firsts

variable {α : Type*} (copy : α → α → Prop) [DecidableRel copy]

/-- The elements that are kept, behind those that have been. -/
def firstsFrom : List α → List α → List α
  | _, [] => []
  | kept, a :: as => if ∃ k ∈ kept, copy a k then firstsFrom kept as else a :: firstsFrom (kept ++ [a]) as

def firsts (as : List α) : List α := firstsFrom copy [] as

variable {copy} {kept as : List α}

theorem firstsFrom_sublist (as : List α) : ∀ kept : List α, (firstsFrom copy kept as).Sublist as := by
  induction as with
  | nil => exact fun _ => List.Sublist.refl _
  | cons a as ih =>
    intro kept
    rw [firstsFrom]
    split_ifs
    · exact (ih kept).cons a
    · exact (ih _).cons_cons a

/-- What comes behind sees what has been kept. -/
theorem firstsFrom_append (as bs : List α) : ∀ kept : List α, firstsFrom copy kept (as ++ bs) =
    firstsFrom copy kept as ++ firstsFrom copy (kept ++ firstsFrom copy kept as) bs := by
  induction as with
  | nil =>
    intro kept
    rw [List.nil_append, firstsFrom, List.nil_append, List.append_nil]
  | cons a as ih =>
    intro kept
    rw [List.cons_append, firstsFrom, firstsFrom]
    split_ifs
    · exact ih kept
    · rw [ih, List.cons_append, List.append_assoc, List.singleton_append]

/-- Nothing more is passed over. -/
theorem firstsFrom_firstsFrom (as : List α) : ∀ kept : List α,
    firstsFrom copy kept (firstsFrom copy kept as) = firstsFrom copy kept as := by
  induction as with
  | nil => exact fun _ => rfl
  | cons a as ih =>
    intro kept
    rw [firstsFrom]
    split_ifs with hcopy
    · exact ih kept
    · rw [firstsFrom, if_neg hcopy, ih]

theorem firsts_append (as bs : List α) :
    firsts copy (as ++ bs) = firsts copy as ++ firstsFrom copy (firsts copy as) bs := by
  rw [firsts, firstsFrom_append]
  rfl

/-- An element is kept at its place unless it is a copy of one that is kept before it. -/
theorem firsts_cons (before : List α) (a : α) (after : List α) : ∃ rest, rest.Sublist after ∧
    firsts copy (before ++ a :: after) =
      firsts copy before ++ (if ∃ k ∈ firsts copy before, copy a k then [] else [a]) ++ rest := by
  rw [firsts_append, firstsFrom]
  by_cases hcopy : ∃ k ∈ firsts copy before, copy a k
  · refine ⟨firstsFrom copy (firsts copy before) after, firstsFrom_sublist after _, ?_⟩
    rw [if_pos hcopy, if_pos hcopy, List.append_nil]
  · refine ⟨firstsFrom copy (firsts copy before ++ [a]) after, firstsFrom_sublist after _, ?_⟩
    rw [if_neg hcopy, if_neg hcopy, List.append_assoc, List.singleton_append]

end Firsts

/-! ### The longest end that fits

    What is left when elements are dropped from the front until the rest fits; no end that fits is longer.

        1 2 3 4 5 ──✗──▶ 2 3 4 5 ──✗──▶ 3 4 5 ✓ -/

namespace Newest

variable {α β : Type*}

/-- The longest end of a list that fits. -/
def newest (fits : List α → Bool) : List α → List α
  | [] => []
  | a :: as => if fits (a :: as) then a :: as else newest fits as

variable {fits : List α → Bool}

theorem newest_suffix : ∀ l : List α, newest fits l <:+ l
  | [] => List.suffix_rfl
  | a :: as => by
    rw [newest]
    split_ifs
    · exact List.suffix_rfl
    · exact (newest_suffix as).trans (List.suffix_cons a as)

theorem fits_newest (hnil : fits []) : ∀ l : List α, fits (newest fits l)
  | [] => hnil
  | a :: as => by
    rw [newest]
    split_ifs with h
    · exact h
    · exact fits_newest hnil as

/-- No end that fits is longer. -/
theorem suffix_newest {m : List α} (hm : fits m) : ∀ {l : List α}, m <:+ l → m <:+ newest fits l
  | [], h => h
  | a :: as, h => by
    rw [newest]
    split_ifs with hfits
    · exact h
    · rcases List.suffix_cons_iff.1 h with rfl | hrest
      · exact absurd hm hfits
      · exact suffix_newest hm hrest

theorem newest_map (f : β → α) : ∀ l : List β,
    newest fits (l.map f) = (newest (fun m => fits (m.map f)) l).map f
  | [] => rfl
  | b :: bs => by
    rw [List.map_cons, newest, newest, newest_map f bs, List.map_cons]
    split_ifs <;> rfl

/-- One more element that every end can take. -/
theorem newest_concat {a : α} (hone : fits [a]) : ∀ {l : List α},
    (∀ m, m ≠ [] → m <:+ l → fits (m ++ [a]) = fits m) → newest fits (l ++ [a]) = newest fits l ++ [a]
  | [], _ => if_pos hone
  | x :: l, h => by
    rw [List.cons_append, newest, newest, ← List.cons_append, h (x :: l) (List.cons_ne_nil x l) List.suffix_rfl,
      newest_concat hone fun m hne hm => h m hne (hm.trans (List.suffix_cons x l))]
    split_ifs <;> rfl

/-- One more element that no end can take. -/
theorem newest_concat_alone {a : α} (hone : fits [a]) : ∀ {l : List α},
    (∀ m, m ≠ [] → m <:+ l → fits (m ++ [a]) = false) → newest fits (l ++ [a]) = [a]
  | [], _ => if_pos hone
  | x :: l, h => by
    rw [List.cons_append, newest, ← List.cons_append, h (x :: l) (List.cons_ne_nil x l) List.suffix_rfl,
      if_neg (by decide), newest_concat_alone hone fun m hne hm => h m hne (hm.trans (List.suffix_cons x l))]

end Newest

/-! ### Pieces

    A text is cut into pieces, each of which is kept or dropped by itself. What is left does not depend on the cut
    just where no piece that some cut could make is dropped.

        a a b b a   ──cut──▶   a│ab│ba   ──keep──▶   a ··· ba -/

namespace Cuts

variable {α : Type*}

/-- What is kept of the pieces. -/
def kept (keep : List α → Bool) (pieces : List (List α)) : List α := (pieces.filter keep).flatten

variable {keep : List α → Bool} {t : List α}

theorem kept_append (l m : List (List α)) : kept keep (l ++ m) = kept keep l ++ kept keep m := by
  rw [kept, List.filter_append, List.flatten_append]
  rfl

/-- A piece is a part of the text. -/
theorem infix_of_mem {l : List (List α)} (hl : l.flatten = t) {p : List α} (hp : p ∈ l) : p <:+: t := by
  obtain ⟨before, after, rfl⟩ := List.append_of_mem hp
  refine ⟨before.flatten, after.flatten, ?_⟩
  rw [← hl, List.flatten_append, List.flatten_cons, List.append_assoc]

/-- All pieces are kept where all parts are. -/
theorem kept_eq_self (h : ∀ p, p <:+: t → keep p) {l : List (List α)} (hl : l.flatten = t) :
    kept keep l = t := by
  rw [kept, List.filter_eq_self.2 fun p hp => h p (infix_of_mem hl hp), hl]

/-- The finest cut. -/
def singles (t : List α) : List (List α) := t.map fun a => [a]

theorem flatten_singles (t : List α) : (singles t).flatten = t := by
  induction t with
  | nil => rfl
  | cons a t ih =>
    rw [singles, List.map_cons, List.flatten_cons]
    exact congrArg (a :: ·) ih

theorem kept_singles (h : ∀ a, keep [a]) (t : List α) : kept keep (singles t) = t := by
  have hall : (singles t).filter keep = singles t := by
    rw [List.filter_eq_self]
    intro p hp
    obtain ⟨a, -, rfl⟩ := List.mem_map.1 hp
    exact h a
  rw [kept, hall, flatten_singles]

/-- What is left does not depend on the cut just where all parts of the text are kept. -/
theorem kept_same_iff (hnil : keep []) (hsingle : ∀ a, keep [a]) (t : List α) :
    (∀ l m : List (List α), l.flatten = t → m.flatten = t → kept keep l = kept keep m) ↔
      ∀ p, p <:+: t → keep p := by
  constructor
  · rintro h p ⟨pre, suf, rfl⟩
    by_contra hdrop
    have hne : p ≠ [] := by
      rintro rfl
      exact hdrop hnil
    -- the part by itself, against the text symbol by symbol
    have hcut : (singles pre ++ p :: singles suf).flatten = pre ++ p ++ suf := by
      rw [List.flatten_append, List.flatten_cons, flatten_singles, flatten_singles, List.append_assoc]
    have hsame := h _ _ hcut (flatten_singles _)
    have hrest : kept keep (p :: singles suf) = kept keep (singles suf) := by
      rw [kept, List.filter_cons_of_neg hdrop]
      rfl
    rw [kept_append, hrest, kept_singles hsingle, kept_singles hsingle, kept_singles hsingle] at hsame
    have hlen := congrArg List.length hsame
    have hpos := List.length_pos_iff.2 hne
    simp only [List.length_append] at hlen
    omega
  · intro h l m hl hm
    rw [kept_eq_self h hl, kept_eq_self h hm]

end Cuts
