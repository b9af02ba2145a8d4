import AgentLangraph.Lib.PyText
import Mathlib.Data.List.Nodup

/-! Texts over symbols that carry a character and perhaps something more, such as where the character comes
    from. The string methods look at the characters only, so what they do to a text they do in the same way
    to every marked copy of it, and the marks tell what has become of each character.

        "ab c"  ──mark──▶  (a,0)(b,1)( ,2)(c,3)  ──chars──▶  "ab c" -/

namespace Symbols
open PyText

/-- A symbol: its character, and the symbol of a line break that a program writes itself. -/
class Symbol (α : Type*) where
  char : α → Char
  newline : α
  char_newline : char newline = '\n'

export Symbol (char newline char_newline)

/-- A character as it stands. -/
instance : Symbol Char := ⟨id, '\n', rfl⟩

/-- A character and the place that it comes from, if it comes from the text. -/
abbrev Marked := Char × Option ℕ

instance : Symbol Marked := ⟨Prod.fst, ('\n', none), rfl⟩

/-- A text with its places. -/
def mark (t : Text) : List Marked := t.zipIdx.map fun x => (x.1, some x.2)

variable {α β : Type*} [Symbol α] [Symbol β]

/-- The characters of a text. -/
def chars (t : List α) : Text := t.map char

/-- The symbols that are not whitespace. -/
def solid (t : List α) : List α := t.filter fun a => !isSpace (char a)

def lstrip (t : List α) : List α := t.dropWhile fun a => isSpace (char a)

/-- `str.strip`. -/
def strip (t : List α) : List α := (lstrip t).rdropWhile fun a => isSpace (char a)

/-- `t[i:j]`. -/
def slice {α : Type*} (t : List α) (i j : ℕ) : List α := (t.take j).drop i

/-! ### Slices -/

section Slices

variable {α : Type*} {t : List α} {i j k : ℕ}

/-- A text from a place on, cut at a later one. -/
theorem drop_eq_slice_append (h : i ≤ j) : t.drop i = slice t i j ++ t.drop j := by
  have hrest : t.drop j = (t.drop i).drop (j - i) := by rw [List.drop_drop, Nat.add_sub_cancel' h]
  rw [slice, List.drop_take, hrest, List.take_append_drop]

theorem slice_append (hij : i ≤ j) (hjk : j ≤ k) : slice t i k = slice t i j ++ slice t j k := by
  have htake : t.take j = (t.take k).take j := by rw [List.take_take, Nat.min_eq_left hjk]
  have hslice : slice t i j = slice (t.take k) i j := by rw [slice, slice, htake]
  rw [hslice]
  exact drop_eq_slice_append hij

theorem slice_subset_take (t : List α) (i j : ℕ) : slice t i j ⊆ t.take j := List.drop_subset i _

theorem slice_subset_drop (t : List α) (i j : ℕ) : slice t i j ⊆ t.drop i := by
  rw [slice, List.drop_take]
  exact List.take_subset _ _

theorem slice_subset (t : List α) (i j : ℕ) : slice t i j ⊆ t :=
  List.Subset.trans (slice_subset_take t i j) (List.take_subset j t)

end Slices

/-! ### What is not whitespace -/

section Solid

variable {t u : List α}

@[simp] theorem solid_nil : solid ([] : List α) = [] := rfl

@[simp] theorem solid_append (t u : List α) : solid (t ++ u) = solid t ++ solid u :=
  List.filter_append t u

theorem mem_solid {a : α} : a ∈ solid t ↔ a ∈ t ∧ isSpace (char a) = false := by
  rw [solid, List.mem_filter, Bool.not_eq_true']

theorem solid_eq_nil_iff : solid t = [] ↔ ∀ a ∈ t, isSpace (char a) = true := by
  rw [solid, List.filter_eq_nil_iff]
  simp

theorem solid_sublist (t : List α) : (solid t).Sublist t := List.filter_sublist

theorem solid_mono (h : t.Sublist u) : (solid t).Sublist (solid u) := h.filter _

theorem filter_dropWhile_not {α : Type*} (p : α → Bool) : ∀ t : List α,
    (t.dropWhile p).filter (fun a => !p a) = t.filter fun a => !p a
  | [] => rfl
  | a :: t => by
    rw [List.dropWhile_cons]
    split_ifs with h
    · rw [filter_dropWhile_not p t, List.filter_cons_of_neg (by simp [h])]
    · rfl

@[simp] theorem solid_lstrip (t : List α) : solid (lstrip t) = solid t :=
  filter_dropWhile_not (fun a => isSpace (char a)) t

theorem solid_rdropWhile (t : List α) : solid (t.rdropWhile fun a => isSpace (char a)) = solid t := by
  rw [List.rdropWhile, solid, List.filter_reverse, filter_dropWhile_not, ← List.filter_reverse,
    List.reverse_reverse, solid]

@[simp] theorem solid_strip (t : List α) : solid (strip t) = solid t := by
  rw [strip, solid_rdropWhile, solid_lstrip]

theorem strip_sublist (t : List α) : (strip t).Sublist t :=
  ((List.rdropWhile_prefix _ _).sublist).trans (List.dropWhile_sublist _)

theorem strip_subset (t : List α) : strip t ⊆ t := (strip_sublist t).subset

/-- A text is stripped to nothing just where it is all whitespace. -/
theorem strip_eq_nil_iff_solid : strip t = [] ↔ solid t = [] := by
  constructor
  · intro h
    rw [← solid_strip, h, solid_nil]
  · intro h
    have hspace := solid_eq_nil_iff.1 h
    rw [strip, lstrip, List.dropWhile_eq_nil_iff.2 fun a ha => hspace a ha]
    rfl

@[simp] theorem solid_newline : solid [(newline : α)] = [] :=
  solid_eq_nil_iff.2 fun a ha => by rw [List.mem_singleton.1 ha, char_newline]; decide

end Solid

/-! ### Other marks -/

/-- A change of the marks only. -/
structure Relabels (f : α → β) : Prop where
  char_eq : ∀ a, char (f a) = char a
  newline_eq : f newline = newline

section Relabel

variable {f : α → β} (hf : Relabels f)

include hf

theorem Relabels.chars_map (t : List α) : chars (t.map f) = chars t := by
  rw [chars, chars, List.map_map]
  exact List.map_congr_left fun a _ => hf.char_eq a

theorem Relabels.lstrip_map (t : List α) : lstrip (t.map f) = (lstrip t).map f := by
  rw [lstrip, lstrip, List.dropWhile_map]
  simp only [Function.comp_def, hf.char_eq]

theorem Relabels.solid_map (t : List α) : solid (t.map f) = (solid t).map f := by
  rw [solid, solid, List.filter_map]
  simp only [Function.comp_def, hf.char_eq]

theorem Relabels.strip_map (t : List α) : strip (t.map f) = (strip t).map f := by
  rw [strip, strip, hf.lstrip_map, List.rdropWhile, List.rdropWhile, ← List.map_reverse, List.dropWhile_map,
    List.map_reverse]
  simp only [Function.comp_def, hf.char_eq]

end Relabel

theorem slice_map {α β : Type*} (f : α → β) (t : List α) (i j : ℕ) : slice (t.map f) i j = (slice t i j).map f := by
  rw [slice, slice, ← List.map_take, List.map_drop]

/-- Only the characters are left. -/
theorem relabels_char : Relabels (char : α → Char) := ⟨fun _ => rfl, char_newline⟩

/-- Stripping a text strips its characters. -/
theorem chars_strip (t : List α) : chars (strip t) = PyText.strip (chars t) := (relabels_char.strip_map t).symm

@[simp] theorem strip_strip (t : List α) : strip (strip t) = strip t := by
  refine (strip_sublist (strip t)).eq_of_length ?_
  have hchars : chars (strip (strip t)) = chars (strip t) := by
    rw [chars_strip, chars_strip, PyText.strip_strip]
  have hlength := congrArg List.length hchars
  rwa [chars, chars, List.length_map, List.length_map] at hlength

/-- The marks can be taken away again. -/
theorem relabels_erase : Relabels (Prod.fst : Marked → Char) := ⟨fun _ => rfl, rfl⟩

theorem map_mark (t : Text) : (mark t).map Prod.fst = t := by
  rw [mark, List.map_map]
  exact List.zipIdx_map_fst ..

/-- Every character of a text comes from a place of its own, and from the text. -/
theorem nodup_mark (t : Text) : (mark t).Nodup := by
  have hplaces : (t.zipIdx.map Prod.snd).Nodup := by
    rw [List.zipIdx_map_snd]
    exact List.nodup_range'
  refine (hplaces.of_map Prod.snd).map ?_
  rintro ⟨c, i⟩ ⟨d, j⟩ h
  cases h
  rfl

theorem newline_not_mem_mark (t : Text) : (newline : Marked) ∉ mark t := by
  intro h
  obtain ⟨x, -, hx⟩ := List.mem_map.1 h
  have hplace : some x.2 = none := congrArg Prod.snd hx
  cases hplace

end Symbols
