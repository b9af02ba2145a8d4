import Mathlib.Data.List.DropRight
import Mathlib.Data.List.Infix
import Mathlib.Data.List.TakeWhile

/-! Python `str` as a list of code points, with the string methods a text pipeline uses: `strip`,
    `splitlines`, `split`, `find`, `startswith`, `join` and slices (`take`, `drop`). Only whitespace
    is fixed here; the tables that say which code points are letters or what `lower` does are not
    small and are left to the caller. The lemmas are about `strip`: when it changes nothing, and
    that it is idempotent. -/

namespace PyText

abbrev Text := List Char

instance : LawfulBEq Text := inferInstance

instance : LawfulBEq (List Text) := inferInstance

/-- `str.isspace` of one code point, which is also what `\s` matches. -/
def isSpace (c : Char) : Bool :=
  c.val ∈ [0x09, 0x0a, 0x0b, 0x0c, 0x0d, 0x1c, 0x1d, 0x1e, 0x1f, 0x20, 0x85, 0xa0, 0x1680,
    0x2028, 0x2029, 0x202f, 0x205f, 0x3000] || (0x2000 ≤ c.val && c.val ≤ 0x200a)

def lstrip (t : Text) : Text := t.dropWhile isSpace

def rstrip (t : Text) : Text := t.rdropWhile isSpace

def strip (t : Text) : Text := rstrip (lstrip t)

/-- The line boundaries of `str.splitlines` (`\r\n` counts as one). -/
def isLineBreak (c : Char) : Bool :=
  c.val ∈ [0x0a, 0x0b, 0x0c, 0x0d, 0x1c, 0x1d, 0x1e, 0x85, 0x2028, 0x2029]

/-- `cur` is the line read so far; the flag says that the last code point was a `\r`. -/
def splitlinesFrom : Text → Bool → Text → List Text
  | cur, _, [] => if cur = [] then [] else [cur]
  | cur, afterCr, c :: cs =>
    if afterCr && c == '\n' then splitlinesFrom cur false cs
    else if isLineBreak c then cur :: splitlinesFrom [] (c == '\r') cs
    else splitlinesFrom (cur ++ [c]) false cs

def splitlines (t : Text) : List Text := splitlinesFrom [] false t

/-- `str.split()` on runs of whitespace. -/
def splitFrom : Text → Text → List Text
  | cur, [] => if cur = [] then [] else [cur]
  | cur, c :: cs =>
    if isSpace c then (if cur = [] then splitFrom [] cs else cur :: splitFrom [] cs)
    else splitFrom (cur ++ [c]) cs

def split (t : Text) : List Text := splitFrom [] t

def startswith (t pre : Text) : Bool := pre.isPrefixOf t

def startswithAny (t : Text) (pres : List Text) : Bool := pres.any (startswith t)

/-- `str.find`: the index of the first occurrence (`none` for `-1`). -/
def find (sub : Text) : Text → Option ℕ
  | [] => if sub = [] then some 0 else none
  | c :: cs => if sub.isPrefixOf (c :: cs) then some 0 else (find sub cs).map (· + 1)

/-- `sub in t`. -/
def contains (t sub : Text) : Bool := (find sub t).isSome

/-- `"\n".join(lines)`. -/
def joinLines (lines : List Text) : Text := List.intercalate ['\n'] lines

/-! ### `strip` -/

/-- Neither the first nor the last code point is whitespace. -/
structure Tight (t : Text) : Prop where
  head : ∀ c ∈ t.head?, isSpace c = false
  last : ∀ c ∈ t.getLast?, isSpace c = false

theorem lstrip_cons_of_not_space {c : Char} (h : isSpace c = false) (t : Text) :
    lstrip (c :: t) = c :: t := by
  rw [lstrip, List.dropWhile_cons_of_neg (by simp [h])]

theorem lstrip_eq_self {t : Text} (h : ∀ c ∈ t.head?, isSpace c = false) : lstrip t = t := by
  cases t with
  | nil => rfl
  | cons c cs => exact lstrip_cons_of_not_space (h c rfl) cs

theorem rstrip_eq_self {t : Text} (h : ∀ c ∈ t.getLast?, isSpace c = false) : rstrip t = t := by
  refine List.rdropWhile_eq_self_iff.2 fun hl => ?_
  simp [h _ (List.getLast?_eq_some_getLast hl)]

theorem Tight.strip_eq {t : Text} (h : Tight t) : strip t = t := by
  rw [strip, lstrip_eq_self h.head, rstrip_eq_self h.last]

theorem head_lstrip (t : Text) : ∀ c ∈ (lstrip t).head?, isSpace c = false := by
  intro c hc
  have h := List.head?_dropWhile_not isSpace t
  rw [lstrip] at hc
  rw [Option.mem_def.1 hc] at h
  exact h

theorem tight_strip (t : Text) : Tight (strip t) := by
  refine ⟨fun c hc => ?_, fun c hc => ?_⟩
  · obtain ⟨s, hs⟩ : strip t <+: lstrip t := List.rdropWhile_prefix isSpace (lstrip t)
    have hne : strip t ≠ [] := by rintro h; rw [h] at hc; simp at hc
    refine head_lstrip t c ?_
    rw [← hs, List.head?_append_of_ne_nil _ hne]
    exact hc
  · have hne : strip t ≠ [] := by rintro h; rw [h] at hc; simp at hc
    have hlast : ¬ isSpace ((strip t).getLast hne) := List.rdropWhile_last_not isSpace (lstrip t) hne
    rw [Option.mem_def, List.getLast?_eq_some_getLast hne, Option.some.injEq] at hc
    simpa [← hc] using hlast

@[simp] theorem strip_strip (t : Text) : strip (strip t) = strip t := (tight_strip t).strip_eq

/-- A text is stripped to nothing exactly when it is all whitespace. -/
theorem strip_eq_nil_iff {t : Text} : strip t = [] ↔ ∀ c ∈ t, isSpace c = true := by
  constructor
  · intro h
    have hall : ∀ c ∈ lstrip t, isSpace c = true := List.rdropWhile_eq_nil_iff.1 h
    have hnil : lstrip t = [] := by
      cases hl : lstrip t with
      | nil => rfl
      | cons c cs =>
        have hc := head_lstrip t c (by rw [hl]; rfl)
        rw [hall c (by rw [hl]; exact List.mem_cons_self)] at hc
        simp at hc
    exact List.dropWhile_eq_nil_iff.1 hnil
  · intro h
    rw [strip, lstrip, List.dropWhile_eq_nil_iff.2 h]
    rfl

/-- Whitespace in front of a text does not change what `strip` leaves. -/
theorem strip_cons_space {c : Char} (h : isSpace c = true) (t : Text) : strip (c :: t) = strip t := by
  rw [strip, strip, lstrip, List.dropWhile_cons_of_pos h, lstrip]

theorem strip_space_append {p : Text} (hp : strip p = []) (t : Text) : strip (p ++ t) = strip t := by
  rw [strip_eq_nil_iff] at hp
  induction p with
  | nil => rfl
  | cons c cs ih =>
    rw [List.cons_append, strip_cons_space (hp c List.mem_cons_self),
      ih fun d hd => hp d (List.mem_cons_of_mem _ hd)]

theorem infix_strip (t : Text) : strip t <:+: t :=
  (List.rdropWhile_prefix _ _).isInfix.trans (List.dropWhile_suffix _).isInfix

theorem tight_of_head_of_last {c : Char} {t : Text} {d : Char} (hc : isSpace c = false)
    (hd : isSpace d = false) : Tight (c :: t ++ [d]) := by
  refine ⟨fun e he => ?_, fun e he => ?_⟩
  · simp only [List.cons_append, List.head?_cons, Option.mem_def, Option.some.injEq] at he
    exact he ▸ hc
  · rw [List.getLast?_concat, Option.mem_def, Option.some.injEq] at he
    exact he ▸ hd

end PyText
