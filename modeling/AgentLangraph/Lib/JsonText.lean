import AgentLangraph.Lib.PyText
import Mathlib.Data.List.Chain

/-! The inside of a JSON string. A writer spells each character in one of four ways: as itself, with
    an escape of two characters, as `\uXXXX`, or as two such escapes for a character beyond the
    first plane. `loads` reads a spelling back, and every spelling of a text is read back as that
    text. Characters are code points (`ℕ`), since a lone surrogate is no `Char`. -/

namespace JsonText
open PyText

/-- The escapes of two characters. -/
inductive Escape
  | quote | backslash | slash | backspace | formFeed | newline | carriageReturn | tab
  deriving DecidableEq

/-- The character after the backslash. -/
def Escape.letter : Escape → Char
  | .quote => '"'
  | .backslash => '\\'
  | .slash => '/'
  | .backspace => 'b'
  | .formFeed => 'f'
  | .newline => 'n'
  | .carriageReturn => 'r'
  | .tab => 't'

/-- The code point an escape stands for. -/
def Escape.point : Escape → ℕ
  | .quote => 0x22
  | .backslash => 0x5c
  | .slash => 0x2f
  | .backspace => 0x08
  | .formFeed => 0x0c
  | .newline => 0x0a
  | .carriageReturn => 0x0d
  | .tab => 0x09

def escapes : List Escape :=
  [.quote, .backslash, .slash, .backspace, .formFeed, .newline, .carriageReturn, .tab]

/-- The value of an ASCII hexadecimal digit. -/
def hexDigit (c : Char) : Option ℕ :=
  if '0' ≤ c ∧ c ≤ '9' then some (c.toNat - 0x30)
  else if 'a' ≤ c ∧ c ≤ 'f' then some (c.toNat - 0x57)
  else if 'A' ≤ c ∧ c ≤ 'F' then some (c.toNat - 0x37)
  else none

/-- The four digits of a `\uXXXX`. -/
structure Hex4 where
  digits : Text
  length : digits.length = 4
  hex : ∀ c ∈ digits, (hexDigit c).isSome

/-- A run of hexadecimal digits, read from the left. -/
def hexValue : Text → Option ℕ :=
  List.foldl (fun acc c => do return 16 * (← acc) + (← hexDigit c)) (some 0)

def Hex4.value (u : Hex4) : ℕ := (hexValue u.digits).getD 0

def IsHigh (n : ℕ) : Prop := 0xd800 ≤ n ∧ n ≤ 0xdbff
def IsLow (n : ℕ) : Prop := 0xdc00 ≤ n ∧ n ≤ 0xdfff

instance : DecidablePred IsHigh := fun _ => inferInstanceAs (Decidable (_ ∧ _))
instance : DecidablePred IsLow := fun _ => inferInstanceAs (Decidable (_ ∧ _))

/-- The code point of a surrogate pair. -/
def joined (hi lo : ℕ) : ℕ := 0x10000 + (hi - 0xd800) * 0x400 + (lo - 0xdc00)

/-- A character that may stand for itself. -/
def IsPlain (c : Char) : Prop := c ≠ '"' ∧ c ≠ '\\' ∧ 0x20 ≤ c.toNat

instance : DecidablePred IsPlain := fun _ => inferInstanceAs (Decidable (_ ∧ _ ∧ _))

/-- One character of a text, as a writer spells it. -/
inductive Atom
  | plain (c : Char) (h : IsPlain c)
  | short (e : Escape)
  | unicode (u : Hex4)
  | pair (hi lo : Hex4) (h : IsHigh hi.value ∧ IsLow lo.value)

def Atom.text : Atom → Text
  | .plain c _ => [c]
  | .short e => ['\\', e.letter]
  | .unicode u => '\\' :: 'u' :: u.digits
  | .pair hi lo _ => '\\' :: 'u' :: (hi.digits ++ '\\' :: 'u' :: lo.digits)

def Atom.point : Atom → ℕ
  | .plain c _ => c.toNat
  | .short e => e.point
  | .unicode u => u.value
  | .pair hi lo _ => joined hi.value lo.value

/-- Spelled with `\u`. -/
def Atom.isUnicode : Atom → Bool
  | .unicode _ | .pair .. => true
  | _ => false

/-- The text between the quotes. -/
def text (as : List Atom) : Text := as.flatMap Atom.text

def points (as : List Atom) : List ℕ := as.map Atom.point

@[simp] theorem text_nil : text [] = [] := rfl
@[simp] theorem text_cons (a : Atom) (as : List Atom) : text (a :: as) = a.text ++ text as := rfl
@[simp] theorem points_nil : points [] = [] := rfl
@[simp] theorem points_cons (a : Atom) (as : List Atom) :
    points (a :: as) = a.point :: points as := rfl

theorem text_append (as bs : List Atom) : text (as ++ bs) = text as ++ text bs :=
  List.flatMap_append

@[simp] theorem length_points (as : List Atom) : (points as).length = as.length :=
  List.length_map ..

theorem points_append (as bs : List Atom) : points (as ++ bs) = points as ++ points bs :=
  List.map_append

/-- Two code units that a reader would join are not spelled one after the other, unless as one
    character. -/
def Apart : Atom → Atom → Prop
  | .unicode u, .unicode v => ¬ (IsHigh u.value ∧ IsLow v.value)
  | _, _ => True

/-- A spelling of a text: reading it back gives the text. -/
def Canonical (as : List Atom) : Prop := as.IsChain Apart

/-! ### Reading -/

/-- The code units of a string: `none` where it is no JSON. -/
def units : Text → Option (List ℕ)
  | [] => some []
  | '\\' :: 'u' :: a :: b :: c :: d :: rest => do
    return (← hexValue [a, b, c, d]) :: (← units rest)
  | '\\' :: x :: rest => do
    return (← escapes.find? (·.letter = x)).point :: (← units rest)
  | c :: rest => if IsPlain c then do return c.toNat :: (← units rest) else none

/-- An escaped high surrogate and the low one after it are one character. -/
def joinPairs : List ℕ → List ℕ
  | hi :: lo :: rest =>
    if IsHigh hi ∧ IsLow lo then joined hi lo :: joinPairs rest else hi :: joinPairs (lo :: rest)
  | ns => ns

/-- `json.loads` of the text in quotes. -/
def loads (t : Text) : Option (List ℕ) := (units t).map joinPairs

/-! ### A reader reads back what a writer spelled -/

/-- The code units an atom is written with. -/
def Atom.units : Atom → List ℕ
  | .pair hi lo _ => [hi.value, lo.value]
  | a => [a.point]

theorem hexValue_isSome {t : Text} (h : ∀ c ∈ t, (hexDigit c).isSome) : (hexValue t).isSome := by
  suffices ∀ n, (List.foldl (fun acc c => do return 16 * (← acc) + (← hexDigit c)) (some n)
      t).isSome from this 0
  induction t with
  | nil => intro n; rfl
  | cons c cs ih =>
    intro n
    obtain ⟨d, hd⟩ := Option.isSome_iff_exists.1 (h c List.mem_cons_self)
    rw [List.foldl_cons, hd]
    exact ih (fun e he => h e (List.mem_cons_of_mem c he)) (16 * n + d)

theorem Hex4.hexValue_digits (u : Hex4) : hexValue u.digits = some u.value := by
  obtain ⟨v, hv⟩ := Option.isSome_iff_exists.1 (hexValue_isSome u.hex)
  rw [Hex4.value, hv, Option.getD_some]

theorem units_hex4 (u : Hex4) (rest : Text) :
    JsonText.units ('\\' :: 'u' :: (u.digits ++ rest)) =
      (JsonText.units rest).map (u.value :: ·) := by
  obtain ⟨a, b, c, d, hd⟩ : ∃ a b c d, u.digits = [a, b, c, d] := by
    obtain ⟨digits, hl, _⟩ := u
    match digits, hl with
    | [a, b, c, d], _ => exact ⟨a, b, c, d, rfl⟩
  have hv := u.hexValue_digits
  rw [hd] at hv ⊢
  simp only [List.cons_append, List.nil_append, JsonText.units, hv]
  cases JsonText.units rest <;> rfl

theorem units_short (e : Escape) (rest : Text) :
    JsonText.units ('\\' :: e.letter :: rest) = (JsonText.units rest).map (e.point :: ·) := by
  cases hr : JsonText.units rest <;> cases e <;>
    simp [JsonText.units, Escape.letter, Escape.point, escapes, hr]

theorem units_plain {c : Char} (h : IsPlain c) (rest : Text) :
    JsonText.units (c :: rest) = (JsonText.units rest).map (c.toNat :: ·) := by
  have hne : c ≠ '\\' := h.2.1
  rw [JsonText.units.eq_4 c rest (by simp [hne]) (by simp [hne]), if_pos h]
  cases JsonText.units rest <;> rfl

theorem units_text : ∀ as : List Atom, JsonText.units (text as) = some (as.flatMap Atom.units)
  | [] => rfl
  | a :: as => by
    have ih := units_text as
    cases a with
    | plain c h => rw [text_cons, Atom.text, List.singleton_append, units_plain h, ih]; rfl
    | short e =>
      rw [text_cons, Atom.text, List.cons_append, List.singleton_append, units_short, ih]; rfl
    | unicode u => rw [text_cons, Atom.text, List.cons_append, List.cons_append, units_hex4, ih]; rfl
    | pair hi lo h =>
      rw [text_cons, Atom.text, List.cons_append, List.cons_append, List.append_assoc,
        List.cons_append, List.cons_append, units_hex4, units_hex4, ih]
      rfl

theorem not_surrogate (c : Char) : ¬ IsHigh c.toNat ∧ ¬ IsLow c.toNat := by
  have h := c.valid
  simp only [UInt32.isValidChar, Nat.isValidChar] at h
  change c.toNat < 0xd800 ∨ 0xdfff < c.toNat ∧ c.toNat < 0x110000 at h
  unfold IsHigh IsLow
  omega

theorem Escape.not_surrogate (e : Escape) : ¬ IsHigh e.point ∧ ¬ IsLow e.point := by
  cases e <;> decide

theorem not_isLow_of_isHigh {n : ℕ} (h : IsHigh n) : ¬ IsLow n := fun hl => by
  unfold IsHigh IsLow at *
  omega

/-- Only an escaped low surrogate begins a spelling with one. -/
theorem head_units_not_low {a : Atom} {as : List Atom}
    (h : ∀ b ∈ as.head?, Apart a b) (ha : ∃ u, a = .unicode u ∧ IsHigh u.value) :
    ∀ n ∈ (as.flatMap Atom.units).head?, ¬ IsLow n := by
  obtain ⟨u, rfl, hu⟩ := ha
  intro n hn
  cases as with
  | nil => cases hn
  | cons b bs =>
    have hb := h b rfl
    cases b with
    | plain c _ => cases hn; exact (JsonText.not_surrogate c).2
    | short e => cases hn; exact e.not_surrogate.2
    | unicode v => cases hn; exact fun hv => hb ⟨hu, hv⟩
    | pair hi lo hp => cases hn; exact not_isLow_of_isHigh hp.1

theorem joinPairs_cons {n : ℕ} {ns : List ℕ} (h : IsHigh n → ∀ m ∈ ns.head?, ¬ IsLow m) :
    joinPairs (n :: ns) = n :: joinPairs ns := by
  cases ns with
  | nil => rfl
  | cons m ms => rw [joinPairs, if_neg fun hp => h hp.1 m rfl hp.2]

theorem joinPairs_units : ∀ {as : List Atom}, Canonical as →
    joinPairs (as.flatMap Atom.units) = points as
  | [], _ => rfl
  | a :: as, h => by
    have ih : joinPairs (as.flatMap Atom.units) = points as := joinPairs_units (List.IsChain.tail h)
    have hhead : ∀ b ∈ as.head?, Apart a b := by
      cases as with
      | nil => rintro b ⟨⟩
      | cons b bs => rintro _ ⟨⟩; exact (List.isChain_cons_cons.1 h).1
    rw [List.flatMap_cons, points_cons, ← ih]
    cases a with
    | plain c _ => exact joinPairs_cons fun hc => absurd hc (JsonText.not_surrogate c).1
    | short e => exact joinPairs_cons fun he => absurd he e.not_surrogate.1
    | unicode u => exact joinPairs_cons fun hu => head_units_not_low hhead ⟨u, rfl, hu⟩
    | pair hi lo hp =>
      rw [Atom.units, List.cons_append, List.singleton_append, joinPairs, if_pos hp]
      rfl

/-- ROUND TRIP: a spelling of a text is read back as the text. -/
theorem loads_text {as : List Atom} (h : Canonical as) : loads (text as) = some (points as) := by
  rw [loads, units_text, Option.map_some, joinPairs_units h]

end JsonText
