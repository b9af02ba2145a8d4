import AgentLangraph.Lib.PyText

/-! The number literals of JSON as Python's decoder reads them: as far as they go, and with `NaN` and the two
    infinities. A literal is read whole from a longer text where a comma or a closing bracket follows it.

        -?  (0 | 1-9 digits)  (. digits)?  (e sign? digits)? -/

namespace JsonNumber
open PyText (Text)

def constants : List Text := ["NaN".toList, "Infinity".toList, "-Infinity".toList]

/-- The digits in front of a text, after `head`. -/
def scanDigits (head : Text) (t : Text) : Text × Text :=
  (head ++ t.takeWhile Char.isDigit, t.dropWhile Char.isDigit)

def scanInt : Text → Option (Text × Text)
  | [] => none
  | c :: t => if c = '0' then some (['0'], t) else if c.isDigit then some (scanDigits [c] t) else none

/-- `(\.\d+)?`. -/
def scanFraction : Text → Text × Text
  | c :: d :: t => if c = '.' ∧ d.isDigit then scanDigits [c, d] t else ([], c :: d :: t)
  | t => ([], t)

def isSign (c : Char) : Bool := c = '+' || c = '-'

def isExponent (c : Char) : Bool := c = 'e' || c = 'E'

/-- `([eE][-+]?\d+)?`. -/
def scanExponent : Text → Text × Text
  | c :: s :: d :: t =>
    if isExponent c ∧ isSign s ∧ d.isDigit then scanDigits [c, s, d] t
    else if isExponent c ∧ s.isDigit then scanDigits [c, s] (d :: t)
    else ([], c :: s :: d :: t)
  | [c, s] => if isExponent c ∧ s.isDigit then ([c, s], []) else ([], [c, s])
  | t => ([], t)

def scanUnsigned (sign t : Text) : Option (Text × Text) :=
  (scanInt t).map fun p =>
    let q := scanFraction p.2
    let r := scanExponent q.2
    (sign ++ p.1 ++ q.1 ++ r.1, r.2)

def scanDecimal : Text → Option (Text × Text)
  | [] => none
  | c :: t => if c = '-' then scanUnsigned ['-'] t else scanUnsigned [] (c :: t)

/-- The number literal in front of a text, and what follows it. -/
def scan (t : Text) : Option (Text × Text) :=
  match constants.find? fun c => c.isPrefixOf t with
  | some c => some (c, t.drop c.length)
  | none => scanDecimal t

example : scan "-12.50e+3, 7".toList = some ("-12.50e+3".toList, ", 7".toList) := by decide
example : scan "01".toList = some ("0".toList, "1".toList) := by decide
example : scan "1.e5".toList = some ("1".toList, ".e5".toList) := by decide

/-! ### What follows a literal -/

/-- Where a value may end inside a longer text. -/
def Ends (u : Text) : Prop := ∀ c ∈ u.head?, c = ',' ∨ c = ']' ∨ c = '}'

theorem ends_nil : Ends [] := by
  rintro c ⟨⟩

theorem ends_cons {c : Char} (h : c = ',' ∨ c = ']' ∨ c = '}') (u : Text) : Ends (c :: u) := by
  rintro _ ⟨⟩
  exact h

variable {u : Text}

theorem scanDigits_append (hu : Ends u) (head t : Text) :
    scanDigits head (t ++ u) = ((scanDigits head t).1, (scanDigits head t).2 ++ u) := by
  have hstop : u.takeWhile Char.isDigit = [] ∧ u.dropWhile Char.isDigit = u := by
    cases u with
    | nil => exact ⟨rfl, rfl⟩
    | cons c u => rcases hu c rfl with rfl | rfl | rfl <;> exact ⟨rfl, rfl⟩
  unfold scanDigits
  induction t with
  | nil => simp [hstop]
  | cons d t ih =>
    by_cases hd : d.isDigit = true
    · simpa [hd] using ih
    · simp [hd]

theorem scanInt_append (hu : Ends u) {t : Text} {p : Text × Text} (h : scanInt t = some p) :
    scanInt (t ++ u) = some (p.1, p.2 ++ u) := by
  cases t with
  | nil => simp [scanInt] at h
  | cons c t =>
    simp only [scanInt, List.cons_append] at h ⊢
    split at h
    · next hc =>
      cases h
      rw [if_pos hc]
    · next hc =>
      split at h
      · next hd =>
        cases h
        rw [if_neg hc, if_pos hd, scanDigits_append hu]
      · cases h

theorem scanFraction_append (hu : Ends u) (t : Text) :
    scanFraction (t ++ u) = ((scanFraction t).1, (scanFraction t).2 ++ u) := by
  rcases t with _ | ⟨c, _ | ⟨d, t⟩⟩
  · rcases u with _ | ⟨e, _ | ⟨f, u⟩⟩
    · rfl
    · rfl
    · rcases hu e rfl with rfl | rfl | rfl <;> simp [scanFraction]
  · rcases u with _ | ⟨e, u⟩
    · rfl
    · rcases hu e rfl with rfl | rfl | rfl <;> simp [scanFraction]
  · simp only [List.cons_append, scanFraction]
    split_ifs
    · exact scanDigits_append hu _ t
    · rfl

theorem scanExponent_append (hu : Ends u) (t : Text) :
    scanExponent (t ++ u) = ((scanExponent t).1, (scanExponent t).2 ++ u) := by
  rcases t with _ | ⟨c, _ | ⟨s, _ | ⟨d, t⟩⟩⟩
  · rcases u with _ | ⟨e, _ | ⟨f, _ | ⟨g, u⟩⟩⟩
    · rfl
    · rfl
    · rcases hu e rfl with rfl | rfl | rfl <;> simp [scanExponent, isExponent]
    · rcases hu e rfl with rfl | rfl | rfl <;> simp [scanExponent, isExponent]
  · rcases u with _ | ⟨e, _ | ⟨f, u⟩⟩
    · rfl
    · rcases hu e rfl with rfl | rfl | rfl <;> simp [scanExponent]
    · rcases hu e rfl with rfl | rfl | rfl <;> simp [scanExponent, isSign]
  · rcases u with _ | ⟨e, u⟩
    · simp
    · have hdigits := scanDigits_append hu [c, s] []
      have hnil : scanDigits [c, s] [] = ([c, s], []) := rfl
      rw [hnil] at hdigits
      rcases hu e rfl with rfl | rfl | rfl <;>
        simp only [List.cons_append, List.nil_append, scanExponent] at hdigits ⊢ <;>
        simp [hdigits] <;> split_ifs <;> rfl
  · simp only [List.cons_append, scanExponent]
    split_ifs
    · exact scanDigits_append hu _ t
    · exact scanDigits_append hu _ (d :: t)
    · rfl

theorem scanUnsigned_append (hu : Ends u) {sign t : Text} {p : Text × Text}
    (h : scanUnsigned sign t = some p) : scanUnsigned sign (t ++ u) = some (p.1, p.2 ++ u) := by
  obtain ⟨q, hq, rfl⟩ := Option.map_eq_some_iff.1 h
  simp only [scanUnsigned, scanInt_append hu hq, Option.map_some, scanFraction_append hu,
    scanExponent_append hu]

theorem scanDecimal_append (hu : Ends u) {t : Text} {p : Text × Text} (h : scanDecimal t = some p) :
    scanDecimal (t ++ u) = some (p.1, p.2 ++ u) := by
  cases t with
  | nil => simp [scanDecimal] at h
  | cons c t =>
    simp only [scanDecimal, List.cons_append] at h ⊢
    split at h
    · next hc =>
      rw [if_pos hc]
      exact scanUnsigned_append hu h
    · next hc =>
      rw [if_neg hc]
      exact scanUnsigned_append hu h

/-- A word with none of the closing characters does not reach past the end. -/
theorem isPrefixOf_append (hu : Ends u) : ∀ {k t : Text}, (∀ c ∈ k, c ≠ ',' ∧ c ≠ ']' ∧ c ≠ '}') →
    k.isPrefixOf (t ++ u) = k.isPrefixOf t
  | [], _, _ => by simp
  | c :: k, [], h => by
    rcases u with _ | ⟨e, u⟩
    · rfl
    · have hc := h c List.mem_cons_self
      rcases hu e rfl with rfl | rfl | rfl <;> simp [List.isPrefixOf, hc]
  | c :: k, d :: t, h => by
    have ih := isPrefixOf_append hu (t := t) fun e he => h e (List.mem_cons_of_mem c he)
    simp [List.isPrefixOf, ih]

theorem find?_append (hu : Ends u) (t : Text) :
    (constants.find? fun c => c.isPrefixOf (t ++ u)) = constants.find? fun c => c.isPrefixOf t := by
  have hplain : ∀ k ∈ constants, ∀ c ∈ k, c ≠ ',' ∧ c ≠ ']' ∧ c ≠ '}' := by
    simp [constants]
  generalize constants = ks at hplain
  induction ks with
  | nil => rfl
  | cons k ks ih =>
    rw [List.find?_cons, List.find?_cons, isPrefixOf_append hu (hplain k List.mem_cons_self),
      ih fun l hl => hplain l (List.mem_cons_of_mem k hl)]

theorem scan_append (hu : Ends u) {t : Text} {p : Text × Text} (h : scan t = some p) :
    scan (t ++ u) = some (p.1, p.2 ++ u) := by
  rw [scan] at h ⊢
  rw [find?_append hu]
  cases hk : constants.find? fun c => c.isPrefixOf t with
  | none =>
    rw [hk] at h
    exact scanDecimal_append hu h
  | some k =>
    rw [hk] at h
    cases h
    have hk := List.find?_some hk
    have hpre : k <+: t := List.isPrefixOf_iff_prefix.1 hk
    exact congrArg (fun r => some (k, r)) (List.drop_append_of_le_length hpre.length_le)

/-! ### Literals -/

/-- A number literal and nothing else. -/
def Literal (t : Text) : Prop := scan t = some (t, [])

instance : DecidablePred Literal := fun _ => inferInstanceAs (Decidable (_ = _))

theorem Literal.scan_append {t : Text} (h : Literal t) (hu : Ends u) : scan (t ++ u) = some (t, u) :=
  JsonNumber.scan_append hu h

/-- A literal does not begin as another value does, nor with a blank or a closing bracket. -/
theorem scan_eq_none_of_head {c : Char}
    (hc : c ∈ ['"', '{', '[', ']', 'n', 't', 'f', ' ', '\t', '\n', '\r']) (t : Text) :
    scan (c :: t) = none := by
  simp only [List.mem_cons, List.not_mem_nil, or_false] at hc
  rcases hc with rfl | rfl | rfl | rfl | rfl | rfl | rfl | rfl | rfl | rfl | rfl <;> rfl

theorem Literal.head {t : Text} (h : Literal t) :
    ∃ c r, t = c :: r ∧ c ∉ ['"', '{', '[', ']', 'n', 't', 'f', ' ', '\t', '\n', '\r'] := by
  cases t with
  | nil => cases h
  | cons c r =>
    refine ⟨c, r, rfl, ?_⟩
    intro hc
    rw [Literal, scan_eq_none_of_head hc] at h
    cases h

/-! ### What a scan takes is the front of the text -/

theorem scanDigits_split (head t : Text) : (scanDigits head t).1 ++ (scanDigits head t).2 = head ++ t := by
  rw [scanDigits, List.append_assoc, List.takeWhile_append_dropWhile]

theorem scanInt_split {t : Text} {p : Text × Text} (h : scanInt t = some p) : p.1 ++ p.2 = t ∧ p.1 ≠ [] := by
  cases t with
  | nil => simp [scanInt] at h
  | cons c t =>
    simp only [scanInt] at h
    split_ifs at h with hc hd
    · cases h
      simp [hc]
    · cases h
      exact ⟨scanDigits_split [c] t, by simp [scanDigits]⟩

theorem scanFraction_split (t : Text) : (scanFraction t).1 ++ (scanFraction t).2 = t := by
  rcases t with _ | ⟨c, _ | ⟨d, t⟩⟩
  · rfl
  · rfl
  · simp only [scanFraction]
    split_ifs
    · exact scanDigits_split _ t
    · rfl

theorem scanExponent_split (t : Text) : (scanExponent t).1 ++ (scanExponent t).2 = t := by
  rcases t with _ | ⟨c, _ | ⟨s, _ | ⟨d, t⟩⟩⟩
  · rfl
  · rfl
  · simp only [scanExponent]
    split_ifs <;> rfl
  · simp only [scanExponent]
    split_ifs
    · exact scanDigits_split _ t
    · exact scanDigits_split _ (d :: t)
    · rfl

theorem scanUnsigned_split {sign t : Text} {p : Text × Text} (h : scanUnsigned sign t = some p) :
    p.1 ++ p.2 = sign ++ t ∧ p.1 ≠ [] := by
  obtain ⟨q, hq, rfl⟩ := Option.map_eq_some_iff.1 h
  obtain ⟨hsplit, hne⟩ := scanInt_split hq
  refine ⟨?_, by simp [hne]⟩
  simp only [List.append_assoc]
  rw [scanExponent_split, scanFraction_split, hsplit]

theorem scan_split {t : Text} {p : Text × Text} (h : scan t = some p) : p.1 ++ p.2 = t ∧ p.1 ≠ [] := by
  rw [scan] at h
  split at h
  · next k hk =>
    cases h
    have hne : ∀ k ∈ constants, k ≠ [] := by decide
    have hmem := List.mem_of_find?_eq_some hk
    have hk := List.find?_some hk
    have hpre : k <+: t := List.isPrefixOf_iff_prefix.1 hk
    exact ⟨List.prefix_iff_eq_append.1 hpre, hne k hmem⟩
  · cases t with
    | nil => simp [scanDecimal] at h
    | cons c t =>
      simp only [scanDecimal] at h
      split_ifs at h with hc
      · subst hc
        exact scanUnsigned_split h
      · exact scanUnsigned_split h

/-! ### What a literal is made of -/

def isLiteralChar (c : Char) : Bool := c.isDigit || c ∈ "+-.eENaIfinity".toList

theorem scanDigits_chars {head : Text} (hh : ∀ c ∈ head, isLiteralChar c) (t : Text) :
    ∀ c ∈ (scanDigits head t).1, isLiteralChar c := by
  intro c hc
  rcases List.mem_append.1 hc with hc | hc
  · exact hh c hc
  · have hdigit : c.isDigit = true := List.mem_takeWhile_imp hc
    simp [isLiteralChar, hdigit]

theorem isLiteralChar_of_digit {c : Char} (h : c.isDigit = true) : isLiteralChar c := by
  simp [isLiteralChar, h]

theorem scanInt_chars {t : Text} {p : Text × Text} (h : scanInt t = some p) : ∀ c ∈ p.1, isLiteralChar c := by
  cases t with
  | nil => simp [scanInt] at h
  | cons c t =>
    simp only [scanInt] at h
    split_ifs at h with hc hd
    · cases h
      simp [isLiteralChar]
    · cases h
      exact scanDigits_chars (by simpa using isLiteralChar_of_digit hd) t

theorem scanFraction_chars (t : Text) : ∀ c ∈ (scanFraction t).1, isLiteralChar c := by
  rcases t with _ | ⟨c, _ | ⟨d, t⟩⟩
  · simp [scanFraction]
  · simp [scanFraction]
  · simp only [scanFraction]
    split_ifs with h
    · refine scanDigits_chars ?_ t
      simp [h.1, isLiteralChar, h.2]
    · simp

theorem scanExponent_chars (t : Text) : ∀ c ∈ (scanExponent t).1, isLiteralChar c := by
  have hexp {c : Char} (h : isExponent c) : isLiteralChar c := by
    simp only [isExponent, Bool.or_eq_true, decide_eq_true_eq] at h
    rcases h with rfl | rfl <;> decide
  have hsign {c : Char} (h : isSign c) : isLiteralChar c := by
    simp only [isSign, Bool.or_eq_true, decide_eq_true_eq] at h
    rcases h with rfl | rfl <;> decide
  rcases t with _ | ⟨c, _ | ⟨s, _ | ⟨d, t⟩⟩⟩
  · simp [scanExponent]
  · simp [scanExponent]
  · simp only [scanExponent]
    split_ifs with h
    · simp [hexp h.1, isLiteralChar_of_digit h.2]
    · simp
  · simp only [scanExponent]
    split_ifs with h h
    · refine scanDigits_chars ?_ t
      simp [hexp h.1, hsign h.2.1, isLiteralChar_of_digit h.2.2]
    · refine scanDigits_chars ?_ (d :: t)
      simp [hexp h.1, isLiteralChar_of_digit h.2]
    · simp

theorem scanUnsigned_chars {sign t : Text} (hs : ∀ c ∈ sign, isLiteralChar c) {p : Text × Text}
    (h : scanUnsigned sign t = some p) : ∀ c ∈ p.1, isLiteralChar c := by
  obtain ⟨q, hq, rfl⟩ := Option.map_eq_some_iff.1 h
  intro c hc
  rcases List.mem_append.1 hc with hc | hc
  · rcases List.mem_append.1 hc with hc | hc
    · rcases List.mem_append.1 hc with hc | hc
      · exact hs c hc
      · exact scanInt_chars hq c hc
    · exact scanFraction_chars q.2 c hc
  · exact scanExponent_chars _ c hc

theorem scan_chars {t : Text} {p : Text × Text} (h : scan t = some p) : ∀ c ∈ p.1, isLiteralChar c := by
  rw [scan] at h
  split at h
  · next k hk =>
    cases h
    have hall : ∀ k ∈ constants, ∀ c ∈ k, isLiteralChar c := by
      simp [constants, isLiteralChar]
    exact hall k (List.mem_of_find?_eq_some hk)
  · cases t with
    | nil => simp [scanDecimal] at h
    | cons c t =>
      simp only [scanDecimal] at h
      split_ifs at h
      · exact scanUnsigned_chars (by simp [isLiteralChar]) h
      · exact scanUnsigned_chars (by simp) h

end JsonNumber
