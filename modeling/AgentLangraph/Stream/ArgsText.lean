import AgentLangraph.Lib.JsonKey
import AgentLangraph.Stream.ArgsParser

/-! The argument texts the reader is fed: an object with a file name and a content, each string spelled
    in any way, with any blanks between. Cut anywhere, the key is found as soon as it is complete
    and never earlier; and as long as no `\u` is used, what is decoded is the content as far as it
    has come, but for a cut right after a backslash. -/

namespace AgentLangraph.Stream
open PyText JsonText JsonKey

/-- Whitespace between the tokens of a JSON text. -/
def IsBlank (c : Char) : Prop := c = ' ' ∨ c = '\t' ∨ c = '\n' ∨ c = '\r'

/-- A JSON text of `{"filename": …, "content": …}`, in either order. -/
structure ArgsText where
  filename : List Atom
  content : List Atom
  contentFirst : Bool := false
  gap : Fin 10 → Text
  blank : ∀ i, ∀ c ∈ gap i, IsBlank c
  canonical : Canonical content

namespace ArgsText
variable (d : ArgsText)

/-- The member for the file name. -/
def filenameText : Text :=
  quoted "filename".toList ++ (d.gap 0 ++ ':' :: (d.gap 1 ++ quoted (text d.filename)))

/-- Up to the key of the content. -/
def head : Text :=
  d.gap 2 ++ '{' :: (d.gap 3 ++
    if d.contentFirst then [] else d.filenameText ++ (d.gap 4 ++ ',' :: d.gap 5))

/-- The key of the content, up to the quote that opens its value. -/
def key : Text := quoted "content".toList ++ (d.gap 6 ++ ':' :: (d.gap 7 ++ ['"']))

/-- After the quote that closes the value of the content. -/
def tail : Text :=
  (if d.contentFirst then d.gap 4 ++ ',' :: (d.gap 5 ++ d.filenameText) else []) ++
    (d.gap 8 ++ '}' :: d.gap 9)

/-- Where the content begins. -/
def start : ℕ := (d.head ++ d.key).length

def fullText : Text := d.head ++ d.key ++ (text d.content ++ '"' :: d.tail)

end ArgsText

/-! ### Where the key is found -/

theorem matchKey_eq (t : Text) : matchKey t = matchField "content".toList t := rfl

theorem searchKey_eq (t : Text) : searchKey t = searchField "content".toList t := by
  induction t with
  | nil => rfl
  | cons c cs ih =>
    rw [searchKey, searchField, ih]
    rfl

/-- What a match of the key looks like. -/
theorem matchKey_eq_some_iff {t rest : Text} : matchKey t = some rest ↔
    ∃ v w, (∀ c ∈ v, isSpace c = true) ∧ (∀ c ∈ w, isSpace c = true) ∧
      t = quoted "content".toList ++ (v ++ ':' :: (w ++ '"' :: rest)) :=
  matchField_eq_some_iff

/-- No match of the key begins inside `a`, where `v` follows. -/
def NoKey : Text → Text → Prop
  | [], _ => True
  | c :: a, v => matchKey (c :: a ++ v) = none ∧ NoKey a v

theorem noKey_iff {a v : Text} : NoKey a v ↔ NoField "content".toList a v := by
  induction a with
  | nil => exact Iff.rfl
  | cons c a ih => rw [NoKey, NoField, ih, matchKey_eq]

theorem noKey_append {a b v : Text} : NoKey (a ++ b) v ↔ NoKey a (b ++ v) ∧ NoKey b v := by
  rw [noKey_iff, noKey_iff, noKey_iff]
  exact noField_append

theorem matchKey_cons_of_ne {c : Char} (h : c ≠ '"') (t : Text) : matchKey (c :: t) = none :=
  matchField_cons_of_ne h t

theorem noKey_of_not_mem {a : Text} (h : '"' ∉ a) (v : Text) : NoKey a v :=
  noKey_iff.2 (noField_of_not_mem h v)

theorem isSpace_of_isBlank {c : Char} (h : IsBlank c) : isSpace c = true := by
  obtain rfl | rfl | rfl | rfl := h <;> rfl

theorem not_mem_of_isBlank {w : Text} (h : ∀ c ∈ w, IsBlank c) : '"' ∉ w := fun hq => by
  obtain h | h | h | h := h '"' hq <;> cases h

/-- A quote with a blank or another token after it does not begin the key. -/
theorem matchKey_quote_of_blank {w : Text} (hw : ∀ c ∈ w, IsBlank c) {x : Char} (hx : x ≠ 'c')
    (t : Text) : matchKey ('"' :: (w ++ x :: t)) = none := by
  cases hm : matchKey ('"' :: (w ++ x :: t)) with
  | none => rfl
  | some rest =>
    obtain ⟨v, u, -, -, heq⟩ := matchKey_eq_some_iff.1 hm
    have htail : w ++ x :: t = 'c' :: ("ontent\"".toList ++ (v ++ ':' :: (u ++ '"' :: rest))) :=
      (List.cons.inj heq).2
    cases w with
    | nil => exact absurd (List.cons.inj htail).1 hx
    | cons c w =>
      have hc := hw c List.mem_cons_self
      rw [(List.cons.inj htail).1] at hc
      obtain h | h | h | h := hc <;> cases h

/-! ### The end of a string -/

/-- What follows the quote that closes a string; the flag says that the next character is escaped. -/
def closing : Bool → Text → Option Text
  | _, [] => none
  | true, _ :: cs => closing false cs
  | false, c :: cs => if c = '"' then some cs else closing (c == '\\') cs

theorem closing_cons {c : Char} (h : c ≠ '"') (h' : c ≠ '\\') (t : Text) :
    closing false (c :: t) = closing false t := by
  rw [closing, if_neg h, beq_eq_false_iff_ne.2 h']

theorem hexDigit_ne {c : Char} (h : (hexDigit c).isSome) : c ≠ '"' ∧ c ≠ '\\' := by
  constructor <;> (rintro rfl; revert h; decide)

theorem closing_digits {ds : Text} (h : ∀ c ∈ ds, (hexDigit c).isSome) (t : Text) :
    closing false (ds ++ t) = closing false t := by
  induction ds with
  | nil => rfl
  | cons c ds ih =>
    obtain ⟨hq, hb⟩ := hexDigit_ne (h c List.mem_cons_self)
    rw [List.cons_append, closing_cons hq hb, ih fun d hd => h d (List.mem_cons_of_mem c hd)]

theorem closing_hex4 (u : Hex4) (t : Text) :
    closing false ('\\' :: 'u' :: (u.digits ++ t)) = closing false t := closing_digits u.hex t

theorem closing_atom (a : Atom) (t : Text) : closing false (a.text ++ t) = closing false t := by
  cases a with
  | plain c h => exact closing_cons h.1 h.2.1 t
  | short e => rfl
  | unicode u => exact closing_hex4 u t
  | pair hi lo h =>
    rw [Atom.text, List.cons_append, List.cons_append, List.append_assoc, closing_hex4]
    exact closing_hex4 lo t

theorem closing_text (as : List Atom) (t : Text) :
    closing false (text as ++ '"' :: t) = some t := by
  induction as with
  | nil => rfl
  | cons a as ih => rw [text_cons, List.append_assoc, closing_atom, ih]

/-- A value is followed by no colon, so the quote before it does not begin the key. -/
theorem matchKey_string (as : List Atom) {w : Text} (hw : ∀ c ∈ w, IsBlank c) (t : Text) :
    matchKey ('"' :: (text as ++ '"' :: (w ++ ',' :: t))) = none := by
  cases hm : matchKey ('"' :: (text as ++ '"' :: (w ++ ',' :: t))) with
  | none => rfl
  | some rest =>
    obtain ⟨v, u, hv, -, heq⟩ := matchKey_eq_some_iff.1 hm
    have hclose : closing false (text as ++ '"' :: (w ++ ',' :: t)) =
        some (v ++ ':' :: (u ++ '"' :: rest)) := by
      rw [(List.cons.inj heq).2]
      rfl
    rw [closing_text, Option.some.injEq] at hclose
    have hcomma := lstrip_append (fun c hc => isSpace_of_isBlank (hw c hc)) (c := ',') rfl t
    rw [hclose, lstrip_append hv rfl, List.cons.injEq] at hcomma
    cases hcomma.1

theorem noKey_digits (u : Hex4) (v : Text) : NoKey u.digits v :=
  noKey_of_not_mem (fun h => (hexDigit_ne (u.hex _ h)).1 rfl) v

/-- No match of the key begins inside a value. -/
theorem noKey_text {w : Text} (hw : ∀ c ∈ w, IsBlank c) (t : Text) : ∀ as : List Atom,
    NoKey (text as) ('"' :: (w ++ ',' :: t))
  | [] => trivial
  | a :: as => by
    rw [text_cons, noKey_append]
    refine ⟨?_, noKey_text hw t as⟩
    cases a with
    | plain c h => exact ⟨matchKey_cons_of_ne h.1 _, trivial⟩
    | short e =>
      refine ⟨matchKey_cons_of_ne (by decide) _, ?_, trivial⟩
      by_cases he : e.letter = '"'
      · rw [he]
        exact matchKey_string as hw t
      · exact matchKey_cons_of_ne he _
    | unicode u =>
      exact ⟨matchKey_cons_of_ne (by decide) _, matchKey_cons_of_ne (by decide) _,
        noKey_digits u _⟩
    | pair hi lo h =>
      refine ⟨matchKey_cons_of_ne (by decide) _, matchKey_cons_of_ne (by decide) _,
        noKey_append.2 ⟨noKey_digits hi _, ?_⟩⟩
      exact ⟨matchKey_cons_of_ne (by decide) _, matchKey_cons_of_ne (by decide) _,
        noKey_digits lo _⟩

/-! ### The key of an argument text -/

/-- No match of the key begins inside a value in quotes. -/
theorem noKey_value (as : List Atom) {w : Text} (hw : ∀ c ∈ w, IsBlank c) (t : Text) :
    NoKey (quoted (text as)) (w ++ ',' :: t) := by
  refine ⟨?_, noKey_append.2 ⟨noKey_text hw t as, ?_, trivial⟩⟩
  · rw [List.cons_append, List.append_assoc]
    exact matchKey_string as hw t
  · exact matchKey_quote_of_blank hw (by decide) t

/-- No match of the key begins inside another key. -/
theorem noKey_key {c : Char} {name : Text} (hc : c ≠ 'c') (hname : '"' ∉ c :: name) {w : Text}
    (hw : ∀ c ∈ w, IsBlank c) (t : Text) : NoKey (quoted (c :: name)) (w ++ ':' :: t) := by
  refine ⟨matchKey_quote_of_blank (w := []) (by simp) hc _,
    noKey_append.2 ⟨noKey_of_not_mem hname _, ?_, trivial⟩⟩
  exact matchKey_quote_of_blank hw (by decide) t

namespace ArgsText
variable (d : ArgsText)

theorem noKey_gap (i : Fin 10) (v : Text) : NoKey (d.gap i) v :=
  noKey_of_not_mem (not_mem_of_isBlank (d.blank i)) v

theorem noKey_filenameText (t : Text) : NoKey d.filenameText (d.gap 4 ++ ',' :: t) := by
  refine noKey_append.2 ⟨?_, noKey_append.2 ⟨d.noKey_gap 0 _, matchKey_cons_of_ne (by decide) _,
    noKey_append.2 ⟨d.noKey_gap 1 _, noKey_value d.filename (d.blank 4) t⟩⟩⟩
  rw [List.append_assoc]
  exact noKey_key (by decide) (by decide) (d.blank 0) _

theorem noKey_head (v : Text) : NoKey d.head v := by
  refine noKey_append.2 ⟨d.noKey_gap 2 _, matchKey_cons_of_ne (by decide) _,
    noKey_append.2 ⟨d.noKey_gap 3 _, ?_⟩⟩
  split
  · trivial
  · refine noKey_append.2 ⟨?_, noKey_append.2 ⟨d.noKey_gap 4 _, matchKey_cons_of_ne (by decide) _,
      d.noKey_gap 5 _⟩⟩
    rw [List.append_assoc]
    exact d.noKey_filenameText _

theorem matchKey_key (x : Text) : matchKey (d.key ++ x) = some x :=
  matchKey_eq_some_iff.2 ⟨d.gap 6, d.gap 7, fun c hc => isSpace_of_isBlank (d.blank 6 c hc),
    fun c hc => isSpace_of_isBlank (d.blank 7 c hc), by simp [key]⟩

/-- In a text cut anywhere the key is found exactly when it is complete. -/
theorem searchKey_take (n : ℕ) :
    searchKey (d.fullText.take n) = if n < d.start then none else some d.start := by
  have hfull : searchField "content".toList d.fullText = some d.start := by
    have hkey (x : Text) : searchField "content".toList (d.key ++ x) = some d.key.length := by
      rw [searchField_of_match (d.matchKey_key x), List.length_append, Nat.add_sub_cancel_right]
    rw [fullText, List.append_assoc, searchField_append (noKey_iff.1 (d.noKey_head _)), hkey,
      Option.map_some, start, List.length_append, Nat.add_comm]
  rw [searchKey_eq]
  exact searchField_take (by decide) hfull n

end ArgsText

/-! ### What is decoded -/

section
variable (asciiDigit : Char → Char)

theorem decodeEscape_short (e : Escape) (rest : Text) :
    decodeEscape asciiDigit e.letter rest = (e.point, 1) := by
  cases e <;> simp [decodeEscape, Escape.letter, Escape.point]

theorem decodeFrom_plain {c : Char} (h : IsPlain c) (t : Text) :
    decodeFrom asciiDigit 0 (c :: t) = c.toNat :: decodeFrom asciiDigit 0 t := by
  have hat : decodeAt asciiDigit c t = (c.toNat, 0) := by
    cases t with
    | nil => rfl
    | cons x t => rw [decodeAt, if_neg h.2.1]
  rw [decodeFrom, if_neg h.1, hat]

theorem decodeFrom_short (e : Escape) (t : Text) :
    decodeFrom asciiDigit 0 ('\\' :: e.letter :: t) = e.point :: decodeFrom asciiDigit 0 t := by
  have hat : decodeAt asciiDigit '\\' (e.letter :: t) = (e.point, 1) := by
    rw [decodeAt, if_pos rfl, decodeEscape_short]
  rw [decodeFrom, if_neg (by decide), hat, decodeFrom]

/-- Without `\u`, what is spelled in full is decoded to what it stands for. -/
theorem decodeFrom_text {as : List Atom} (h : ∀ a ∈ as, a.isUnicode = false) (t : Text) :
    decodeFrom asciiDigit 0 (text as ++ t) = points as ++ decodeFrom asciiDigit 0 t := by
  induction as with
  | nil => rfl
  | cons a as ih =>
    rw [List.forall_mem_cons] at h
    rw [text_cons, points_cons, List.append_assoc, List.cons_append, ← ih h.2]
    cases a with
    | plain c hc => exact decodeFrom_plain asciiDigit hc _
    | short e => exact decodeFrom_short asciiDigit e _
    | unicode u => cases h.1
    | pair hi lo hp => cases h.1

end

/-- How many characters have been begun in the first `n` characters of a spelling. -/
def begun : List Atom → ℕ → ℕ
  | [], _ => 0
  | _ :: _, 0 => 0
  | a :: as, n + 1 => begun as (n + 1 - a.text.length) + 1

/-- The first `n` characters end right after the backslash of an escape of something else. -/
def SplitsEscape (as : List Atom) (n : ℕ) : Prop :=
  ∃ pre e post, as = pre ++ Atom.short e :: post ∧ e ≠ .backslash ∧ n = (text pre).length + 1

@[simp] theorem begun_zero (as : List Atom) : begun as 0 = 0 := by cases as <;> rfl

theorem begun_mono {as : List Atom} : ∀ {n m : ℕ}, n ≤ m → begun as n ≤ begun as m := by
  induction as with
  | nil => intro n m _; exact Nat.le_refl 0
  | cons a as ih =>
    intro n m h
    cases n with
    | zero => rw [begun_zero]; omega
    | succ n =>
      obtain ⟨m, rfl⟩ : ∃ k, m = k + 1 := ⟨m - 1, by omega⟩
      have := ih (n := n + 1 - a.text.length) (m := m + 1 - a.text.length) (by omega)
      rw [begun, begun]
      omega

theorem begun_full : ∀ {as : List Atom} {n : ℕ}, (text as).length ≤ n → begun as n = as.length
  | [], _, _ => rfl
  | a :: as, 0, h => by
    have : 0 < a.text.length := by cases a <;> simp [Atom.text]
    rw [text_cons, List.length_append] at h
    omega
  | a :: as, n + 1, h => by
    rw [text_cons, List.length_append] at h
    rw [begun, begun_full (by omega), List.length_cons]

theorem begun_le (as : List Atom) (n : ℕ) : begun as n ≤ as.length := by
  have h : begun as n ≤ begun as (max n (text as).length) := begun_mono (Nat.le_max_left ..)
  rwa [begun_full (Nat.le_max_right ..)] at h

theorem SplitsEscape.lt {as : List Atom} {n : ℕ} (h : SplitsEscape as n) : n < (text as).length := by
  obtain ⟨pre, e, post, rfl, -, rfl⟩ := h
  simp only [text_append, text_cons, Atom.text, List.length_append, List.length_cons]
  omega

theorem SplitsEscape.cons {as : List Atom} {n : ℕ} (h : SplitsEscape as n) (a : Atom) :
    SplitsEscape (a :: as) (n + a.text.length) := by
  obtain ⟨pre, e, post, rfl, he, rfl⟩ := h
  exact ⟨a :: pre, e, post, rfl, he, by rw [text_cons, List.length_append]; omega⟩

section
variable (asciiDigit : Char → Char)

/-- PREFIX: a spelling cut anywhere but in an escape is decoded to the characters begun. -/
theorem decodeFrom_take (tail : Text) : ∀ {as : List Atom} {n : ℕ},
    (∀ a ∈ as, a.isUnicode = false) → ¬ SplitsEscape as n →
      decodeFrom asciiDigit 0 ((text as ++ '"' :: tail).take n) = (points as).take (begun as n)
  | [], 0, _, _ => rfl
  | [], n + 1, _, _ => by simp [decodeFrom]
  | a :: as, 0, _, _ => by simp [decodeFrom]
  | a :: as, n + 1, h, hs => by
    rw [List.forall_mem_cons] at h
    have ih (m : ℕ) (hm : m + a.text.length = n + 1) :=
      decodeFrom_take tail (n := m) h.2 fun hsplit => hs (hm ▸ hsplit.cons a)
    cases a with
    | plain c hc =>
      have hcut : ((text (Atom.plain c hc :: as) ++ '"' :: tail).take (n + 1)) =
          c :: (text as ++ '"' :: tail).take n := rfl
      rw [hcut, decodeFrom_plain asciiDigit hc, ih n rfl]
      rfl
    | short e =>
      cases n with
      | zero =>
        have he : e = .backslash := by
          by_contra he
          exact hs ⟨[], e, as, rfl, he, rfl⟩
        have hone : begun (.short .backslash :: as) 1 = 1 := congrArg (· + 1) (begun_zero as)
        rw [he, hone]
        rfl
      | succ n =>
        have hcut : ((text (Atom.short e :: as) ++ '"' :: tail).take (n + 2)) =
            '\\' :: e.letter :: (text as ++ '"' :: tail).take n := rfl
        rw [hcut, decodeFrom_short, ih n rfl]
        rfl
    | unicode u => cases h.1
    | pair hi lo hp => cases h.1

/-- After a cut in an escape the backslash is decoded, or the letter. -/
theorem decodeFrom_split {pre : List Atom} (h : ∀ a ∈ pre, a.isUnicode = false) (x : Text) :
    decodeFrom asciiDigit 0 ((text pre ++ '\\' :: x).take ((text pre).length + 1)) =
        points pre ++ [0x5c] ∧
      decodeFrom asciiDigit 0 ((text pre ++ '\\' :: 'u' :: x).take ((text pre).length + 2)) =
        points pre ++ [0x75] := by
  constructor <;> (rw [List.take_length_add_append, decodeFrom_text asciiDigit h]; rfl)

end

end AgentLangraph.Stream
