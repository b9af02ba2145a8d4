import AgentLangraph.Lib.JsonNumber
import AgentLangraph.Lib.JsonText
import AgentLangraph.Lib.PyDict

/-! JSON values, as Python's `json` writes and reads them: `dumps` with its defaults (a blank after each comma and
    colon, every other character than printable ASCII escaped), and `raw_decode`, which reads the value in front of
    a text and leaves the rest.

        {"a": [1, null]} …   ──decode──▶   obj [("a", arr [num 1, null])],  …

    Numbers are of any type that can be written and read; strings are of Unicode characters. -/

open PyText

inductive Json (ν : Type)
  | null
  | bool (b : Bool)
  | num (n : ν)
  | str (t : Text)
  | arr (vs : List (Json ν))
  | obj (es : List (Text × Json ν))

/-- How numbers are written and read. -/
structure Numbers (ν : Type) where
  text : ν → Text
  read : Text → ν
  literal : ∀ n, JsonNumber.Literal (text n)
  read_text : ∀ n, read (text n) = n

namespace Json
open JsonText

variable {ν : Type}

/-! ### Strings -/

def hexChar (d : ℕ) : Char := Char.ofNat (if d < 10 then 0x30 + d else 0x57 + d)

theorem hexDigit_hexChar {d : ℕ} (h : d < 16) : hexDigit (hexChar d) = some d := by
  have hall : ∀ d < 16, hexDigit (hexChar d) = some d := by decide
  exact hall d h

/-- `'{0:04x}'.format(n)`. -/
def hexText (n : ℕ) : Text := [hexChar (n / 4096 % 16), hexChar (n / 256 % 16), hexChar (n / 16 % 16), hexChar (n % 16)]

theorem hexDigit_of_mem_hexText {n : ℕ} {c : Char} (h : c ∈ hexText n) : (hexDigit c).isSome := by
  have hd : ∃ d < 16, c = hexChar d := by
    simp only [hexText, List.mem_cons, List.not_mem_nil, or_false] at h
    rcases h with h | h | h | h
    all_goals exact ⟨_, Nat.mod_lt _ (by omega), h⟩
  obtain ⟨d, hd, rfl⟩ := hd
  rw [hexDigit_hexChar hd]
  rfl

def hex4 (n : ℕ) : Hex4 := ⟨hexText n, rfl, fun _ h => hexDigit_of_mem_hexText h⟩

theorem value_hex4 {n : ℕ} (h : n < 65536) : (hex4 n).value = n := by
  have hval : hexValue (hexText n) =
      some (16 * (16 * (16 * (16 * 0 + n / 4096 % 16) + n / 256 % 16) + n / 16 % 16) + n % 16) := by
    simp only [hexValue, hexText, List.foldl_cons, List.foldl_nil, Option.bind_eq_bind, Option.bind_some,
      hexDigit_hexChar (Nat.mod_lt _ (by omega : 0 < 16)), Option.pure_def]
  rw [Hex4.value, hex4, hval, Option.getD_some]
  omega

/-- The escapes that `dumps` writes. -/
def writtenEscapes : List Escape := [.quote, .backslash, .newline, .carriageReturn, .tab, .formFeed, .backspace]

/-- The surrogates of a character beyond the first plane. -/
def highOf (n : ℕ) : ℕ := 0xd800 + (n - 0x10000) / 0x400

def lowOf (n : ℕ) : ℕ := 0xdc00 + (n - 0x10000) % 0x400

theorem char_lt (c : Char) : c.toNat < 0x110000 := by
  have h := c.valid
  simp only [UInt32.isValidChar, Nat.isValidChar] at h
  change c.toNat < 0xd800 ∨ 0xdfff < c.toNat ∧ c.toNat < 0x110000 at h
  omega

theorem pair_surrogates (c : Char) : IsHigh (hex4 (highOf c.toNat)).value ∧ IsLow (hex4 (lowOf c.toNat)).value := by
  have h := char_lt c
  rw [value_hex4 (by unfold highOf; omega), value_hex4 (by unfold lowOf; omega)]
  unfold IsHigh IsLow highOf lowOf
  omega

/-- How `dumps` spells a character (`ensure_ascii`). -/
def atomOf (c : Char) : Atom :=
  match writtenEscapes.find? fun e => e.point = c.toNat with
  | some e => .short e
  | none =>
    if h : IsPlain c ∧ c.toNat < 0x7f then .plain c h.1
    else if c.toNat < 0x10000 then .unicode (hex4 c.toNat)
    else .pair (hex4 (highOf c.toNat)) (hex4 (lowOf c.toNat)) (pair_surrogates c)

theorem point_atomOf (c : Char) : (atomOf c).point = c.toNat := by
  have hc := char_lt c
  rw [atomOf]
  split
  · next e he =>
    have he := List.find?_some he
    exact of_decide_eq_true he
  · split_ifs with hplain hplane
    · rfl
    · exact value_hex4 hplane
    · rw [Atom.point, value_hex4 (by unfold highOf; omega), value_hex4 (by unfold lowOf; omega)]
      unfold joined highOf lowOf
      omega

theorem apart_atomOf (c : Char) (b : Atom) : Apart (atomOf c) b := by
  have hpoint := point_atomOf c
  cases ha : atomOf c with
  | unicode u =>
    rw [ha] at hpoint
    cases b with
    | unicode v => exact fun h => (JsonText.not_surrogate c).1 (hpoint ▸ h.1)
    | _ => trivial
  | _ => trivial

def atoms (t : Text) : List Atom := t.map atomOf

theorem canonical_atoms (t : Text) : Canonical (atoms t) := by
  induction t with
  | nil => exact List.isChain_nil
  | cons c t ih =>
    cases t with
    | nil => exact List.isChain_singleton _
    | cons d t => exact List.isChain_cons_cons.2 ⟨apart_atomOf c _, ih⟩

/-- A string in its quotes. -/
def quoted (t : Text) : Text := '"' :: (JsonText.text (atoms t) ++ ['"'])

/-- What stands before the closing quote, and what follows it. -/
def bodyOf : Text → Option (Text × Text)
  | [] => none
  | '"' :: t => some ([], t)
  | '\\' :: c :: t => (bodyOf t).map fun p => ('\\' :: c :: p.1, p.2)
  | c :: t => (bodyOf t).map fun p => (c :: p.1, p.2)

/-- The characters of code points; a lone surrogate is none. -/
def ofPoints (ns : List ℕ) : Option Text := ns.mapM fun n => if n.isValidChar then some (Char.ofNat n) else none

/-- A string, read after its opening quote. -/
def scanString (t : Text) : Option (Text × Text) :=
  (bodyOf t).bind fun p => ((JsonText.loads p.1).bind ofPoints).map fun s => (s, p.2)

theorem bodyOf_plain {c : Char} (hq : c ≠ '"') (hb : c ≠ '\\') (t : Text) :
    bodyOf (c :: t) = (bodyOf t).map fun p => (c :: p.1, p.2) :=
  bodyOf.eq_4 c t hq (by simp [hb])

theorem bodyOf_digits : ∀ {ds : Text}, (∀ c ∈ ds, (hexDigit c).isSome) → ∀ t : Text,
    bodyOf (ds ++ t) = (bodyOf t).map fun p => (ds ++ p.1, p.2)
  | [], _, t => by cases h : bodyOf t <;> simp [h]
  | c :: ds, h, t => by
    have hc : c ≠ '"' ∧ c ≠ '\\' := by
      constructor <;> rintro rfl <;> exact absurd (h _ List.mem_cons_self) (by decide)
    rw [List.cons_append, bodyOf_plain hc.1 hc.2, bodyOf_digits fun d hd => h d (List.mem_cons_of_mem c hd),
      Option.map_map]
    rfl

theorem bodyOf_escaped (c : Char) (t : Text) :
    bodyOf ('\\' :: c :: t) = (bodyOf t).map fun p => ('\\' :: c :: p.1, p.2) := by
  rw [bodyOf]

theorem bodyOf_hex4 (u : Hex4) (t : Text) :
    bodyOf ('\\' :: 'u' :: (u.digits ++ t)) = (bodyOf t).map fun p => ('\\' :: 'u' :: (u.digits ++ p.1), p.2) := by
  rw [bodyOf_escaped, bodyOf_digits u.hex, Option.map_map]
  rfl

theorem bodyOf_atom (a : Atom) (t : Text) :
    bodyOf (a.text ++ t) = (bodyOf t).map fun p => (a.text ++ p.1, p.2) := by
  cases a with
  | plain c h => exact bodyOf_plain h.1 h.2.1 t
  | short e => exact bodyOf_escaped e.letter t
  | unicode u => exact bodyOf_hex4 u t
  | pair hi lo h =>
    simp only [Atom.text, List.cons_append, List.append_assoc]
    rw [bodyOf_hex4, bodyOf_hex4, Option.map_map]
    rfl

theorem bodyOf_text (as : List Atom) (t : Text) :
    bodyOf (JsonText.text as ++ '"' :: t) = some (JsonText.text as, t) := by
  induction as with
  | nil => rw [text_nil, List.nil_append, bodyOf]
  | cons a as ih => rw [text_cons, List.append_assoc, bodyOf_atom, ih]; rfl

theorem ofPoints_toNat (t : Text) : ofPoints (t.map Char.toNat) = some t := by
  induction t with
  | nil => rfl
  | cons c t ih =>
    have hc : c.toNat.isValidChar := c.valid
    rw [ofPoints] at ih ⊢
    rw [List.map_cons, List.mapM_cons, ih, if_pos hc, Char.ofNat_toNat]
    rfl

theorem loads_atoms (t : Text) : (JsonText.loads (JsonText.text (atoms t))).bind ofPoints = some t := by
  have hpoints : points (atoms t) = t.map Char.toNat := by
    simp only [points, atoms, List.map_map]
    exact List.map_congr_left fun c _ => point_atomOf c
  rw [loads_text (canonical_atoms t), hpoints, Option.bind_some, ofPoints_toNat]

/-- ROUND TRIP: a string is read back as it was. -/
theorem scanString_quoted (t rest : Text) :
    scanString (JsonText.text (atoms t) ++ '"' :: rest) = some (t, rest) := by
  rw [scanString, bodyOf_text, Option.bind_some, loads_atoms]
  rfl

theorem bodyOf_length : ∀ {t : Text} {p : Text × Text}, bodyOf t = some p → p.2.length < t.length := by
  intro t
  induction t using bodyOf.induct with
  | case1 => rintro p ⟨⟩
  | case2 t =>
    intro p h
    rw [bodyOf] at h
    cases h
    simp
  | case3 c t ih =>
    intro p h
    rw [bodyOf_escaped] at h
    obtain ⟨q, hq, rfl⟩ := Option.map_eq_some_iff.1 h
    have hlt := ih hq
    simp only [List.length_cons]
    omega
  | case4 c t hq hb ih =>
    intro p h
    rw [bodyOf.eq_4 c t hq hb] at h
    obtain ⟨q, hq, rfl⟩ := Option.map_eq_some_iff.1 h
    have hlt := ih hq
    simp only [List.length_cons]
    omega

theorem scanString_length {t : Text} {p : Text × Text} (h : scanString t = some p) :
    p.2.length < t.length := by
  obtain ⟨q, hq, h⟩ := Option.bind_eq_some_iff.1 h
  obtain ⟨s, -, rfl⟩ := Option.map_eq_some_iff.1 h
  have hlt := bodyOf_length hq
  exact hlt

/-! ### Writing -/

variable (N : Numbers ν)

/-- A key, as it stands in front of its value. -/
def keyText (k : Text) : Text := quoted k ++ [':', ' ']

/-- `json.dumps`. -/
def dumps : Json ν → Text
  | null => ['n', 'u', 'l', 'l']
  | bool true => ['t', 'r', 'u', 'e']
  | bool false => ['f', 'a', 'l', 's', 'e']
  | num n => N.text n
  | str t => quoted t
  | arr [] => ['[', ']']
  | arr (v :: vs) => '[' :: (dumps v ++ dumpsElements vs)
  | obj [] => ['{', '}']
  | obj ((k, v) :: es) => '{' :: (keyText k ++ dumps v ++ dumpsMembers es)
where
  /-- What follows the first element. -/
  dumpsElements : List (Json ν) → Text
    | [] => [']']
    | v :: vs => ',' :: ' ' :: (dumps v ++ dumpsElements vs)
  /-- What follows the first member. -/
  dumpsMembers : List (Text × Json ν) → Text
    | [] => ['}']
    | (k, v) :: es => ',' :: ' ' :: (keyText k ++ dumps v ++ dumpsMembers es)

/-! ### Reading -/

def isBlank (c : Char) : Bool := c = ' ' || c = '\t' || c = '\n' || c = '\r'

def skipBlanks (t : Text) : Text := t.dropWhile isBlank

def keywords : List (Text × Json ν) :=
  [(['n', 'u', 'l', 'l'], null), (['t', 'r', 'u', 'e'], bool true), (['f', 'a', 'l', 's', 'e'], bool false)]

mutual

/-- `scan_once`: the value in front of a text, and what follows it. -/
def value : ℕ → Text → Option (Json ν × Text)
  | 0, _ => none
  | _ + 1, [] => none
  | n + 1, c :: t =>
    if c = '"' then (scanString t).map fun p => (str p.1, p.2)
    else if c = '{' then
      match skipBlanks t with
      | '}' :: r => some (obj [], r)
      | r => (members n r).map fun p => (obj (PyDict.ofList p.1).entries, p.2)
    else if c = '[' then
      match skipBlanks t with
      | ']' :: r => some (arr [], r)
      | r => (elements n r).map fun p => (arr p.1, p.2)
    else
      match keywords.find? fun k => k.1.isPrefixOf (c :: t) with
      | some k => some (k.2, (c :: t).drop k.1.length)
      | none => (JsonNumber.scan (c :: t)).map fun p => (num (N.read p.1), p.2)

/-- The elements of an array, one at least, and what follows the closing bracket. -/
def elements : ℕ → Text → Option (List (Json ν) × Text)
  | 0, _ => none
  | n + 1, t =>
    (value n t).bind fun p =>
      match skipBlanks p.2 with
      | ',' :: r => (elements n (skipBlanks r)).map fun q => (p.1 :: q.1, q.2)
      | ']' :: r => some ([p.1], r)
      | _ => none

/-- The members of an object, one at least, and what follows the closing brace. -/
def members : ℕ → Text → Option (List (Text × Json ν) × Text)
  | 0, _ => none
  | n + 1, '"' :: t =>
    (scanString t).bind fun k =>
      match skipBlanks k.2 with
      | ':' :: r =>
        (value n (skipBlanks r)).bind fun p =>
          match skipBlanks p.2 with
          | ',' :: r => (members n (skipBlanks r)).map fun q => ((k.1, p.1) :: q.1, q.2)
          | '}' :: r => some ([(k.1, p.1)], r)
          | _ => none
      | _ => none
  | _ + 1, _ => none

end

/-- `JSONDecoder.raw_decode`: the value in front of a text, with all the steps it can take. -/
def rawDecode (t : Text) : Option (Json ν × Text) := value N t.length t

/-! ### What is written is read back -/

/-- The keys of every object differ from each other, as those of a dictionary do. -/
def Distinct : Json ν → Prop
  | arr vs => elementsDistinct vs
  | obj es => (es.map Prod.fst).Nodup ∧ membersDistinct es
  | _ => True
where
  elementsDistinct : List (Json ν) → Prop
    | [] => True
    | v :: vs => Distinct v ∧ elementsDistinct vs
  membersDistinct : List (Text × Json ν) → Prop
    | [] => True
    | (_, v) :: es => Distinct v ∧ membersDistinct es

open JsonNumber (Ends ends_cons)

variable {N}

/-- How a value begins. -/
theorem dumps_head (v : Json ν) : ∃ c t, dumps N v = c :: t ∧ isBlank c = false ∧ c ≠ ']' := by
  cases v with
  | null => exact ⟨'n', _, rfl, rfl, by decide⟩
  | bool b =>
    cases b with
    | false => exact ⟨'f', _, rfl, rfl, by decide⟩
    | true => exact ⟨'t', _, rfl, rfl, by decide⟩
  | num n =>
    obtain ⟨c, r, hr, hc⟩ := (N.literal n).head
    simp only [List.mem_cons, List.not_mem_nil, or_false, not_or] at hc
    exact ⟨c, r, hr, by simp [isBlank, hc], hc.2.2.2.1⟩
  | str s => exact ⟨'"', _, rfl, rfl, by decide⟩
  | arr vs => cases vs <;> exact ⟨'[', _, rfl, rfl, by decide⟩
  | obj es => rcases es with _ | ⟨⟨k, v⟩, es⟩ <;> exact ⟨'{', _, rfl, rfl, by decide⟩

theorem getLast?_dumpsMembers : ∀ es : List (Text × Json ν), (dumps.dumpsMembers N es).getLast? = some '}'
  | [] => rfl
  | (k, v) :: es => by
    rw [dumps.dumpsMembers, ← List.cons_append, ← List.cons_append, List.getLast?_append, getLast?_dumpsMembers es]
    rfl

/-- How an object ends. -/
theorem getLast?_dumps_obj (es : List (Text × Json ν)) : (dumps N (obj es)).getLast? = some '}' := by
  rcases es with _ | ⟨⟨k, v⟩, es⟩
  · rfl
  · rw [dumps, ← List.cons_append, List.getLast?_append, getLast?_dumpsMembers es]
    rfl

/-- No blank stands in front of a value. -/
theorem skipBlanks_dumps (v : Json ν) (t : Text) : skipBlanks (dumps N v ++ t) = dumps N v ++ t := by
  obtain ⟨c, r, hr, hc, -⟩ := dumps_head (N := N) v
  rw [hr, List.cons_append, skipBlanks, List.dropWhile_cons_of_neg (by simp [hc])]

theorem skipBlanks_cons {c : Char} (hc : isBlank c = false) (t : Text) : skipBlanks (c :: t) = c :: t := by
  rw [skipBlanks, List.dropWhile_cons_of_neg (by simp [hc])]

theorem skipBlanks_blank (t : Text) : skipBlanks (' ' :: t) = skipBlanks t := rfl

theorem dumps_length_pos (v : Json ν) : 0 < (dumps N v).length := by
  obtain ⟨c, r, hr, -⟩ := dumps_head (N := N) v
  rw [hr]
  exact Nat.succ_pos _

theorem ends_dumpsElements (vs : List (Json ν)) (t : Text) : Ends (dumps.dumpsElements N vs ++ t) := by
  cases vs with
  | nil => exact ends_cons (by decide) _
  | cons v vs => exact ends_cons (by decide) _

theorem ends_dumpsMembers (es : List (Text × Json ν)) (t : Text) : Ends (dumps.dumpsMembers N es ++ t) := by
  rcases es with _ | ⟨⟨k, v⟩, es⟩
  · exact ends_cons (by decide) _
  · exact ends_cons (by decide) _

theorem value_string (n : ℕ) (s rest : Text) : value N (n + 1) (quoted s ++ rest) = some (str s, rest) := by
  rw [quoted, List.cons_append, List.append_assoc, value, if_pos rfl, List.singleton_append, scanString_quoted]
  rfl

theorem value_number (n : ℕ) (m : ν) {rest : Text} (h : Ends rest) :
    value N (n + 1) (N.text m ++ rest) = some (num m, rest) := by
  have hscan := (N.literal m).scan_append h
  obtain ⟨c, r, hr, hc⟩ := (N.literal m).head
  simp only [List.mem_cons, List.not_mem_nil, or_false, not_or] at hc
  have hkey : (keywords : List (Text × Json ν)).find? (fun k => k.1.isPrefixOf (c :: (r ++ rest))) = none := by
    simp [keywords, List.isPrefixOf, Ne.symm hc.2.2.2.2.1, Ne.symm hc.2.2.2.2.2.1, Ne.symm hc.2.2.2.2.2.2.1]
  rw [hr, List.cons_append] at hscan ⊢
  rw [value, if_neg hc.1, if_neg hc.2.1, if_neg hc.2.2.1, hkey]
  simp only [hscan, Option.map_some, ← hr, N.read_text]

theorem value_array (n : ℕ) {t : Text} (h : ∀ r, skipBlanks t ≠ ']' :: r) :
    value N (n + 1) ('[' :: t) = (elements N n (skipBlanks t)).map fun p => (arr p.1, p.2) := by
  rw [value, if_neg (by decide), if_neg (by decide), if_pos rfl]
  split
  · next r hr => exact absurd hr (h r)
  · rfl

theorem value_object (n : ℕ) {t : Text} (h : ∀ r, skipBlanks t ≠ '}' :: r) :
    value N (n + 1) ('{' :: t) = (members N n (skipBlanks t)).map fun p => (obj (PyDict.ofList p.1).entries, p.2) := by
  rw [value, if_neg (by decide), if_pos rfl]
  split
  · next r hr => exact absurd hr (h r)
  · rfl

theorem keyText_append (k t : Text) :
    keyText k ++ t = '"' :: (JsonText.text (atoms k) ++ '"' :: ':' :: ' ' :: t) := by
  simp [keyText, quoted]

theorem skipBlanks_keyText (k t : Text) : skipBlanks (keyText k ++ t) = keyText k ++ t := by
  rw [keyText_append]
  rfl

theorem length_keyText_pos (k : Text) : 0 < (keyText k).length := by simp [keyText, quoted]

/-- After a key comes the value. -/
theorem members_key (n : ℕ) (k : Text) (v : Json ν) (t : Text) :
    members N (n + 1) (keyText k ++ dumps N v ++ t) =
      (value N n (dumps N v ++ t)).bind fun p =>
        match skipBlanks p.2 with
        | ',' :: r => (members N n (skipBlanks r)).map fun q => ((k, p.1) :: q.1, q.2)
        | '}' :: r => some ([(k, p.1)], r)
        | _ => none := by
  rw [List.append_assoc, keyText_append, members, scanString_quoted, Option.bind_some, skipBlanks_cons rfl]
  simp only [skipBlanks_blank, skipBlanks_dumps]

mutual

/-- ROUND TRIP: a value is read back from a longer text, with what follows it. -/
theorem value_dumps : ∀ (v : Json ν) (n : ℕ) (rest : Text), v.Distinct → (dumps N v).length ≤ n → Ends rest →
    value N n (dumps N v ++ rest) = some (v, rest)
  | v, 0, _, _, hn, _ => absurd hn (by have := dumps_length_pos (N := N) v; omega)
  | null, _ + 1, _, _, _, _ => rfl
  | bool true, _ + 1, _, _, _, _ => rfl
  | bool false, _ + 1, _, _, _, _ => rfl
  | num m, n + 1, _, _, _, hr => value_number n m hr
  | str s, n + 1, rest, _, _, _ => value_string n s rest
  | arr [], _ + 1, _, _, _, _ => rfl
  | arr (v :: vs), n + 1, rest, hd, hn, _ => by
    have hhead : ∀ r, dumps N v ++ (dumps.dumpsElements N vs ++ rest) ≠ ']' :: r := by
      obtain ⟨c, t, ht, -, hc⟩ := dumps_head (N := N) v
      rw [ht]
      rintro r ⟨⟩
      exact hc rfl
    rw [dumps, List.length_cons, List.length_append] at hn
    have ih := elements_dumps v vs n rest hd (by omega)
    rw [dumps, List.cons_append, List.append_assoc, value_array n (by rwa [skipBlanks_dumps]), skipBlanks_dumps, ih]
    rfl
  | obj [], _ + 1, _, _, _, _ => rfl
  | obj ((k, v) :: es), n + 1, rest, hd, hn, _ => by
    have hhead : ∀ t r, keyText k ++ t ≠ '}' :: r := by
      intro t r
      rw [keyText_append]
      rintro ⟨⟩
    rw [dumps, List.length_cons, List.length_append, List.length_append] at hn
    have ih := members_dumps k v es n rest hd.2 (by omega)
    rw [List.append_assoc] at ih
    rw [dumps, List.cons_append, List.append_assoc, List.append_assoc,
      value_object n (by rw [skipBlanks_keyText]; exact hhead _), skipBlanks_keyText, ih, Option.map_some,
      PyDict.entries_ofList hd.1]

theorem elements_dumps : ∀ (v : Json ν) (vs : List (Json ν)) (n : ℕ) (rest : Text),
    Distinct.elementsDistinct (v :: vs) → (dumps N v).length + (dumps.dumpsElements N vs).length ≤ n →
      elements N n (dumps N v ++ (dumps.dumpsElements N vs ++ rest)) = some (v :: vs, rest)
  | v, _, 0, _, _, hn => absurd hn (by have := dumps_length_pos (N := N) v; omega)
  | v, [], n + 1, rest, hd, hn => by
    have hv := value_dumps v n (']' :: rest) hd.1 (Nat.le_of_lt_succ (Nat.lt_of_lt_of_le (Nat.lt_succ_self _) hn))
      (ends_cons (by decide) _)
    change elements N (n + 1) (dumps N v ++ (']' :: rest)) = _
    rw [elements, hv]
    rfl
  | v, w :: vs, n + 1, rest, hd, hn => by
    simp only [dumps.dumpsElements, List.length_cons, List.length_append] at hn
    have hv := value_dumps v n (dumps.dumpsElements N (w :: vs) ++ rest) hd.1 (by omega) (ends_dumpsElements _ _)
    have ih := elements_dumps w vs n rest hd.2 (by omega)
    rw [elements, hv, Option.bind_some]
    change (elements N n (skipBlanks (' ' :: (dumps N w ++ dumps.dumpsElements N vs ++ rest)))).map _ = _
    rw [skipBlanks_blank, List.append_assoc, skipBlanks_dumps, ih]
    rfl

theorem members_dumps : ∀ (k : Text) (v : Json ν) (es : List (Text × Json ν)) (n : ℕ) (rest : Text),
    Distinct.membersDistinct ((k, v) :: es) →
      (keyText k).length + (dumps N v).length + (dumps.dumpsMembers N es).length ≤ n →
      members N n (keyText k ++ dumps N v ++ (dumps.dumpsMembers N es ++ rest)) = some ((k, v) :: es, rest)
  | k, _, _, 0, _, _, hn => absurd hn (by have := length_keyText_pos k; omega)
  | k, v, [], n + 1, rest, hd, hn => by
    have hkey := length_keyText_pos k
    have hv := value_dumps v n ('}' :: rest) hd.1 (by omega) (ends_cons (by decide) _)
    rw [members_key]
    change (value N n (dumps N v ++ ('}' :: rest))).bind _ = _
    rw [hv]
    rfl
  | k, v, (l, w) :: es, n + 1, rest, hd, hn => by
    have hkey := length_keyText_pos k
    have hv := value_dumps v n (dumps.dumpsMembers N ((l, w) :: es) ++ rest) hd.1 (by omega) (ends_dumpsMembers _ _)
    simp only [dumps.dumpsMembers, List.length_cons, List.length_append] at hn
    have ih := members_dumps l w es n rest hd.2 (by omega)
    rw [members_key, hv, Option.bind_some]
    change (members N n (skipBlanks (' ' :: (keyText l ++ dumps N w ++ dumps.dumpsMembers N es ++ rest)))).map _ = _
    rw [skipBlanks_blank, List.append_assoc, List.append_assoc, skipBlanks_keyText, ← List.append_assoc, ih]
    rfl

end

theorem rawDecode_dumps {v : Json ν} (h : v.Distinct) {rest : Text} (hr : Ends rest) :
    rawDecode N (dumps N v ++ rest) = some (v, rest) :=
  value_dumps v _ rest h (by simp) hr

/-! ### The steps suffice -/

theorem skipBlanks_length (t : Text) : (skipBlanks t).length ≤ t.length := (List.dropWhile_suffix isBlank).length_le

theorem keyword_length {k : Text × Json ν} {t : Text} (h : (keywords.find? fun k => k.1.isPrefixOf t) = some k) :
    (t.drop k.1.length).length < t.length := by
  have hpos : ∀ k ∈ (keywords : List (Text × Json ν)), 0 < k.1.length := by simp [keywords]
  have hk := hpos k (List.mem_of_find?_eq_some h)
  have hpre := List.find?_some h
  have hle := (List.isPrefixOf_iff_prefix.1 hpre).length_le
  rw [List.length_drop]
  omega

mutual

/-- What some number of steps reads, as many as there are characters do. -/
theorem value_steps : ∀ (m : ℕ) (t : Text) (p : Json ν × Text), value N m t = some p →
    p.2.length < t.length ∧ ∀ n, t.length ≤ n + p.2.length → value N n t = some p
  | 0, _, _, h => by cases h
  | _ + 1, [], _, h => by cases h
  | m + 1, c :: t, p, h => by
    -- at least one step is left, since something was read
    suffices hs : p.2.length < (c :: t).length ∧
        ∀ n, (c :: t).length ≤ n + 1 + p.2.length → value N (n + 1) (c :: t) = some p by
      refine ⟨hs.1, fun n hn => ?_⟩
      cases n with
      | zero => omega
      | succ n => exact hs.2 n hn
    have hblanks := skipBlanks_length t
    simp only [List.length_cons]
    rw [value] at h
    simp only [value]
    split_ifs at h ⊢ with hq hb ha
    · obtain ⟨q, hs, rfl⟩ := Option.map_eq_some_iff.1 h
      have hlt := scanString_length hs
      exact ⟨Nat.lt_succ_of_lt hlt, fun _ _ => h⟩
    · split at h
      · next r hr =>
        cases h
        rw [hr, List.length_cons] at hblanks
        exact ⟨Nat.lt_succ_of_lt hblanks, fun _ _ => rfl⟩
      · next hne =>
        obtain ⟨q, hs, rfl⟩ := Option.map_eq_some_iff.1 h
        obtain ⟨hlt, hsteps⟩ := members_steps m _ q hs
        refine ⟨Nat.lt_succ_of_lt (hlt.trans_le hblanks), fun n hn => ?_⟩
        dsimp only at hn
        rw [hsteps n (by omega)]
        rfl
    · split at h
      · next r hr =>
        cases h
        rw [hr, List.length_cons] at hblanks
        exact ⟨Nat.lt_succ_of_lt hblanks, fun _ _ => rfl⟩
      · next hne =>
        obtain ⟨q, hs, rfl⟩ := Option.map_eq_some_iff.1 h
        obtain ⟨hlt, hsteps⟩ := elements_steps m _ q hs
        refine ⟨Nat.lt_succ_of_lt (hlt.trans_le hblanks), fun n hn => ?_⟩
        dsimp only at hn
        rw [hsteps n (by omega)]
        rfl
    · refine ⟨?_, fun _ _ => h⟩
      split at h
      · next k hk =>
        cases h
        exact keyword_length hk
      · obtain ⟨q, hs, rfl⟩ := Option.map_eq_some_iff.1 h
        obtain ⟨hsplit, hne⟩ := JsonNumber.scan_split hs
        have hlen := congrArg List.length hsplit
        have hpos := List.length_pos_iff.2 hne
        simp only [List.length_append, List.length_cons] at hlen
        simp only
        omega

theorem elements_steps : ∀ (m : ℕ) (t : Text) (p : List (Json ν) × Text), elements N m t = some p →
    p.2.length < t.length ∧ ∀ n, t.length ≤ n + p.2.length → elements N n t = some p
  | 0, _, _, h => by cases h
  | m + 1, t, p, h => by
    rw [elements] at h
    obtain ⟨q, hv, h⟩ := Option.bind_eq_some_iff.1 h
    obtain ⟨hlt, hvalue⟩ := value_steps m t q hv
    have hblanks := skipBlanks_length q.2
    suffices hs : p.2.length < q.2.length ∧ ∀ n, t.length ≤ n + 1 + p.2.length → elements N (n + 1) t = some p by
      refine ⟨hs.1.trans hlt, fun n hn => ?_⟩
      cases n with
      | zero => omega
      | succ n => exact hs.2 n hn
    split at h
    · next r hr =>
      obtain ⟨s, hrest, rfl⟩ := Option.map_eq_some_iff.1 h
      obtain ⟨hlt', hsteps⟩ := elements_steps m _ s hrest
      have hblanks' := skipBlanks_length r
      rw [hr, List.length_cons] at hblanks
      refine ⟨by simp only; omega, fun n hn => ?_⟩
      simp only at hn
      rw [elements, hvalue n (by omega), Option.bind_some, hr]
      simp only [hsteps n (by omega), Option.map_some]
    · next r hr =>
      cases h
      rw [hr, List.length_cons] at hblanks
      refine ⟨by simp only; omega, fun n hn => ?_⟩
      simp only at hn
      rw [elements, hvalue n (by omega), Option.bind_some, hr]
      rfl
    · cases h

theorem members_steps : ∀ (m : ℕ) (t : Text) (p : List (Text × Json ν) × Text), members N m t = some p →
    p.2.length < t.length ∧ ∀ n, t.length ≤ n + p.2.length → members N n t = some p
  | 0, _, _, h => by cases h
  | m + 1, t, p, h => by
    suffices hs : p.2.length < t.length ∧ ∀ n, t.length ≤ n + 1 + p.2.length → members N (n + 1) t = some p by
      refine ⟨hs.1, fun n hn => ?_⟩
      cases n with
      | zero => omega
      | succ n => exact hs.2 n hn
    rcases t with _ | ⟨c, t⟩
    · simp [members] at h
    by_cases hc : c = '"'
    · subst hc
      rw [members] at h
      obtain ⟨k, hk, h⟩ := Option.bind_eq_some_iff.1 h
      have hkey := scanString_length hk
      have hcolon := skipBlanks_length k.2
      split at h
      · next r hr =>
        obtain ⟨q, hv, h⟩ := Option.bind_eq_some_iff.1 h
        obtain ⟨hlt, hvalue⟩ := value_steps m _ q hv
        have hfront := skipBlanks_length r
        have hcomma := skipBlanks_length q.2
        rw [hr, List.length_cons] at hcolon
        split at h
        · next r' hr' =>
          obtain ⟨s, hrest, rfl⟩ := Option.map_eq_some_iff.1 h
          obtain ⟨hlt', hsteps⟩ := members_steps m _ s hrest
          have hnext := skipBlanks_length r'
          rw [hr', List.length_cons] at hcomma
          simp only [List.length_cons]
          refine ⟨by omega, fun n hn => ?_⟩
          rw [members, hk, Option.bind_some, hr]
          simp only [hvalue n (by omega), Option.bind_some, hr', hsteps n (by omega), Option.map_some]
        · next r' hr' =>
          cases h
          rw [hr', List.length_cons] at hcomma
          simp only [List.length_cons]
          refine ⟨by omega, fun n hn => ?_⟩
          rw [members, hk, Option.bind_some, hr]
          simp only [hvalue n (by omega), Option.bind_some, hr']
        · cases h
      · cases h
    · simp [members, hc] at h

end

/-- `raw_decode` finds every value that there is. -/
theorem rawDecode_of_value {m : ℕ} {t : Text} {p : Json ν × Text} (h : value N m t = some p) :
    rawDecode N t = some p := (value_steps m t p h).2 _ (by simp)

end Json
