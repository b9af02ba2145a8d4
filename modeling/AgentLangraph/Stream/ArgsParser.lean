import AgentLangraph.Lib.JsonText

/-! The incremental reader of a tool call's arguments (`artifact_args_parser.py`). Pieces of the JSON
    text are appended to `accumulated`; once the key `"content"` has been seen, the value that
    follows it is decoded as far as it has come, without waiting for the closing quote. -/

namespace AgentLangraph.Stream
open PyText JsonText

/-- A decoded text: `chr` of a surrogate is a character of a Python string, but no `Char`. -/
abbrev Points := List ℕ

def ofText (t : Text) : Points := t.map Char.toNat

/-! ### `int(text, 16)` -/

/-- Digits with single underscores between them; the flag says that the last one was a digit. -/
def readDigits : ℕ → Bool → Text → Option ℕ
  | acc, afterDigit, [] => if afterDigit then some acc else none
  | acc, afterDigit, c :: cs =>
    if c = '_' then if afterDigit then readDigits acc false cs else none
    else match hexDigit c with
      | some d => readDigits (16 * acc + d) true cs
      | none => none

/-- `0x`, and one underscore after it. -/
def dropHexMark : Text → Text
  | '0' :: x :: '_' :: cs => if x = 'x' ∨ x = 'X' then cs else '0' :: x :: '_' :: cs
  | '0' :: x :: cs => if x = 'x' ∨ x = 'X' then cs else '0' :: x :: cs
  | cs => cs

/-- `int(text, 16)`. The decimal digits of other scripts count as the ASCII ones. -/
def intBase16 (asciiDigit : Char → Char) (t : Text) : Option ℤ :=
  match strip (t.map fun c => if c.toNat < 0x80 then c else asciiDigit c) with
  | '-' :: cs => (readDigits 0 false (dropHexMark cs)).map fun n => -(n : ℤ)
  | '+' :: cs => (readDigits 0 false (dropHexMark cs)).map fun n => (n : ℤ)
  | cs => (readDigits 0 false (dropHexMark cs)).map fun n => (n : ℤ)

/-- `chr(int(text, 16))`, `none` for a `ValueError` of either. -/
def chrOfHex (asciiDigit : Char → Char) (t : Text) : Option ℕ :=
  match intBase16 asciiDigit t with
  | some n => if 0 ≤ n ∧ n < 0x110000 then some n.toNat else none
  | none => none

/-! ### `_decode_json_string_partial` -/

/-- What the escape with the letter `nxt` is decoded to, and how many characters after the backslash
    it takes. -/
def decodeEscape (asciiDigit : Char → Char) (nxt : Char) (rest : Text) : ℕ × ℕ :=
  if nxt = 'n' then (0x0a, 1)
  else if nxt = 't' then (0x09, 1)
  else if nxt = 'r' then (0x0d, 1)
  else if nxt = 'b' then (0x08, 1)
  else if nxt = 'f' then (0x0c, 1)
  else if nxt = 'u' ∧ 4 ≤ rest.length then
    match chrOfHex asciiDigit (rest.take 4) with
    -- `i += 5` and then `i += 2`: the character after the four digits is passed over as well
    | some n => (n, 6)
    | none => (nxt.toNat, 1)
  else (nxt.toNat, 1)

/-- What is read at a character, and how many characters after it go with it. -/
def decodeAt (asciiDigit : Char → Char) (ch : Char) (cs : Text) : ℕ × ℕ :=
  match cs with
  | nxt :: rest => if ch = '\\' then decodeEscape asciiDigit nxt rest else (ch.toNat, 0)
  | [] => (ch.toNat, 0)

/-- The loop of `_decode_json_string_partial`, with the number of characters still to pass over. -/
def decodeFrom (asciiDigit : Char → Char) : ℕ → Text → Points
  | _, [] => []
  | skip + 1, _ :: cs => decodeFrom asciiDigit skip cs
  | 0, ch :: cs =>
    if ch = '"' then []
    else (decodeAt asciiDigit ch cs).1 :: decodeFrom asciiDigit (decodeAt asciiDigit ch cs).2 cs

/-- `_decode_json_string_partial`. -/
def decodeJsonStringPartial (asciiDigit : Char → Char) (raw : Text) (start : ℕ) : Points :=
  decodeFrom asciiDigit 0 (raw.drop start)

/-! ### The key -/

/-- A text in quotes. -/
def quoted (t : Text) : Text := '"' :: (t ++ ['"'])

/-- A match of `"content"\s*:\s*"` at the front of a text: what follows it. -/
def matchKey (t : Text) : Option Text := do
  let t ← (quoted "content".toList).isPrefixOf? t
  let t ← [':'].isPrefixOf? (lstrip t)
  ['"'].isPrefixOf? (lstrip t)

/-- `_CONTENT_KEY_RE.search`: where the first match ends. -/
def searchKey : Text → Option ℕ
  | [] => none
  | c :: cs =>
    match matchKey (c :: cs) with
    | some rest => some ((c :: cs).length - rest.length)
    | none => (searchKey cs).map (· + 1)

/-- `ArtifactArgsParser`. -/
structure ArtifactArgsParser where
  accumulated : Text := []
  /-- `_content_start`, once `_content_key_seen`. -/
  contentStart : Option ℕ := none
  deriving DecidableEq

def ArtifactArgsParser.feed (p : ArtifactArgsParser) (piece : Text) : ArtifactArgsParser :=
  if piece = [] then p
  else
    let accumulated := p.accumulated ++ piece
    { accumulated, contentStart := p.contentStart <|> searchKey accumulated }

def ArtifactArgsParser.contentSoFar (p : ArtifactArgsParser) (asciiDigit : Char → Char) : Points :=
  match p.contentStart <|> searchKey p.accumulated with
  | some start => decodeJsonStringPartial asciiDigit p.accumulated start
  | none => []

/-- `extract_content_so_far`. -/
def extractContentSoFar (asciiDigit : Char → Char) (accumulated : Text) : Points :=
  (ArtifactArgsParser.feed {} accumulated).contentSoFar asciiDigit

end AgentLangraph.Stream
