import AgentLangraph.Lib.PyText

/-! The methods of `str` that an editor of texts uses: `rfind`, `count`, `replace`, `split` at a slash,
    `splitlines(keepends=True)`, and slices with negative bounds. -/

namespace PyText

/-- `str.rfind`: the index of the last occurrence. -/
def rfind (sub : Text) : Text → Option ℕ
  | [] => if sub = [] then some 0 else none
  | c :: t =>
    match rfind sub t with
    | some i => some (i + 1)
    | none => if startswith (c :: t) sub then some 0 else none

/-- `str.split("/")`. -/
def splitSlash : Text → List Text
  | [] => [[]]
  | c :: t =>
    if c = '/' then [] :: splitSlash t
    else
      match splitSlash t with
      | [] => [[c]]
      | part :: parts => (c :: part) :: parts

/-- The lines with their ends. -/
def splitlinesKeep : Text → List Text
  | [] => []
  | '\r' :: '\n' :: t => ['\r', '\n'] :: splitlinesKeep t
  | c :: t =>
    if isLineBreak c then [c] :: splitlinesKeep t
    else
      match splitlinesKeep t with
      | [] => [[c]]
      | line :: lines => (c :: line) :: lines

/-- `str.find(sub, start)`. -/
def findFrom (sub t : Text) (start : ℕ) : Option ℕ := (find sub (t.drop start)).map (start + ·)

/-- The occurrences of a text that is not empty, none overlapping the one before. -/
def countFrom (sub : Text) : ℕ → Text → ℕ
  | 0, _ => 0
  | fuel + 1, t =>
    match find sub t with
    | some i => 1 + countFrom sub fuel (t.drop (i + sub.length))
    | none => 0

/-- `str.count`. -/
def count (t sub : Text) : ℕ := if sub = [] then t.length + 1 else countFrom sub t.length t

def replaceFrom (old new : Text) : ℕ → Text → Text
  | 0, t => t
  | fuel + 1, t =>
    match find old t with
    | some i => t.take i ++ new ++ replaceFrom old new fuel (t.drop (i + old.length))
    | none => t

/-- `str.replace`. -/
def replace (t old new : Text) : Text :=
  if old = [] then new ++ t.flatMap fun c => c :: new else replaceFrom old new t.length t

/-- `str.replace(old, new, 1)`. -/
def replaceOne (t old new : Text) : Text :=
  match find old t with
  | some i => t.take i ++ new ++ t.drop (i + old.length)
  | none => t

/-- A bound of a slice, counted from the end where it is negative. -/
def sliceBound (length : ℕ) (i : ℤ) : ℕ :=
  if 0 ≤ i then min i.toNat length else (length + i).toNat

/-- `xs[start:stop]`. -/
def slice {α : Type} (xs : List α) (start stop : ℤ) : List α :=
  (xs.take (sliceBound xs.length stop)).drop (sliceBound xs.length start)

/-- `xs[:stop]`. -/
def sliceTo {α : Type} (xs : List α) (stop : ℤ) : List α := xs.take (sliceBound xs.length stop)

example : replace "aaa".toList "aa".toList "b".toList = "ba".toList := by decide

end PyText
