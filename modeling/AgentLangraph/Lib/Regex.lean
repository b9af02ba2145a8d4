import AgentLangraph.Lib.PyText

/-! Backtracking regular expressions over `PyText.Text`, enough for `re.sub` with patterns built
    from classes, greedy class repetitions, options, alternatives and word boundaries. A match is
    asked for at a cursor (the code point before it and the text after it) and yields the cursors
    it can end at, in the order a backtracking engine tries them. -/

namespace Regex

open PyText

/-- A position in a text: the code point just before it and what follows. -/
structure Cursor where
  prev : Option Char
  rest : Text
  deriving DecidableEq

inductive Re
  | cls (p : Char → Bool)
  | rep (p : Char → Bool) (lo : ℕ) (hi : Option ℕ)
  | opt (r : Re)
  | seq (r s : Re)
  | alt (r s : Re)
  | boundary (isWord : Char → Bool)

/-- The text `s`, each code point matched by `eq`. -/
def litWith (eq : Char → Char → Bool) : Text → Re → Re
  | [], k => k
  | c :: cs, k => .seq (.cls (eq c)) (litWith eq cs k)

/-- A nonempty choice of texts. -/
def oneOf (eq : Char → Char → Bool) (first : Text) (others : List Text) (k : Re) : Re :=
  others.foldl (fun r t => .alt r (litWith eq t k)) (litWith eq first k)

/-- The cursors after `0, 1, 2, …` code points of the class, longest first. -/
def runs (p : Char → Bool) : Option Char → Text → List Cursor
  | prev, [] => [⟨prev, []⟩]
  | prev, c :: cs => if p c then runs p (some c) cs ++ [⟨prev, c :: cs⟩] else [⟨prev, c :: cs⟩]

def isWordAt (isWord : Char → Bool) : Option Char → Bool
  | none => false
  | some c => isWord c

/-- Where a match of `r` at a cursor can end, in backtracking order. -/
def ends : Re → Cursor → List Cursor
  | .cls p, ⟨_, c :: cs⟩ => if p c then [⟨some c, cs⟩] else []
  | .cls _, ⟨_, []⟩ => []
  | .rep p lo hi, cur =>
    (runs p cur.prev cur.rest).filter fun e =>
      lo ≤ cur.rest.length - e.rest.length &&
        (hi.all fun h => cur.rest.length - e.rest.length ≤ h)
  | .opt r, cur => ends r cur ++ [cur]
  | .seq r s, cur => (ends r cur).flatMap (ends s)
  | .alt r s, cur => ends r cur ++ ends s cur
  | .boundary isWord, cur =>
    if isWordAt isWord cur.prev != isWordAt isWord cur.rest.head? then [cur] else []

/-- `re.sub(r, "", t)` for a pattern that never matches the empty text. The fuel bounds the number
    of positions visited, so the length of the text is enough. -/
def deleteFrom (r : Re) : ℕ → Cursor → Text
  | 0, cur => cur.rest
  | n + 1, cur =>
    match cur.rest with
    | [] => []
    | c :: cs =>
      match (ends r cur).head? with
      | some e => deleteFrom r n e
      | none => c :: deleteFrom r n ⟨some c, cs⟩

def delete (r : Re) (t : Text) : Text := deleteFrom r t.length ⟨none, t⟩

end Regex
