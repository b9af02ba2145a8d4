import AgentLangraph.Lib.PyText

/-! Prose and code of an answer (`content_segments.py`). A fence runs from a triple backtick to the next
    one, and what no fence takes is searched for code in single backticks:

        text ──▶ fenced code │ the rest ──▶ `inline code` │ prose

    Where no closing backticks follow, the text is prose. -/

namespace AgentLangraph.Guard
open PyText

inductive SegmentKind
  | prose | fencedCode | inlineCode
  deriving DecidableEq

/-- `ContentSegment`, with the place in the whole text where `text` begins. -/
structure ContentSegment where
  kind : SegmentKind
  text : Text
  language : Text := []
  start : ℕ
  deriving DecidableEq

/-! ### Fences -/

def fence : Text := List.replicate 3 '\x60'

/-- The text before the first triple backtick, and what follows it. -/
def cutFence : Text → Option (Text × Text)
  | [] => none
  | c :: cs =>
    if (c :: cs).take 3 = fence then some ([], (c :: cs).drop 3)
    else (cutFence cs).map fun p => (c :: p.1, p.2)

/-- The first match of `_FENCE_RE`: the text before it, between its backticks and after it. The
    language and the blanks after it hold no backtick, so the lazy body ends at the next fence. -/
def findFence (t : Text) : Option (Text × Text × Text) := do
  let (before, opened) ← cutFence t
  let (inside, after) ← cutFence opened
  some (before, inside, after)

/-- `[a-zA-Z0-9_+-]`. -/
def isLanguageChar (c : Char) : Bool :=
  ('a' ≤ c && c ≤ 'z') || ('A' ≤ c && c ≤ 'Z') || ('0' ≤ c && c ≤ '9') || c == '_' || c == '+' ||
    c == '-'

def fenceBody (inside : Text) : Text := lstrip (inside.dropWhile isLanguageChar)

/-- The segment of a fence whose inside begins at `start`. -/
def fencedSegment (start : ℕ) (inside : Text) : ContentSegment where
  kind := .fencedCode
  text := fenceBody inside
  language := (strip (inside.takeWhile isLanguageChar)).map Char.toLower
  start := start + (inside.length - (fenceBody inside).length)

/-! ### Inline code -/

/-- `[^`\n]`. -/
def isInlineChar (c : Char) : Bool := c != '\x60' && c != '\n'

/-- The first match of `_INLINE_CODE_RE`: the text before it, between its backticks and after it. -/
def findInline : Text → Option (Text × Text × Text)
  | [] => none
  | c :: cs =>
    if c = '\x60' ∧ cs.takeWhile isInlineChar ≠ [] ∧ (cs.dropWhile isInlineChar).head? = some '\x60' then
      some ([], cs.takeWhile isInlineChar, (cs.dropWhile isInlineChar).tail)
    else (findInline cs).map fun p => (c :: p.1, p.2)

def proseSegment (start : ℕ) (t : Text) : List ContentSegment :=
  if strip t = [] then [] else [{ kind := .prose, text := t, start }]

/-- The loop over the matches; the fuel bounds their number. -/
def inlinePieces : ℕ → ℕ → Text → List ContentSegment
  | 0, _, _ => []
  | fuel + 1, start, rest =>
    match findInline rest with
    | some (before, inside, after) =>
      proseSegment start before ++
        ⟨.inlineCode, inside, [], start + before.length + 1⟩ ::
          inlinePieces fuel (start + before.length + inside.length + 2) after
    | none => proseSegment start rest

/-- `_split_prose_with_inline` of a chunk that begins at `start`. -/
def splitProseWithInline (start : ℕ) (chunk : Text) : List ContentSegment :=
  if strip chunk = [] then []
  else
    let out := inlinePieces chunk.length start chunk
    if out = [] then [{ kind := .prose, text := chunk, start }] else out

/-- The loop over the fences; the fuel bounds their number. -/
def fencePieces : ℕ → ℕ → Text → List ContentSegment
  | 0, _, _ => []
  | fuel + 1, start, rest =>
    match findFence rest with
    | some (before, inside, after) =>
      splitProseWithInline start before ++
        fencedSegment (start + before.length + 3) inside ::
          fencePieces fuel (start + before.length + inside.length + 6) after
    | none => splitProseWithInline start rest

/-- `split_content_segments`. -/
def splitContentSegments (t : Text) : List ContentSegment :=
  if strip t = [] then [] else fencePieces t.length 0 t

def proseSegments (segments : List ContentSegment) : List ContentSegment :=
  segments.filter fun s => s.kind = .prose

/-- `prose_text`. -/
def proseText (segments : List ContentSegment) : Text :=
  strip ((proseSegments segments).flatMap ContentSegment.text)

/-- A text that is not blank has segments. -/
theorem splitContentSegments_eq_nil_iff {t : Text} : splitContentSegments t = [] ↔ strip t = [] := by
  rw [splitContentSegments]
  split_ifs with h
  · exact iff_of_true rfl h
  · refine iff_of_false (fun hnil => ?_) h
    cases hlen : t.length with
    | zero =>
      rw [List.eq_nil_of_length_eq_zero hlen] at h
      exact h rfl
    | succ n =>
      rw [hlen, fencePieces] at hnil
      cases hfence : findFence t with
      | some p =>
        rw [hfence] at hnil
        exact absurd (List.append_eq_nil_iff.1 hnil).2 (List.cons_ne_nil _ _)
      | none =>
        rw [hfence] at hnil
        change splitProseWithInline 0 t = [] at hnil
        rw [splitProseWithInline, if_neg h] at hnil
        dsimp only at hnil
        split_ifs at hnil with hout
        · exact hout hnil

/-! ### Places -/

/-- The characters of a text that begins at `start`, with their places. -/
def placesFrom : ℕ → Text → List (ℕ × Char)
  | _, [] => []
  | start, c :: cs => (start, c) :: placesFrom (start + 1) cs

theorem map_snd_placesFrom (start : ℕ) (t : Text) : (placesFrom start t).map Prod.snd = t := by
  induction t generalizing start with
  | nil => rfl
  | cons c cs ih => rw [placesFrom, List.map_cons, ih]

/-- The prose of a text, with the place of each character. -/
def prosePlaces (segments : List ContentSegment) : List (ℕ × Char) :=
  (proseSegments segments).flatMap fun s => placesFrom s.start s.text

theorem map_snd_prosePlaces (segments : List ContentSegment) :
    (prosePlaces segments).map Prod.snd =
      (proseSegments segments).flatMap ContentSegment.text := by
  rw [prosePlaces, List.map_flatMap]
  exact List.flatMap_congr fun s _ => map_snd_placesFrom s.start s.text

end AgentLangraph.Guard
