import AgentLangraph.Lib.Kept
import AgentLangraph.Lib.PyVal

/-! The text of a streamed answer. Each chunk is told from thinking by its own first characters, so that the
    answer depends on where the provider cuts it:

        {"thinking": "…", "answer": 1}      one chunk     ──▶  no text
        { │ "thinking": "…", "answer": 1}   two chunks    ──▶  all of it -/

namespace AgentLangraph.Llm.StreamText
open PyText

/-- `str.lower`; of what it does to other characters nothing is used. -/
structure Lower where
  lower : Text → Text
  brace : lower ['{'] = ['{']

/-- A block of a message: a dictionary, or an object with its attributes. -/
inductive Block
  | dict (d : Fields)
  | object (attrs : Fields)

/-- The content of a chunk. -/
inductive Content
  | none
  | str (t : Text)
  | blocks (l : List Block)
  | other

def skipBlockTypes : List Text := ["thinking".toList, "redacted_thinking".toList, "thinking_delta".toList]

def textBlockTypes : List Text := ["text".toList]

/-- `str(block.get("thinking") or block.get("text") or "")`. -/
def thinkingOf (d : Fields) : Text := ((d.field "thinking").orElse ((d.field "text").orElse (.str []))).toText

/-- One round of the loop over the blocks: what has been found of thinking and of text. -/
def addBlock (found : List Text × List Text) : Block → List Text × List Text
  | .dict d =>
    let btype := ((d.field "type").orElse (.str [])).toText
    if btype ∈ skipBlockTypes then (found.1 ++ [thinkingOf d], found.2)
    else if btype ∈ textBlockTypes ∨ d.has "text" then
      (found.1, found.2 ++ [((d.field "text").orElse (.str [])).toText])
    else found
  | .object attrs =>
    if attrs.has "type" then
      if (attrs.field "type").toText ∈ skipBlockTypes then
        if thinkingOf attrs = [] then found else (found.1 ++ [thinkingOf attrs], found.2)
      else if attrs.has "text" then (found.1, found.2 ++ [(attrs.field "text").toText])
      else found
    else found

/-- A text that is taken for thinking: it begins with a brace and names thinking soon. -/
def takenForThinking (L : Lower) (t : Text) : Bool :=
  startswith (strip t) ['{'] && contains ((L.lower (strip t)).take 80) "\"thinking\"".toList

/-- `extract_chunk_stream_parts`: the thinking and the text of a chunk. -/
def extractChunkStreamParts (L : Lower) : Content → Text × Text
  | .none => ([], [])
  | .str t =>
    if t = [] then ([], [])
    else if strip t = [] then ([], t)
    else if takenForThinking L t then (t, [])
    else ([], t)
  | .blocks l =>
    let found := l.foldl addBlock ([], [])
    (found.1.flatten, found.2.flatten)
  | .other => ([], [])

/-- One round of the loop over the stream: a chunk without text is passed over. -/
def addChunk (L : Lower) (chunks : List Text) (content : Content) : List Text :=
  let textPart := (extractChunkStreamParts L content).2
  if textPart = [] then chunks else chunks ++ [textPart]

/-- The texts that a stream gives out, one after the other. -/
def textDeltas (L : Lower) (contents : List Content) : List Text := contents.foldl (addChunk L) []

/-- The text deltas of an answer in chunks of text, put together. -/
def streamedText (L : Lower) (pieces : List Text) : Text := (textDeltas L (pieces.map .str)).flatten

variable (L : Lower)

/-- A chunk of text is kept as it is, or dropped. -/
def keeps (t : Text) : Bool := !takenForThinking L t

theorem takenForThinking_of_blank {t : Text} (h : strip t = []) : takenForThinking L t = false := by
  rw [takenForThinking, h]
  rfl

theorem text_str (t : Text) : (extractChunkStreamParts L (.str t)).2 = if keeps L t then t else [] := by
  rw [extractChunkStreamParts, keeps]
  by_cases hnil : t = []
  · rw [if_pos hnil, hnil]
    exact (ite_self _).symm
  · rw [if_neg hnil]
    by_cases hblank : strip t = []
    · rw [if_pos hblank, takenForThinking_of_blank L hblank]
      rfl
    · rw [if_neg hblank]
      cases takenForThinking L t with
      | true => rfl
      | false => rfl

/-- The loop adds the texts of the chunks. -/
theorem flatten_foldl_addChunk (contents : List Content) : ∀ chunks : List Text,
    (contents.foldl (addChunk L) chunks).flatten =
      chunks.flatten ++ (contents.map fun c => (extractChunkStreamParts L c).2).flatten := by
  induction contents with
  | nil =>
    intro chunks
    simp
  | cons c contents ih =>
    intro chunks
    rw [List.foldl_cons, ih, List.map_cons, List.flatten_cons, addChunk, ← List.append_assoc]
    congr 1
    split_ifs with h
    · rw [h, List.append_nil]
    · simp

/-- The streamed text is what is kept of the pieces. -/
theorem streamedText_eq_kept (pieces : List Text) : streamedText L pieces = Cuts.kept (keeps L) pieces := by
  rw [streamedText, textDeltas, flatten_foldl_addChunk, List.flatten_nil, List.nil_append, List.map_map]
  induction pieces with
  | nil => rfl
  | cons t pieces ih =>
    rw [List.map_cons, List.flatten_cons, ih, Function.comp_apply, text_str, Cuts.kept, Cuts.kept]
    cases hkeep : keeps L t with
    | true =>
      rw [List.filter_cons_of_pos hkeep, List.flatten_cons]
      rfl
    | false =>
      rw [List.filter_cons_of_neg (by simp [hkeep])]
      rfl

/-- A single character is no thinking. -/
theorem keeps_single (c : Char) : keeps L [c] := by
  have hstrip : strip [c] = [] ∨ strip [c] = [c] := by
    by_cases hspace : isSpace c = true
    · left
      rw [strip_eq_nil_iff]
      simpa using hspace
    · right
      simp [strip, lstrip, rstrip, hspace]
  rw [keeps, takenForThinking]
  rcases hstrip with hnil | hone
  · rw [hnil]
    rfl
  · rw [hone]
    by_cases hc : c = '{'
    · rw [hc, L.brace]
      decide
    · have hstart : startswith [c] ['{'] = false := by
        simp [startswith, List.isPrefixOf, Ne.symm hc]
      rw [hstart]
      rfl

/-- CUTS: the text of a stream does not depend on where it is cut just where no part of it is taken for
    thinking. -/
theorem streamedText_same_iff (text : Text) :
    (∀ l m : List Text, l.flatten = text → m.flatten = text → streamedText L l = streamedText L m) ↔
      ∀ p, p <:+: text → takenForThinking L p = false := by
  simp only [streamedText_eq_kept]
  rw [Cuts.kept_same_iff (by rw [keeps, takenForThinking_of_blank L rfl]; rfl) (keeps_single L)]
  simp only [keeps, Bool.not_eq_true']

/-- Of ASCII characters. -/
def asciiLower : Lower where
  lower t := t.map Char.toLower
  brace := rfl

/-- An object with its thinking in it: gone in one chunk, there in two. -/
theorem object_lost_in_one_chunk : ¬ ∀ (L : Lower) (text : Text) (l m : List Text), l.flatten = text →
    m.flatten = text → streamedText L l = streamedText L m := by
  intro h
  have hsame := h asciiLower "\x7b\"thinking\": \"\", \"answer\": 1\x7d".toList
    ["\x7b\"thinking\": \"\", \"answer\": 1\x7d".toList]
    ["\x7b".toList, "\"thinking\": \"\", \"answer\": 1\x7d".toList]
    (by decide) (by decide)
  revert hsame
  decide +kernel

end AgentLangraph.Llm.StreamText
