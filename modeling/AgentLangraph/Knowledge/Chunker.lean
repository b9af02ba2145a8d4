import AgentLangraph.Lib.Finditer
import AgentLangraph.Lib.Symbols

/-! Chunking a document (`knowledge_chunker.py`): sections at the headings, and a section that is too long in
    paragraphs, or in blocks of code, packed up to a limit with an overlap. The text is a list of symbols; on
    characters these are the functions of the source.

        content ──headings──▶ (title, body)* ──pack──▶ pieces ──▶ chunks 0, 1, 2, … -/

namespace AgentLangraph.Knowledge.Chunker
open PyText (Text isSpace split joinLines)
open Symbols Regex

/-! ### Settings -/

/-- The settings, and what the code takes from the Unicode tables and from the product of a number with 0.75
    and with 0.5. -/
structure ChunkSettings where
  maxChars : ℤ
  overlapChars : ℤ
  maxCharsWriting : ℤ
  overlapCharsWriting : ℤ
  maxCharsCode : ℤ
  overlapCharsCode : ℤ
  /-- `int(n * 0.75)`. -/
  threeQuarters : ℤ → ℤ
  /-- `int(n * 0.5)`. -/
  half : ℤ → ℤ
  lower : Text → Text
  /-- What `\w` matches. -/
  isWord : Char → Bool

/-- `a or b` of two integers. -/
def orInt (a b : ℤ) : ℤ := if a = 0 then b else a

/-- `_domain_chunk_limits`. -/
def domainChunkLimits (cfg : ChunkSettings) (domain : Text) : ℕ × ℕ :=
  let domain := cfg.lower (PyText.strip (if domain = [] then "common".toList else domain))
  let limits : ℤ × ℤ :=
    if domain = "writing".toList then
      (orInt cfg.maxCharsWriting cfg.maxChars, orInt cfg.overlapCharsWriting cfg.overlapChars)
    else if domain = "code".toList then
      (orInt cfg.maxCharsCode (max 400 (cfg.threeQuarters cfg.maxChars)),
        orInt cfg.overlapCharsCode (cfg.half cfg.overlapChars))
    else (cfg.maxChars, cfg.overlapChars)
  ((max 200 limits.1).toNat, (max 0 limits.2).toNat)

/-! ### Patterns -/

/-- `^` and `$` on several lines. -/
def atLineBorder (c : Option Char) : Bool := c.all (· == '\n')

/-- `_HEADING_RE`: the marks, the whitespace, and the title. -/
def headingPattern : Parts where
  opens := atLineBorder
  parts := [.rep (· == '#') 1 (some 6), .rep isSpace 1 none, .rep (· != '\n') 1 none]
  closes := atLineBorder
  plain := by decide

/-- `\n\s*\n`. -/
def blankLinePattern : Parts where
  opens := fun _ => true
  parts := [.cls (· == '\n'), .rep isSpace 0 none, .cls (· == '\n')]
  closes := fun _ => true
  plain := by decide

def isUpper (c : Char) : Bool := 'A' ≤ c && c ≤ 'Z'

/-- `\s*(?:def|class)\s+\w+|\s*function\s+\w+|\s*[A-Z][A-Z0-9_]{2,}\s*[:=]`. -/
def codeBlockBoundary (isWord : Char → Bool) : Re :=
  let name : Re := .seq (.rep isSpace 1 none) (.rep isWord 1 none)
  let keyword : Re :=
    .seq (.rep isSpace 0 none) (oneOf (· == ·) "def".toList ["class".toList] name)
  let function : Re := .seq (.rep isSpace 0 none) (litWith (· == ·) "function".toList name)
  let constant : Re :=
    .seq (.rep isSpace 0 none) (.seq (.cls isUpper)
      (.seq (.rep (fun c => isUpper c || c.isDigit || c == '_') 2 none)
        (.seq (.rep isSpace 0 none) (.cls fun c => c == ':' || c == '='))))
  .alt (.alt keyword function) constant

/-- `_CODE_BLOCK_BOUNDARY_RE`. -/
def codeBlockPattern (isWord : Char → Bool) : Parts where
  opens := atLineBorder
  parts := [codeBlockBoundary isWord]
  closes := fun _ => true
  plain := by simp [codeBlockBoundary, oneOf, litWith, Re.Plain]

/-! ### Paragraphs -/

variable {α : Type*} [Symbol α]

/-- The parts of `re.split`: what stands between the matches. -/
def between (t : List α) : ℕ → List Match → List (List α)
  | i, [] => [t.drop i]
  | i, m :: ms => slice t i m.start :: between t m.stop ms

/-- `[p.strip() for p in re.split(r"\n\s*\n", text) if p.strip()]`. -/
def paragraphs (text : List α) : List (List α) :=
  ((between text 0 (blankLinePattern.finditer (chars text))).map strip).filter fun p => !p.isEmpty

/-- The parts so far, and the paragraphs that are packed together. -/
structure Packing (α : Type*) where
  parts : List (List α) := []
  current : List (List α) := []
  currentLen : ℕ := 0

/-- `"\n\n".join(current)`. -/
def joinBlank (current : List (List α)) : List α := [newline, newline].intercalate current

/-- `flush`. -/
def flush (overlapChars : ℕ) (p : Packing α) : Packing α :=
  if p.current.isEmpty then p
  else
    let tail := joinBlank p.current
    let overlap := lstrip (tail.drop (tail.length - overlapChars))
    if 0 < overlapChars ∧ 1 < p.current.length then
      { parts := p.parts ++ [tail]
        current := if overlap.isEmpty then [] else [overlap]
        currentLen := overlap.length }
    else { parts := p.parts ++ [tail], current := [], currentLen := 0 }

/-- The pieces of a paragraph that is too long. The fuel bounds the number of pieces. -/
def hardSplit (maxChars overlapChars : ℕ) (para : List α) : ℕ → ℕ → List (List α)
  | 0, _ => []
  | fuel + 1, start =>
    if para.length ≤ start then []
    else
      let stop := min para.length (start + maxChars)
      slice para start stop ::
        if para.length ≤ stop then []
        else hardSplit maxChars overlapChars para fuel (max (stop - overlapChars) (start + 1))

/-- One paragraph of `_split_paragraphs_with_overlap`. -/
def packParagraph (maxChars overlapChars : ℕ) (p : Packing α) (para : List α) : Packing α :=
  let paraLen := para.length + if p.current.isEmpty then 0 else 2
  let p := if ¬ p.current.isEmpty ∧ maxChars < p.currentLen + paraLen then flush overlapChars p else p
  if maxChars < para.length then
    let p := if p.current.isEmpty then p else flush overlapChars p
    { p with parts := p.parts ++ hardSplit maxChars overlapChars para para.length 0 }
  else { p with current := p.current ++ [para], currentLen := p.currentLen + paraLen }

/-- `_split_paragraphs_with_overlap`. -/
def splitParagraphsWithOverlap (maxChars overlapChars : ℕ) (text : List α) : List (List α) :=
  (flush overlapChars ((paragraphs text).foldl (packParagraph maxChars overlapChars) {})).parts

/-! ### Sections and blocks -/

/-- Where a heading's text ends: at the next heading, or with the text. -/
def nextStart (text : List α) (ms : List Match) : ℕ := ms.head?.elim text.length Match.start

/-- `match.group(2).strip()`. -/
def headingTitle (text : List α) (m : Match) : List α := strip (slice text (m.partStart 2) m.stop)

/-- The sections of the headings, as far as they have a body. -/
def headingSections (text : List α) : List Match → List (List α × List α)
  | [] => []
  | m :: ms =>
    let body := strip (slice text m.stop (nextStart text ms))
    if body.isEmpty then headingSections text ms else (headingTitle text m, body) :: headingSections text ms

/-- The section before the first heading, if there is one. -/
def prefixSection (text : List α) (ms : List Match) : List (List α × List α) :=
  let before := strip (text.take (nextStart text ms))
  if before.isEmpty then [] else [([], before)]

/-- `_split_by_headings`. -/
def splitByHeadings (content : List α) : List (List α × List α) :=
  let text := strip content
  if text.isEmpty then []
  else
    let ms := headingPattern.finditer (chars text)
    if ms.isEmpty then [([], text)]
    else
      let sections := prefixSection text ms ++ headingSections text ms
      if sections.isEmpty then [([], text)] else sections

/-- The blocks of code between the boundaries. -/
def codeBlocks (text : List α) : List Match → List (List α)
  | [] => []
  | m :: ms =>
    let block := strip (slice text m.start (nextStart text ms))
    if block.isEmpty then codeBlocks text ms else block :: codeBlocks text ms

/-- `_split_code_blocks`. -/
def splitCodeBlocks (isWord : Char → Bool) (maxChars overlapChars : ℕ) (sectionBody : List α) : List (List α) :=
  let text := strip sectionBody
  if text.isEmpty then []
  else
    let ms := (codeBlockPattern isWord).finditer (chars text)
    if ms.length < 2 ∧ text.length ≤ maxChars then [text]
    else if ms.isEmpty then splitParagraphsWithOverlap maxChars overlapChars text
    else
      let before := strip (text.take (nextStart text ms))
      let blocks := (if before.isEmpty then [] else [before]) ++ codeBlocks text ms
      let normalized := blocks.flatMap fun block =>
        if block.length ≤ maxChars then [block] else splitParagraphsWithOverlap maxChars overlapChars block
      if normalized.isEmpty then [text] else normalized

/-! ### Chunks -/

/-- `KnowledgeChunkSpec`. -/
structure Chunk (α : Type*) where
  chunkIndex : ℕ
  sectionTitle : List α
  body : List α
  embedText : Text
  tokenCount : ℕ

/-- `_estimate_tokens`. -/
def estimateTokens (text : Text) : ℕ := max 1 (split text).length

/-- `_build_embed_text`. -/
def buildEmbedText (docTitle sectionTitle body : Text) : Text :=
  let title := "文档标题：".toList ++ PyText.strip docTitle
  let section_ :=
    if PyText.strip sectionTitle = [] then [] else ["章节：".toList ++ PyText.strip sectionTitle]
  joinLines (title :: section_ ++ ["内容：".toList ++ PyText.strip body])

/-- A chunk of a section. -/
def chunkOf (docTitle : Text) (index : ℕ) (sectionTitle body : List α) : Chunk α where
  chunkIndex := index
  sectionTitle := sectionTitle
  body := body
  embedText := buildEmbedText docTitle (chars sectionTitle) (chars body)
  tokenCount := estimateTokens (chars body)

/-- The pieces of a section. -/
def sectionPieces (cfg : ChunkSettings) (domain : Text) (sectionBody : List α) : List (List α) :=
  let limits := domainChunkLimits cfg domain
  if cfg.lower (PyText.strip domain) = "code".toList then
    splitCodeBlocks cfg.isWord limits.1 limits.2 sectionBody
  else if sectionBody.length ≤ limits.1 then [sectionBody]
  else splitParagraphsWithOverlap limits.1 limits.2 sectionBody

/-- One piece of `chunk_document`: the chunks so far, and the index of the next one. -/
def addPiece (docTitle : Text) (sectionTitle : List α) (s : List (Chunk α) × ℕ) (piece : List α) :
    List (Chunk α) × ℕ :=
  if (strip piece).isEmpty then s
  else (s.1 ++ [chunkOf docTitle s.2 sectionTitle (strip piece)], s.2 + 1)

/-- The chunks of the sections. -/
def sectionChunks (cfg : ChunkSettings) (docTitle domain : Text) (sections : List (List α × List α)) :
    List (Chunk α) :=
  (sections.foldl (fun s sec => (sectionPieces cfg domain sec.2).foldl (addPiece docTitle sec.1) s) ([], 0)).1

/-- `chunk_document`. -/
def chunkDocument (cfg : ChunkSettings) (title : Text) (content : List α) (domain : Text) : List (Chunk α) :=
  let body := strip content
  if body.isEmpty then []
  else
    let docTitle := if PyText.strip title = [] then "未命名文档".toList else PyText.strip title
    let specs := sectionChunks cfg docTitle domain (splitByHeadings body)
    if specs.isEmpty then [chunkOf docTitle 0 [] body] else specs

end AgentLangraph.Knowledge.Chunker
