import AgentLangraph.Knowledge.Chunker

/-! The chunks of a marked text. No step of the chunker looks at more than the characters, so the chunks of a text
    whose marks are changed are the chunks of the text, with the marks changed; taking the marks away gives the
    run on the characters.

        marked text ──chunks──▶ marked chunks
             │ f                     │ f
             ▼                       ▼
           text   ──chunks──▶     chunks -/

namespace AgentLangraph.Knowledge.Chunker
open PyText (Text)
open Symbols Regex

/-! ### Changing the marks -/

section Maps

variable {α β : Type*}

def Packing.map (f : α → β) (p : Packing α) : Packing β where
  parts := p.parts.map (List.map f)
  current := p.current.map (List.map f)
  currentLen := p.currentLen

/-- The marks of a title and a body. -/
def mapSection (f : α → β) (sec : List α × List α) : List β × List β := (sec.1.map f, sec.2.map f)

def Chunk.map (f : α → β) (c : Chunk α) : Chunk β where
  chunkIndex := c.chunkIndex
  sectionTitle := c.sectionTitle.map f
  body := c.body.map f
  embedText := c.embedText
  tokenCount := c.tokenCount

end Maps

variable {α β : Type*} [Symbol α] [Symbol β] {f : α → β} {maxChars overlapChars : ℕ}

/-! ### Paragraphs -/

theorem between_map {α β : Type*} (f : α → β) (t : List α) : ∀ (i : ℕ) (ms : List Match),
    between (t.map f) i ms = (between t i ms).map (List.map f)
  | i, [] => by rw [between, between, List.map_singleton, List.map_drop]
  | i, m :: ms => by rw [between, between, slice_map, between_map f t m.stop ms, List.map_cons]

/-- The parts that are left when the empty ones are. -/
theorem filter_strip_map (hf : Relabels f) (ps : List (List α)) :
    ((ps.map (List.map f)).map strip).filter (fun p => !p.isEmpty) =
      ((ps.map strip).filter fun p => !p.isEmpty).map (List.map f) := by
  induction ps with
  | nil => rfl
  | cons p ps ih =>
    rw [List.map_cons, List.map_cons, List.map_cons, List.filter_cons, List.filter_cons, hf.strip_map, List.isEmpty_map,
      ih]
    split_ifs
    · rw [List.map_cons]
    · rfl

theorem paragraphs_map (hf : Relabels f) (t : List α) : paragraphs (t.map f) = (paragraphs t).map (List.map f) := by
  rw [paragraphs, paragraphs, hf.chars_map, between_map, filter_strip_map hf]

theorem joinBlank_map (hf : Relabels f) : ∀ ps : List (List α),
    joinBlank (ps.map (List.map f)) = (joinBlank ps).map f
  | [] => rfl
  | [p] => by
    rw [List.map_singleton, joinBlank, joinBlank, List.intercalate_singleton, List.intercalate_singleton]
  | p :: q :: ps => by
    have ih := joinBlank_map hf (q :: ps)
    rw [joinBlank, joinBlank, List.map_cons] at ih
    rw [joinBlank, joinBlank, List.map_cons, List.map_cons, List.intercalate_cons_cons, ih,
      List.intercalate_cons_cons, List.map_append, List.map_append, List.map_cons, List.map_cons, List.map_nil,
      hf.newline_eq]

theorem Packing.isEmpty_map {α β : Type*} (f : α → β) (p : Packing α) : (p.map f).current.isEmpty = p.current.isEmpty :=
  List.isEmpty_map

theorem flush_map (hf : Relabels f) (p : Packing α) : flush overlapChars (p.map f) = (flush overlapChars p).map f := by
  have hlength : (p.map f).current.length = p.current.length := List.length_map _
  have hjoin : joinBlank (p.map f).current = (joinBlank p.current).map f := joinBlank_map hf p.current
  rw [flush, flush, p.isEmpty_map f, hlength, hjoin]
  dsimp only
  rw [List.length_map, ← List.map_drop, hf.lstrip_map, List.isEmpty_map, List.length_map]
  split_ifs
  · rfl
  · rw [Packing.map, Packing.map, List.map_append]
    rfl
  · rw [Packing.map, Packing.map, List.map_append]
    rfl
  · rw [Packing.map, Packing.map, List.map_append]
    rfl

theorem hardSplit_map {α β : Type*} (f : α → β) (maxChars overlapChars : ℕ) (para : List α) : ∀ fuel start : ℕ,
    hardSplit maxChars overlapChars (para.map f) fuel start =
      (hardSplit maxChars overlapChars para fuel start).map (List.map f)
  | 0, start => rfl
  | fuel + 1, start => by
    rw [hardSplit, hardSplit, List.length_map]
    dsimp only
    rw [slice_map, hardSplit_map f maxChars overlapChars para fuel]
    split_ifs
    · rfl
    · rfl
    · rfl

theorem packParagraph_map (hf : Relabels f) (p : Packing α) (para : List α) :
    packParagraph maxChars overlapChars (p.map f) (para.map f) =
      (packParagraph maxChars overlapChars p para).map f := by
  rw [packParagraph, packParagraph, p.isEmpty_map f, List.length_map, flush_map hf]
  dsimp only
  have hlen : (p.map f).currentLen = p.currentLen := rfl
  rw [hlen, ← apply_ite (Packing.map f)]
  generalize (if ¬ p.current.isEmpty = true ∧
    maxChars < p.currentLen + (para.length + if p.current.isEmpty = true then 0 else 2) then
      flush overlapChars p else p) = q
  rw [q.isEmpty_map f, flush_map hf, ← apply_ite (Packing.map f), hardSplit_map]
  by_cases hlong : maxChars < para.length
  · rw [if_pos hlong, if_pos hlong, Packing.map, Packing.map, List.map_append]
  · rw [if_neg hlong, if_neg hlong, Packing.map, Packing.map, List.map_append, List.map_singleton]

theorem splitParagraphs_map (hf : Relabels f) (t : List α) :
    splitParagraphsWithOverlap maxChars overlapChars (t.map f) =
      (splitParagraphsWithOverlap maxChars overlapChars t).map (List.map f) := by
  have hrun : ∀ (paras : List (List α)) (p : Packing α),
      (paras.map (List.map f)).foldl (packParagraph maxChars overlapChars) (p.map f) =
        (paras.foldl (packParagraph maxChars overlapChars) p).map f := by
    intro paras
    induction paras with
    | nil => exact fun _ => rfl
    | cons para paras ih =>
      intro p
      rw [List.map_cons, List.foldl_cons, List.foldl_cons, packParagraph_map hf, ih]
  rw [splitParagraphsWithOverlap, splitParagraphsWithOverlap, paragraphs_map hf]
  have hall := hrun (paragraphs t) {}
  rw [show Packing.map f ({} : Packing α) = {} from rfl] at hall
  rw [hall, flush_map hf]
  rfl

/-! ### Sections and blocks -/

theorem nextStart_map {α β : Type*} (f : α → β) (t : List α) (ms : List Match) :
    nextStart (t.map f) ms = nextStart t ms := by
  rw [nextStart, nextStart, List.length_map]

theorem headingTitle_map (hf : Relabels f) (t : List α) (m : Match) :
    headingTitle (t.map f) m = (headingTitle t m).map f := by
  rw [headingTitle, headingTitle, slice_map, hf.strip_map]

theorem headingSections_map (hf : Relabels f) (t : List α) : ∀ ms : List Match,
    headingSections (t.map f) ms = (headingSections t ms).map (mapSection f)
  | [] => rfl
  | m :: ms => by
    rw [headingSections, headingSections, nextStart_map, slice_map, hf.strip_map, headingTitle_map hf,
      List.isEmpty_map, headingSections_map hf t ms]
    split_ifs
    · rfl
    · rfl

theorem prefixSection_map (hf : Relabels f) (t : List α) (ms : List Match) :
    prefixSection (t.map f) ms = (prefixSection t ms).map (mapSection f) := by
  rw [prefixSection, prefixSection, nextStart_map, ← List.map_take, hf.strip_map, List.isEmpty_map]
  split_ifs
  · rfl
  · rfl

theorem splitByHeadings_map (hf : Relabels f) (t : List α) :
    splitByHeadings (t.map f) = (splitByHeadings t).map (mapSection f) := by
  rw [splitByHeadings, splitByHeadings, hf.strip_map, List.isEmpty_map, hf.chars_map]
  dsimp only
  rw [prefixSection_map hf, headingSections_map hf, ← List.map_append, List.isEmpty_map]
  split_ifs
  · rfl
  · rfl
  · rfl
  · rfl

theorem codeBlocks_map (hf : Relabels f) (t : List α) : ∀ ms : List Match,
    codeBlocks (t.map f) ms = (codeBlocks t ms).map (List.map f)
  | [] => rfl
  | m :: ms => by
    rw [codeBlocks, codeBlocks, nextStart_map, slice_map, hf.strip_map, List.isEmpty_map, codeBlocks_map hf t ms]
    split_ifs
    · rfl
    · rfl

/-- Blocks that are too long are split in the same way. -/
theorem normalized_map (hf : Relabels f) (blocks : List (List α)) :
    ((blocks.map (List.map f)).flatMap fun block =>
      if block.length ≤ maxChars then [block] else splitParagraphsWithOverlap maxChars overlapChars block) =
    (blocks.flatMap fun block =>
      if block.length ≤ maxChars then [block]
      else splitParagraphsWithOverlap maxChars overlapChars block).map (List.map f) := by
  rw [List.flatMap_map, List.map_flatMap]
  refine List.flatMap_congr fun block _ => ?_
  rw [List.length_map, splitParagraphs_map hf]
  split_ifs
  · rfl
  · rfl

theorem splitCodeBlocks_map (hf : Relabels f) (isWord : Char → Bool) (t : List α) :
    splitCodeBlocks isWord maxChars overlapChars (t.map f) =
      (splitCodeBlocks isWord maxChars overlapChars t).map (List.map f) := by
  rw [splitCodeBlocks, splitCodeBlocks, hf.strip_map]
  generalize strip t = u
  rw [List.isEmpty_map, hf.chars_map]
  generalize (codeBlockPattern isWord).finditer (chars u) = ms
  dsimp only
  rw [List.length_map, nextStart_map, ← List.map_take, hf.strip_map, List.isEmpty_map, codeBlocks_map hf,
    splitParagraphs_map hf]
  have hblocks : (if (strip (u.take (nextStart u ms))).isEmpty then []
        else [(strip (u.take (nextStart u ms))).map f]) ++ (codeBlocks u ms).map (List.map f) =
      ((if (strip (u.take (nextStart u ms))).isEmpty then [] else [strip (u.take (nextStart u ms))]) ++
        codeBlocks u ms).map (List.map f) := by
    rw [List.map_append, apply_ite (List.map (List.map f))]
    rfl
  rw [hblocks, normalized_map hf, List.isEmpty_map]
  simp only [apply_ite (List.map (List.map f)), List.map_singleton, List.map_nil]

/-! ### Chunks -/

theorem sectionPieces_map (hf : Relabels f) (cfg : ChunkSettings) (domain : Text) (t : List α) :
    sectionPieces cfg domain (t.map f) = (sectionPieces cfg domain t).map (List.map f) := by
  rw [sectionPieces, sectionPieces, List.length_map, splitCodeBlocks_map hf, splitParagraphs_map hf]
  split_ifs
  · rfl
  · rfl
  · rfl

theorem chunkOf_map (hf : Relabels f) (docTitle : Text) (index : ℕ) (title body : List α) :
    chunkOf docTitle index (title.map f) (body.map f) = (chunkOf docTitle index title body).map f := by
  rw [chunkOf, chunkOf, hf.chars_map, hf.chars_map]
  rfl

/-- The chunks so far with other marks. -/
def mapChunks (f : α → β) (s : List (Chunk α) × ℕ) : List (Chunk β) × ℕ := (s.1.map (Chunk.map f), s.2)

theorem addPiece_map (hf : Relabels f) (docTitle : Text) (title : List α) (s : List (Chunk α) × ℕ)
    (piece : List α) :
    addPiece docTitle (title.map f) (mapChunks f s) (piece.map f) =
      mapChunks f (addPiece docTitle title s piece) := by
  rw [addPiece, addPiece, hf.strip_map, List.isEmpty_map, chunkOf_map hf]
  split_ifs
  · rfl
  · rw [mapChunks, mapChunks, List.map_append]
    rfl

theorem sectionChunks_map (hf : Relabels f) (cfg : ChunkSettings) (docTitle domain : Text)
    (sections : List (List α × List α)) :
    sectionChunks cfg docTitle domain (sections.map (mapSection f)) =
      (sectionChunks cfg docTitle domain sections).map (Chunk.map f) := by
  have hpieces : ∀ (title : List α) (pieces : List (List α)) (s : List (Chunk α) × ℕ),
      (pieces.map (List.map f)).foldl (addPiece docTitle (title.map f)) (mapChunks f s) =
        mapChunks f (pieces.foldl (addPiece docTitle title) s) := by
    intro title pieces
    induction pieces with
    | nil => exact fun _ => rfl
    | cons piece pieces ih =>
      intro s
      rw [List.map_cons, List.foldl_cons, List.foldl_cons, addPiece_map hf, ih]
  have hrun : ∀ (secs : List (List α × List α)) (s : List (Chunk α) × ℕ),
      (secs.map (mapSection f)).foldl
          (fun s sec => (sectionPieces cfg domain sec.2).foldl (addPiece docTitle sec.1) s) (mapChunks f s) =
        mapChunks f
          (secs.foldl (fun s sec => (sectionPieces cfg domain sec.2).foldl (addPiece docTitle sec.1) s) s) := by
    intro secs
    induction secs with
    | nil => exact fun _ => rfl
    | cons sec secs ih =>
      intro s
      rw [List.map_cons, List.foldl_cons, List.foldl_cons, mapSection, sectionPieces_map hf, hpieces, ih]
  exact congrArg Prod.fst (hrun sections ([], 0))

/-- The chunks of a text with other marks are its chunks with the other marks. -/
theorem chunkDocument_map (hf : Relabels f) (cfg : ChunkSettings) (title : Text) (content : List α) (domain : Text) :
    chunkDocument cfg title (content.map f) domain = (chunkDocument cfg title content domain).map (Chunk.map f) := by
  rw [chunkDocument, chunkDocument, hf.strip_map, List.isEmpty_map]
  dsimp only
  generalize (if PyText.strip title = [] then "未命名文档".toList else PyText.strip title) = docTitle
  have hwhole := chunkOf_map hf docTitle 0 [] (strip content)
  rw [List.map_nil] at hwhole
  rw [splitByHeadings_map hf, sectionChunks_map hf, List.isEmpty_map, hwhole]
  split_ifs
  · rfl
  · rfl
  · rfl

/-- What the chunker does to a marked text is what it does to its characters. -/
theorem chunkDocument_mark (cfg : ChunkSettings) (title content domain : Text) :
    (chunkDocument cfg title (mark content) domain).map (Chunk.map Prod.fst) =
      chunkDocument cfg title content domain := by
  rw [← chunkDocument_map relabels_erase, map_mark]

end AgentLangraph.Knowledge.Chunker
