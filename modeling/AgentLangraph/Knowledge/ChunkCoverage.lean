import AgentLangraph.Knowledge.Chunker

/-! What becomes of the text of a document in its chunks. Each symbol carries its place, so a symbol that is
    lost cannot be made up for by an equal one of an overlap. Nothing is lost at a cut: every split drops
    whitespace only. What is lost is the title of a heading that has no text of its own:

        # Lost ¶ # Kept ¶ text  ──▶  (Kept, text) -/

namespace AgentLangraph.Knowledge.Chunker
open PyText (Text isSpace)
open Symbols Regex

/-! ### The terms of the result -/

section Terms

variable {α : Type*} [Symbol α]

/-- The text of the headings and their sections, without the marks. -/
def headingText (text : List α) : List Match → List α
  | [] => []
  | m :: ms => slice text (m.partStart 1) (nextStart text ms) ++ headingText text ms

/-- A text without the marks of its headings. -/
def withoutMarks (text : List α) : List α :=
  let ms := headingPattern.finditer (chars text)
  text.take (nextStart text ms) ++ headingText text ms

/-- Every symbol that is not whitespace, other than the marks of a heading, is in some chunk, in order, and the
    chunks are numbered without gaps. -/
structure NoTextLost (content : List α) (chunks : List (Chunk α)) : Prop where
  covered : (solid (withoutMarks (strip content))).Sublist (chunks.flatMap fun c => c.sectionTitle ++ c.body)
  indices : chunks.map Chunk.chunkIndex = List.range chunks.length

/-- What holds of every heading and those behind it. -/
def EveryHeading (P : Match → List Match → Prop) : List Match → Prop
  | [] => True
  | m :: ms => P m ms ∧ EveryHeading P ms

/-- The text of a heading up to the next one. -/
def headingBody (text : List α) (m : Match) (ms : List Match) : List α :=
  strip (slice text m.stop (nextStart text ms))

/-- Every heading with a title has text under it. -/
def HeadingsHaveText (text : List α) : Prop :=
  EveryHeading (fun m ms => headingTitle text m = [] ∨ headingBody text m ms ≠ [])
    (headingPattern.finditer (chars text))

/-- There is no text but the headings. -/
def OnlyHeadings (text : List α) : Prop :=
  strip (text.take (nextStart text (headingPattern.finditer (chars text)))) = [] ∧
    EveryHeading (fun m ms => headingBody text m ms = []) (headingPattern.finditer (chars text))

end Terms

variable {α : Type*} [Symbol α] {text t : List α}

/-! ### Where the matches stand -/

theorem chars_slice (t : List α) (i j : ℕ) : chars (slice t i j) = slice (chars t) i j := (slice_map char t i j).symm

theorem length_chars (t : List α) : (chars t).length = t.length := List.length_map char

theorem sum_parts {m : Match} {texts : List Text} (h : m.parts = texts.map List.length) :
    m.stop = m.start + texts.flatten.length := by
  rw [Match.stop, h, sum_map_length]

section Stand

variable {pat : Parts} {i : ℕ} {m : Match} {ms : List Match}

theorem le_nextStart (h : Stand pat (chars t) i ms) : i ≤ nextStart t ms ∧ nextStart t ms ≤ t.length := by
  cases h with
  | nil hi =>
    rw [length_chars] at hi
    exact ⟨hi, le_rfl⟩
  | cons texts hi hlang hparts hpre hrest =>
    have hstop := hrest.le_length
    rw [length_chars] at hstop
    exact ⟨hi, (Match.start_le_stop _).trans hstop⟩

/-- The characters of a match. -/
theorem chars_match {texts : List Text} (hparts : m.parts = texts.map List.length)
    (hpre : texts.flatten <+: (chars t).drop m.start) : chars (slice t m.start m.stop) = texts.flatten := by
  obtain ⟨rest, hrest⟩ := hpre
  rw [chars_slice, slice, List.drop_take, sum_parts hparts, Nat.add_sub_cancel_left, ← hrest]
  exact List.take_left' rfl

theorem solid_of_space {u : List α} (h : ∀ c ∈ chars u, isSpace c = true) : solid u = [] :=
  solid_eq_nil_iff.2 fun _ ha => h _ (List.mem_map_of_mem ha)

end Stand

/-! ### Paragraphs -/

/-- Parts that match whitespace only. -/
def Blank (r : Re) : Prop := ∀ m, Lang r m → ∀ c ∈ m, isSpace c = true

theorem blank_rep {lo : ℕ} {hi : Option ℕ} : Blank (.rep isSpace lo hi) := fun _ h => h.1

theorem blank_newline : Blank (.cls (· == '\n')) := by
  rintro m ⟨c, rfl, hc⟩ d hd
  rw [List.mem_singleton.1 hd, beq_iff_eq.1 hc]
  decide

theorem blank_flatten {rs : List Re} {texts : List Text} (h : List.Forall₂ Lang rs texts) (hblank : ∀ r ∈ rs, Blank r) :
    ∀ c ∈ texts.flatten, isSpace c = true := by
  induction h with
  | nil => intro c hc; cases hc
  | cons hlang _ ih =>
    rw [List.forall_mem_cons] at hblank
    intro c hc
    rw [List.flatten_cons, List.mem_append] at hc
    rcases hc with hc | hc
    · exact hblank.1 _ hlang c hc
    · exact ih hblank.2 c hc

theorem blank_lines : ∀ r ∈ blankLinePattern.parts, Blank r := by
  intro r hr
  rw [blankLinePattern] at hr
  simp only [List.mem_cons, List.not_mem_nil, or_false] at hr
  rcases hr with rfl | rfl | rfl
  · exact blank_newline
  · exact blank_rep
  · exact blank_newline

/-- The separators of the paragraphs are whitespace. -/
theorem solid_between {ms : List Match} : ∀ {i : ℕ}, Stand blankLinePattern (chars t) i ms →
    solid (between t i ms).flatten = solid (t.drop i) := by
  induction ms with
  | nil =>
    intro i _
    rw [between, List.flatten_singleton]
  | cons m ms ih =>
    intro i h
    cases h with
    | cons texts hi hlang hparts hpre hrest =>
      have hgap : solid (slice t m.start m.stop) = [] :=
        solid_of_space (by rw [chars_match hparts hpre]; exact blank_flatten hlang blank_lines)
      rw [between, List.flatten_cons, solid_append, ih hrest, drop_eq_slice_append hi, solid_append,
        drop_eq_slice_append m.start_le_stop, solid_append, hgap, List.nil_append]

theorem solid_filter_strip (l : List (List α)) :
    solid ((l.map strip).filter fun p => !p.isEmpty).flatten = solid l.flatten := by
  induction l with
  | nil => rfl
  | cons p l ih =>
    rw [List.map_cons, List.filter_cons]
    split_ifs with h
    · rw [List.flatten_cons, List.flatten_cons, solid_append, solid_append, ih, solid_strip]
    · have hnil : solid p = [] := strip_eq_nil_iff_solid.1 (by simpa using h)
      rw [ih, List.flatten_cons, solid_append, hnil, List.nil_append]

theorem solid_paragraphs (t : List α) : solid (paragraphs t).flatten = solid t := by
  rw [paragraphs, solid_filter_strip, solid_between (blankLinePattern.stand_finditer (chars t)), List.drop_zero]

/-! ### Packing -/

theorem solid_joinBlank : ∀ ps : List (List α), solid (joinBlank ps) = solid ps.flatten
  | [] => rfl
  | [p] => by rw [joinBlank, List.intercalate_singleton, List.flatten_singleton]
  | p :: q :: ps => by
    have hblank : solid [newline, (newline : α)] = [] := by
      rw [show [newline, (newline : α)] = [newline] ++ [newline] from rfl, solid_append, solid_newline]
      rfl
    have ih := solid_joinBlank (q :: ps)
    rw [joinBlank] at ih
    rw [joinBlank, List.intercalate_cons_cons, solid_append, solid_append, hblank, ih, List.append_nil,
      ← solid_append, ← List.flatten_cons]

variable {maxChars overlapChars : ℕ} {p : Packing α} {done : List α}

/-- What has been gone through is in the parts and the paragraphs that are packed. -/
def Packed (done : List α) (p : Packing α) : Prop := done.Sublist (solid (p.parts ++ p.current).flatten)

/-- A flush puts everything in the parts. -/
theorem Packed.flush (h : Packed done p) (overlapChars : ℕ) :
    done.Sublist (solid (flush overlapChars p).parts.flatten) := by
  have hjoin : solid (p.parts ++ [joinBlank p.current]).flatten = solid (p.parts ++ p.current).flatten := by
    rw [List.flatten_append, List.flatten_append, List.flatten_singleton, solid_append, solid_append, solid_joinBlank]
  rw [Packed] at h
  rw [Chunker.flush]
  split_ifs with hempty hoverlap
  · rwa [List.isEmpty_iff.1 hempty, List.append_nil] at h
  · exact hjoin ▸ h
  · exact hjoin ▸ h

theorem packed_of_parts (h : done.Sublist (solid p.parts.flatten)) : Packed done p := by
  rw [Packed, List.flatten_append, solid_append]
  exact h.trans (List.sublist_append_left _ _)

/-- The pieces of a paragraph cover it from a place on. -/
theorem sublist_hardSplit {α : Type*} {maxChars overlapChars : ℕ} (hmax : 0 < maxChars) (para : List α) :
    ∀ {fuel start : ℕ}, para.length ≤ fuel + start →
      (para.drop start).Sublist (hardSplit maxChars overlapChars para fuel start).flatten
  | 0, start, hfuel => by
    rw [List.drop_eq_nil_of_le (by omega)]
    exact List.nil_sublist _
  | fuel + 1, start, hfuel => by
    rw [hardSplit]
    by_cases hend : para.length ≤ start
    · rw [List.drop_eq_nil_of_le hend]
      exact List.nil_sublist _
    · rw [if_neg hend]
      dsimp only
      have hstop : start ≤ min para.length (start + maxChars) := by omega
      rw [List.flatten_cons, drop_eq_slice_append hstop]
      refine List.Sublist.append (List.Sublist.refl _) ?_
      split_ifs with hlast
      · rw [List.drop_eq_nil_of_le hlast]
        exact List.nil_sublist _
      · -- the next piece starts no later than this one stops
        have hnext : max (min para.length (start + maxChars) - overlapChars) (start + 1) ≤
            min para.length (start + maxChars) := by omega
        have hrest := @sublist_hardSplit _ maxChars overlapChars hmax para fuel
          (max (min para.length (start + maxChars) - overlapChars) (start + 1)) (by omega)
        rw [drop_eq_slice_append hnext] at hrest
        exact (List.sublist_append_right _ _).trans hrest

/-- What one more paragraph does: it is packed with the others, or cut in pieces when nothing is packed or what
    is packed has been flushed. -/
theorem packParagraph_cases (maxChars overlapChars : ℕ) (p : Packing α) (para : List α) :
    (∃ q n, (q = p ∨ q = flush overlapChars p) ∧
      packParagraph maxChars overlapChars p para = ⟨q.parts, q.current ++ [para], n⟩) ∨
    ∃ q, (q = p ∧ p.current = [] ∨ q = flush overlapChars p ∨ q = flush overlapChars (flush overlapChars p)) ∧
      packParagraph maxChars overlapChars p para =
        ⟨q.parts ++ hardSplit maxChars overlapChars para para.length 0, q.current, q.currentLen⟩ := by
  obtain ⟨q, hq, hpack⟩ : ∃ q, (q = p ∨ q = flush overlapChars p) ∧
      packParagraph maxChars overlapChars p para =
        if maxChars < para.length then
          let r := if q.current.isEmpty then q else flush overlapChars q
          ⟨r.parts ++ hardSplit maxChars overlapChars para para.length 0, r.current, r.currentLen⟩
        else ⟨q.parts, q.current ++ [para], q.currentLen + (para.length + if p.current.isEmpty then 0 else 2)⟩ := by
    refine ⟨_, ?_, rfl⟩
    exact (ite_eq_or_eq ..).symm
  rw [hpack]
  by_cases hlong : maxChars < para.length
  · rw [if_pos hlong]
    refine .inr ⟨_, ?_, rfl⟩
    by_cases hempty : q.current.isEmpty
    · rw [if_pos hempty]
      rcases hq with rfl | rfl
      · exact .inl ⟨rfl, List.isEmpty_iff.1 hempty⟩
      · exact .inr (.inl rfl)
    · rw [if_neg hempty]
      rcases hq with rfl | rfl
      · exact .inr (.inl rfl)
      · exact .inr (.inr rfl)
  · rw [if_neg hlong]
    exact .inl ⟨q, _, hq, rfl⟩

/-- One more paragraph. -/
theorem Packed.paragraph (hmax : 0 < maxChars) (h : Packed done p) (para : List α) :
    Packed (done ++ solid para) (packParagraph maxChars overlapChars p para) := by
  have hflushed : Packed done (Chunker.flush overlapChars p) := packed_of_parts (h.flush overlapChars)
  rcases packParagraph_cases maxChars overlapChars p para with ⟨q, n, hq, heq⟩ | ⟨q, hq, heq⟩
  · have hpacked : Packed done q := by
      rcases hq with rfl | rfl
      · exact h
      · exact hflushed
    rw [heq, Packed, ← List.append_assoc, List.flatten_append, List.flatten_singleton, solid_append]
    exact hpacked.append (List.Sublist.refl _)
  · have hparts : done.Sublist (solid q.parts.flatten) := by
      rcases hq with ⟨rfl, hnone⟩ | rfl | rfl
      · rwa [Packed, hnone, List.append_nil] at h
      · exact h.flush overlapChars
      · exact hflushed.flush overlapChars
    have hpieces := @sublist_hardSplit _ maxChars overlapChars hmax para para.length 0 le_rfl
    rw [List.drop_zero] at hpieces
    rw [heq]
    refine packed_of_parts ?_
    rw [List.flatten_append, solid_append]
    exact hparts.append (solid_mono hpieces)

/-- Splitting a text in paragraphs with overlap loses nothing. -/
theorem splitParagraphs_covers (hmax : 0 < maxChars) (overlapChars : ℕ) (text : List α) :
    (solid text).Sublist (solid (splitParagraphsWithOverlap maxChars overlapChars text).flatten) := by
  have hrun : ∀ (paras : List (List α)) {done : List α} {p : Packing α}, Packed done p →
      Packed (done ++ solid paras.flatten) (paras.foldl (packParagraph maxChars overlapChars) p) := by
    intro paras
    induction paras with
    | nil =>
      intro done p hp
      rwa [List.flatten_nil, solid_nil, List.append_nil]
    | cons para paras ih =>
      intro done p hp
      rw [List.flatten_cons, solid_append, ← List.append_assoc]
      exact ih (hp.paragraph hmax para)
  have hall := (@hrun (paragraphs text) [] {} (List.nil_sublist _)).flush overlapChars
  rwa [List.nil_append, solid_paragraphs] at hall

/-! ### Blocks of code -/

/-- The text from the first boundary on is in the blocks. -/
theorem solid_codeBlocks {pat : Parts} {ms : List Match} : ∀ {i : ℕ}, Stand pat (chars t) i ms →
    solid (codeBlocks t ms).flatten = solid (t.drop (nextStart t ms)) := by
  induction ms with
  | nil =>
    intro i _
    rw [codeBlocks, nextStart, List.head?_nil, Option.elim_none, List.drop_length]
    rfl
  | cons m ms ih =>
    intro i h
    cases h with
    | cons texts hi hlang hparts hpre hrest =>
      have hnext : m.start ≤ nextStart t ms := m.start_le_stop.trans (le_nextStart hrest).1
      have hstart : nextStart t (m :: ms) = m.start := rfl
      rw [codeBlocks, hstart, drop_eq_slice_append hnext, solid_append]
      split_ifs with hempty
      · rw [ih hrest, strip_eq_nil_iff_solid.1 (List.isEmpty_iff.1 hempty), List.nil_append]
      · rw [List.flatten_cons, solid_append, solid_strip, ih hrest]

theorem codeBlocks_subset {ms : List Match} : ∀ b ∈ codeBlocks t ms, b ⊆ t := by
  induction ms with
  | nil => intro b hb; cases hb
  | cons m ms ih =>
    intro b hb
    rw [codeBlocks] at hb
    split_ifs at hb
    · exact ih b hb
    · rcases List.mem_cons.1 hb with rfl | hb
      · exact List.Subset.trans (strip_subset _) (slice_subset t _ _)
      · exact ih b hb

/-- Blocks that have the whole text, and nothing else. -/
structure BlocksOf (t : List α) (blocks : List (List α)) : Prop where
  solid_eq : solid blocks.flatten = solid t
  subset : ∀ b ∈ blocks, b ⊆ t

theorem blocksOf {pat : Parts} {ms : List Match} (h : Stand pat (chars t) 0 ms) :
    BlocksOf t ((if (strip (t.take (nextStart t ms))).isEmpty then [] else [strip (t.take (nextStart t ms))]) ++
      codeBlocks t ms) := by
  have hbefore : BlocksOf (t.take (nextStart t ms)) (if (strip (t.take (nextStart t ms))).isEmpty then []
      else [strip (t.take (nextStart t ms))]) := by
    split_ifs with hempty
    · refine ⟨(strip_eq_nil_iff_solid.1 (List.isEmpty_iff.1 hempty)).symm, ?_⟩
      intro b hb
      cases hb
    · refine ⟨by rw [List.flatten_singleton, solid_strip], ?_⟩
      rw [List.forall_mem_singleton]
      exact strip_subset _
  constructor
  · rw [List.flatten_append, solid_append, hbefore.solid_eq, solid_codeBlocks h, ← solid_append,
      List.take_append_drop]
  · rw [List.forall_mem_append]
    exact ⟨fun b hb => List.Subset.trans (hbefore.subset b hb) (List.take_subset _ _), codeBlocks_subset⟩

/-- What splitting code comes to: nothing, the text in one piece, its paragraphs, or its blocks with those that
    are too long split in paragraphs. -/
theorem splitCodeBlocks_cases (isWord : Char → Bool) (maxChars overlapChars : ℕ) (text : List α) :
    (strip text = [] ∧ splitCodeBlocks isWord maxChars overlapChars text = []) ∨
    splitCodeBlocks isWord maxChars overlapChars text = [strip text] ∨
    splitCodeBlocks isWord maxChars overlapChars text =
      splitParagraphsWithOverlap maxChars overlapChars (strip text) ∨
    ∃ blocks, BlocksOf (strip text) blocks ∧ splitCodeBlocks isWord maxChars overlapChars text =
      blocks.flatMap fun block =>
        if block.length ≤ maxChars then [block] else splitParagraphsWithOverlap maxChars overlapChars block := by
  rw [splitCodeBlocks]
  generalize strip text = t
  have hblocks := blocksOf ((codeBlockPattern isWord).stand_finditer (chars t))
  revert hblocks
  generalize (codeBlockPattern isWord).finditer (chars t) = ms
  dsimp only
  generalize (if (strip (t.take (nextStart t ms))).isEmpty then [] else [strip (t.take (nextStart t ms))]) ++
    codeBlocks t ms = blocks
  intro hblocks
  split_ifs with hnil
  · exact .inl ⟨List.isEmpty_iff.1 hnil, rfl⟩
  · exact .inr (.inl rfl)
  · exact .inr (.inr (.inl rfl))
  · exact .inr (.inl rfl)
  · exact .inr (.inr (.inr ⟨_, hblocks, rfl⟩))

/-- Blocks that are too long are split without a loss. -/
theorem normalized_covers (hmax : 0 < maxChars) (overlapChars : ℕ) (blocks : List (List α)) :
    (solid blocks.flatten).Sublist (solid (blocks.flatMap fun block =>
      if block.length ≤ maxChars then [block]
      else splitParagraphsWithOverlap maxChars overlapChars block).flatten) := by
  induction blocks with
  | nil => exact List.nil_sublist _
  | cons block blocks ih =>
    rw [List.flatten_cons, solid_append, List.flatMap_cons, List.flatten_append, solid_append]
    refine List.Sublist.append ?_ ih
    split_ifs
    · rw [List.flatten_singleton]
    · exact splitParagraphs_covers hmax overlapChars block

/-- Splitting code loses nothing. -/
theorem splitCodeBlocks_covers (isWord : Char → Bool) (hmax : 0 < maxChars) (overlapChars : ℕ) (text : List α) :
    (solid text).Sublist (solid (splitCodeBlocks isWord maxChars overlapChars text).flatten) := by
  rw [← solid_strip text]
  rcases splitCodeBlocks_cases isWord maxChars overlapChars text with
    ⟨hnil, heq⟩ | heq | heq | ⟨blocks, hblocks, heq⟩
  · rw [hnil]
    exact List.nil_sublist _
  · rw [heq, List.flatten_singleton]
  · rw [heq]
    exact splitParagraphs_covers hmax overlapChars (strip text)
  · rw [heq, ← hblocks.solid_eq]
    exact normalized_covers hmax overlapChars blocks

/-! ### Sections -/

theorem limit_pos (cfg : ChunkSettings) (domain : Text) : 0 < (domainChunkLimits cfg domain).1 := by
  rw [domainChunkLimits]
  dsimp only
  omega

/-- The pieces of a section cover it. -/
theorem sectionPieces_covers (cfg : ChunkSettings) (domain : Text) (body : List α) :
    (solid body).Sublist (solid (sectionPieces cfg domain body).flatten) := by
  have hmax := limit_pos cfg domain
  rw [sectionPieces]
  split_ifs
  · exact splitCodeBlocks_covers cfg.isWord hmax _ body
  · rw [List.flatten_singleton]
  · exact splitParagraphs_covers hmax _ body

/-- The pieces of a section as they come in its chunks. -/
def strippedPieces (cfg : ChunkSettings) (domain : Text) (body : List α) : List (List α) :=
  ((sectionPieces cfg domain body).map strip).filter fun p => !p.isEmpty

/-- What the chunks of a section have. -/
def sectionRows (cfg : ChunkSettings) (domain : Text) (sec : List α × List α) : List (List α × List α) :=
  (strippedPieces cfg domain sec.2).map fun piece => (sec.1, piece)

/-- The symbols of a chunk, its title before its body. -/
def Chunk.row (c : Chunk α) : List α × List α := (c.sectionTitle, c.body)

theorem addPiece_spec (docTitle : Text) (title : List α) : ∀ (pieces : List (List α)) (s : List (Chunk α) × ℕ),
    s.1.map Chunk.chunkIndex = List.range s.2 →
      ((pieces.foldl (addPiece docTitle title) s).1.map Chunk.row =
        s.1.map Chunk.row ++ ((pieces.map strip).filter fun p => !p.isEmpty).map fun piece => (title, piece)) ∧
      (pieces.foldl (addPiece docTitle title) s).1.map Chunk.chunkIndex =
        List.range (pieces.foldl (addPiece docTitle title) s).2
  | [], s, hs => ⟨(List.append_nil _).symm, hs⟩
  | piece :: pieces, s, hs => by
    rw [List.foldl_cons, List.map_cons, List.filter_cons]
    by_cases hempty : (strip piece).isEmpty
    · rw [addPiece, if_pos hempty, if_neg (by simpa using hempty)]
      exact addPiece_spec docTitle title pieces s hs
    · rw [addPiece, if_neg hempty, if_pos (by simpa using hempty)]
      obtain ⟨hrows, hindices⟩ := addPiece_spec docTitle title pieces
        (s.1 ++ [chunkOf docTitle s.2 title (strip piece)], s.2 + 1) (by
          rw [List.map_append, hs, List.range_succ]
          rfl)
      refine ⟨?_, hindices⟩
      rw [hrows, List.map_append, List.append_assoc]
      rfl

/-- The chunks of the sections, and their numbers. -/
theorem sectionChunks_spec (cfg : ChunkSettings) (docTitle domain : Text) (sections : List (List α × List α)) :
    (sectionChunks cfg docTitle domain sections).map Chunk.row = sections.flatMap (sectionRows cfg domain) ∧
      (sectionChunks cfg docTitle domain sections).map Chunk.chunkIndex =
        List.range (sectionChunks cfg docTitle domain sections).length := by
  have hrun : ∀ (secs : List (List α × List α)) (s : List (Chunk α) × ℕ),
      s.1.map Chunk.chunkIndex = List.range s.2 →
      (secs.foldl (fun s sec => (sectionPieces cfg domain sec.2).foldl (addPiece docTitle sec.1) s) s).1.map Chunk.row =
        s.1.map Chunk.row ++ secs.flatMap (sectionRows cfg domain) ∧
      ∃ n, (secs.foldl (fun s sec => (sectionPieces cfg domain sec.2).foldl (addPiece docTitle sec.1) s) s).1.map
        Chunk.chunkIndex = List.range n := by
    intro secs
    induction secs with
    | nil => exact fun s hs => ⟨(List.append_nil _).symm, s.2, hs⟩
    | cons sec secs ih =>
      intro s hs
      obtain ⟨hrows, hindices⟩ := addPiece_spec docTitle sec.1 (sectionPieces cfg domain sec.2) s hs
      obtain ⟨hrest, hnumbers⟩ := ih _ hindices
      rw [List.foldl_cons]
      refine ⟨?_, hnumbers⟩
      rw [hrest, hrows, List.flatMap_cons, List.append_assoc]
      rfl
  obtain ⟨hrows, n, hindices⟩ := hrun sections ([], 0) rfl
  refine ⟨hrows, ?_⟩
  have hn : n = (sectionChunks cfg docTitle domain sections).length := by
    have hlength := congrArg List.length hindices
    rw [List.length_map, List.length_range] at hlength
    exact hlength.symm
  rw [← hn]
  exact hindices

theorem flatten_sublist_rows {α : Type*} (title : List α) (pieces : List (List α)) :
    pieces.flatten.Sublist ((pieces.map fun piece => (title, piece)).flatMap fun row => row.1 ++ row.2) := by
  induction pieces with
  | nil => exact List.nil_sublist _
  | cons piece pieces ih =>
    rw [List.flatten_cons, List.map_cons, List.flatMap_cons]
    exact (List.sublist_append_right title piece).append ih

/-- A section with some text has chunks, which cover its title and its text. -/
theorem sectionRows_covers (cfg : ChunkSettings) (domain : Text) (sec : List α × List α) (hbody : solid sec.2 ≠ []) :
    (solid sec.1 ++ solid sec.2).Sublist ((sectionRows cfg domain sec).flatMap fun row => row.1 ++ row.2) := by
  have hpieces : (solid sec.2).Sublist (strippedPieces cfg domain sec.2).flatten := by
    have hcovers := sectionPieces_covers cfg domain sec.2
    rw [← solid_filter_strip] at hcovers
    exact hcovers.trans (solid_sublist _)
  rw [sectionRows]
  revert hpieces
  cases strippedPieces cfg domain sec.2 with
  | nil =>
    intro hpieces
    exact absurd (List.eq_nil_of_sublist_nil hpieces) hbody
  | cons piece pieces =>
    intro hpieces
    rw [List.map_cons, List.flatMap_cons, List.append_assoc]
    refine (solid_sublist sec.1).append (hpieces.trans ?_)
    rw [List.flatten_cons]
    exact (List.Sublist.refl _).append (flatten_sublist_rows sec.1 pieces)

/-! ### Headings -/

/-- The places in a heading: its marks, whitespace, and its title. -/
theorem heading_places {m : Match} {texts : List Text} (hlang : List.Forall₂ Lang headingPattern.parts texts)
    (hparts : m.parts = texts.map List.length) (hpre : texts.flatten <+: (chars t).drop m.start) :
    m.start ≤ m.partStart 1 ∧ m.partStart 1 ≤ m.partStart 2 ∧ m.partStart 2 ≤ m.stop ∧
      solid (slice t (m.partStart 1) (m.partStart 2)) = [] := by
  obtain ⟨marks, space, title, hspace, rfl⟩ : ∃ marks space title, (∀ c ∈ space, isSpace c = true) ∧
      texts = [marks, space, title] := by
    rcases hlang with _ | ⟨hmarks, _ | ⟨hspace, _ | ⟨htitle, _ | _⟩⟩⟩
    exact ⟨_, _, _, hspace.1, rfl⟩
  have hone : m.partStart 1 = m.start + marks.length := by simp [Match.partStart, hparts]
  have htwo : m.partStart 2 = m.start + marks.length + space.length := by simp [Match.partStart, hparts]; omega
  have hstop : m.stop = m.start + marks.length + space.length + title.length := by
    simp [Match.stop, hparts]
    omega
  refine ⟨by omega, by omega, by omega, solid_of_space ?_⟩
  obtain ⟨rest, hrest⟩ := hpre
  have hdrop : (chars t).drop (m.start + marks.length) = space ++ (title ++ rest) := by
    rw [← List.drop_drop, ← hrest]
    simp
  have hslice : chars (slice t (m.partStart 1) (m.partStart 2)) = space := by
    rw [chars_slice, slice, List.drop_take, hone, htwo, hdrop, Nat.add_sub_cancel_left]
    exact List.take_left' rfl
  rw [hslice]
  exact hspace

/-- What stands behind the marks of a heading: its title, and its text. -/
theorem solid_heading {m : Match} {ms : List Match} {texts : List Text}
    (hlang : List.Forall₂ Lang headingPattern.parts texts) (hparts : m.parts = texts.map List.length)
    (hpre : texts.flatten <+: (chars t).drop m.start) (hrest : Stand headingPattern (chars t) m.stop ms) :
    solid (slice t (m.partStart 1) (nextStart t ms)) = solid (headingTitle t m) ++ solid (headingBody t m ms) := by
  obtain ⟨-, hspace, htitle, hblank⟩ := heading_places hlang hparts hpre
  have hnext := (le_nextStart hrest).1
  rw [slice_append hspace (htitle.trans hnext), slice_append htitle hnext, solid_append, solid_append, hblank,
    List.nil_append, headingTitle, solid_strip, headingBody, solid_strip]

/-- Where every heading with a title has text, the sections have the text of the headings. -/
theorem solid_headingText {ms : List Match} : ∀ {i : ℕ}, Stand headingPattern (chars t) i ms →
    EveryHeading (fun m ms => headingTitle t m = [] ∨ headingBody t m ms ≠ []) ms →
    solid (headingText t ms) = (headingSections t ms).flatMap fun sec => solid sec.1 ++ solid sec.2 := by
  induction ms with
  | nil => exact fun _ _ => rfl
  | cons m ms ih =>
    intro i h hall
    cases h with
    | cons texts hi hlang hparts hpre hrest =>
      rw [headingText, solid_append, solid_heading hlang hparts hpre hrest, ih hrest hall.2, headingSections]
      by_cases hbody : headingBody t m ms = []
      · have htitle : headingTitle t m = [] := hall.1.resolve_right (not_not.2 hbody)
        have hempty : (strip (slice t m.stop (nextStart t ms))).isEmpty := List.isEmpty_iff.2 hbody
        rw [if_pos hempty, hbody, htitle]
        rfl
      · have hempty : ¬ (strip (slice t m.stop (nextStart t ms))).isEmpty := fun h => hbody (List.isEmpty_iff.1 h)
        rw [if_neg hempty, List.flatMap_cons]
        rfl

theorem solid_prefixSection {ms : List Match} :
    (prefixSection t ms).flatMap (fun sec => solid sec.1 ++ solid sec.2) = solid (t.take (nextStart t ms)) := by
  rw [prefixSection]
  split_ifs with hempty
  · exact (strip_eq_nil_iff_solid.1 (List.isEmpty_iff.1 hempty)).symm
  · rw [List.flatMap_singleton, solid_nil, List.nil_append, solid_strip]

theorem headingText_sublist {ms : List Match} : ∀ {i : ℕ}, Stand headingPattern (chars t) i ms →
    (headingText t ms).Sublist (t.drop (nextStart t ms)) := by
  induction ms with
  | nil => exact fun _ => List.nil_sublist _
  | cons m ms ih =>
    intro i h
    cases h with
    | cons texts hi hlang hparts hpre hrest =>
      obtain ⟨hmarks, hspace, htitle, -⟩ := heading_places hlang hparts hpre
      have hnext := (le_nextStart hrest).1
      have hstart : nextStart t (m :: ms) = m.start := rfl
      rw [headingText, hstart, drop_eq_slice_append hmarks,
        drop_eq_slice_append (hspace.trans (htitle.trans hnext))]
      exact ((List.Sublist.refl _).append (ih hrest)).trans (List.sublist_append_right _ _)

theorem withoutMarks_sublist (t : List α) : (withoutMarks t).Sublist t := by
  have htail := headingText_sublist (headingPattern.stand_finditer (chars t))
  have hall := (List.Sublist.refl (t.take (nextStart t (headingPattern.finditer (chars t))))).append htail
  rwa [List.take_append_drop] at hall

theorem headingSections_eq_nil_iff {ms : List Match} :
    headingSections t ms = [] ↔ EveryHeading (fun m ms => headingBody t m ms = []) ms := by
  induction ms with
  | nil => exact iff_of_true rfl trivial
  | cons m ms ih =>
    rw [headingSections, EveryHeading, headingBody]
    by_cases hempty : strip (slice t m.stop (nextStart t ms)) = []
    · rw [if_pos (List.isEmpty_iff.2 hempty), ih, and_iff_right hempty]
    · rw [if_neg fun h => hempty (List.isEmpty_iff.1 h)]
      exact iff_of_false (List.cons_ne_nil _ _) fun h => hempty h.1

theorem prefixSection_eq_nil_iff {ms : List Match} :
    prefixSection t ms = [] ↔ strip (t.take (nextStart t ms)) = [] := by
  rw [prefixSection]
  by_cases hempty : strip (t.take (nextStart t ms)) = []
  · rw [if_pos (List.isEmpty_iff.2 hempty)]
    exact iff_of_true rfl hempty
  · rw [if_neg fun h => hempty (List.isEmpty_iff.1 h)]
    exact iff_of_false (List.cons_ne_nil _ _) hempty

/-- There are no sections just where there is no text but the headings. -/
theorem sections_eq_nil_iff : prefixSection t (headingPattern.finditer (chars t)) ++
    headingSections t (headingPattern.finditer (chars t)) = [] ↔ OnlyHeadings t := by
  rw [List.append_eq_nil_iff, prefixSection_eq_nil_iff, headingSections_eq_nil_iff, OnlyHeadings]

/-- The sections have the text of a document whose headings have text, or that has nothing else. -/
theorem splitByHeadings_covers (ht : strip t = t) (h : HeadingsHaveText t ∨ OnlyHeadings t) :
    (solid (withoutMarks t)).Sublist ((splitByHeadings t).flatMap fun sec => solid sec.1 ++ solid sec.2) := by
  have hwhole : (solid (withoutMarks t)).Sublist
      ([(([] : List α), t)].flatMap fun sec => solid sec.1 ++ solid sec.2) := by
    rw [List.flatMap_singleton, solid_nil, List.nil_append]
    exact solid_mono (withoutMarks_sublist t)
  rw [splitByHeadings, ht]
  by_cases hempty : t.isEmpty
  · rw [List.isEmpty_iff.1 hempty]
    exact List.nil_sublist _
  · rw [if_neg hempty]
    dsimp only
    split_ifs with hnone hsections
    · exact hwhole
    · exact hwhole
    · have hhave := h.resolve_right fun honly => hsections (List.isEmpty_iff.2 (sections_eq_nil_iff.2 honly))
      rw [List.flatMap_append, solid_prefixSection, ← solid_headingText (headingPattern.stand_finditer (chars t)) hhave,
        ← solid_append]
      exact List.Sublist.refl _

/-- Every section has some text. -/
theorem solid_section_ne_nil (ht : strip t = t) {sec : List α × List α} (h : sec ∈ splitByHeadings t) :
    solid sec.2 ≠ [] := by
  have hbody : ∀ ms : List Match, ∀ s ∈ headingSections t ms, solid s.2 ≠ [] := by
    intro ms
    induction ms with
    | nil => intro s hs; cases hs
    | cons m ms ih =>
      intro s hs
      rw [headingSections] at hs
      split_ifs at hs with hempty
      · exact ih s hs
      · rcases List.mem_cons.1 hs with rfl | hs
        · rw [solid_strip]
          exact fun hnil => hempty (List.isEmpty_iff.2 (strip_eq_nil_iff_solid.2 hnil))
        · exact ih s hs
  have hbefore : ∀ ms : List Match, ∀ s ∈ prefixSection t ms, solid s.2 ≠ [] := by
    intro ms s hs
    rw [prefixSection] at hs
    split_ifs at hs with hempty
    · cases hs
    · rw [List.mem_singleton.1 hs, solid_strip]
      exact fun hnil => hempty (List.isEmpty_iff.2 (strip_eq_nil_iff_solid.2 hnil))
  rw [splitByHeadings, ht] at h
  by_cases hempty : t.isEmpty
  · rw [if_pos hempty] at h
    cases h
  · have hwhole : solid t ≠ [] := by
      rw [← ht, solid_strip]
      exact fun hnil => hempty (List.isEmpty_iff.2 (ht ▸ strip_eq_nil_iff_solid.2 hnil))
    rw [if_neg hempty] at h
    dsimp only at h
    split_ifs at h
    · rwa [List.mem_singleton.1 h]
    · rwa [List.mem_singleton.1 h]
    · rcases List.mem_append.1 h with h | h
      · exact hbefore _ sec h
      · exact hbody _ sec h

end AgentLangraph.Knowledge.Chunker
