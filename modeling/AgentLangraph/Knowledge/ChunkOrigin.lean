import AgentLangraph.Knowledge.ChunkCoverage

/-! Where the symbols of a chunk come from: the chunks of a text have its symbols only, and the line breaks that
    are put between packed paragraphs. A symbol is in a chunk because its own section has it.

        piece ⊆ paragraphs, blocks ⊆ section ⊆ text        joined by ¶¶ -/

namespace AgentLangraph.Knowledge.Chunker
open PyText (Text)
open Symbols Regex

variable {α : Type*} [Symbol α] {t : List α} {maxChars overlapChars : ℕ} {p : Packing α}


/-- The symbols of a text, and the line breaks between packed paragraphs. -/
def From (t : List α) (p : List α) : Prop := ∀ a ∈ p, a ∈ t ∨ a = newline

theorem From.of_subset {p : List α} (h : p ⊆ t) : From t p := fun _ ha => .inl (h ha)

theorem From.mono {p q : List α} (h : From t q) (hpq : p ⊆ q) : From t p := fun a ha => h a (hpq ha)

theorem From.trans {p u : List α} (h : From u p) (hu : u ⊆ t) : From t p := fun a ha =>
  (h a ha).imp_left fun hin => hu hin

theorem between_subset {α : Type*} {t : List α} : ∀ {ms : List Match} {i : ℕ}, ∀ p ∈ between t i ms, p ⊆ t
  | [], i, p, hp => by
    rw [between, List.mem_singleton] at hp
    rw [hp]
    exact List.drop_subset i t
  | m :: ms, i, p, hp => by
    rw [between, List.mem_cons] at hp
    rcases hp with rfl | hp
    · exact slice_subset t i m.start
    · exact between_subset p hp

theorem paragraphs_subset {p : List α} (hp : p ∈ paragraphs t) : p ⊆ t := by
  obtain ⟨q, hq, rfl⟩ := List.mem_map.1 (List.mem_of_mem_filter hp)
  exact List.Subset.trans (strip_subset q) (between_subset q hq)

theorem from_joinBlank : ∀ {ps : List (List α)}, (∀ p ∈ ps, From t p) → From t (joinBlank ps)
  | [], _ => fun a ha => by cases ha
  | [p], h => by
    rw [joinBlank, List.intercalate_singleton]
    exact h p List.mem_cons_self
  | p :: q :: ps, h => by
    rw [List.forall_mem_cons] at h
    rw [joinBlank, List.intercalate_cons_cons]
    intro a ha
    rw [List.append_assoc, List.mem_append, List.mem_append] at ha
    rcases ha with ha | ha | ha
    · exact h.1 a ha
    · simp only [List.mem_cons, List.not_mem_nil, or_false, or_self] at ha
      exact .inr ha
    · exact from_joinBlank h.2 a ha

theorem hardSplit_subset {α : Type*} {maxChars overlapChars : ℕ} {para : List α} : ∀ {fuel start : ℕ},
    ∀ p ∈ hardSplit maxChars overlapChars para fuel start, p ⊆ para
  | 0, _, p, hp => by cases hp
  | fuel + 1, start, p, hp => by
    rw [hardSplit] at hp
    by_cases hend : para.length ≤ start
    · rw [if_pos hend] at hp
      cases hp
    · rw [if_neg hend] at hp
      rcases List.mem_cons.1 hp with rfl | hp
      · exact slice_subset _ _ _
      · split_ifs at hp
        · cases hp
        · exact hardSplit_subset p hp

/-- All that is packed comes from the text. -/
structure PackedFrom (t : List α) (p : Packing α) : Prop where
  parts : ∀ q ∈ p.parts, From t q
  current : ∀ q ∈ p.current, From t q

theorem PackedFrom.flush (h : PackedFrom t p) (overlapChars : ℕ) : PackedFrom t (Chunker.flush overlapChars p) := by
  have htail := from_joinBlank h.current
  have hparts : ∀ q ∈ p.parts ++ [joinBlank p.current], From t q := by
    rw [List.forall_mem_append, List.forall_mem_singleton]
    exact ⟨h.parts, htail⟩
  rw [Chunker.flush]
  by_cases hempty : p.current.isEmpty
  · rwa [if_pos hempty]
  · rw [if_neg hempty]
    dsimp only
    split_ifs
    · exact ⟨hparts, fun q hq => by cases hq⟩
    · refine ⟨hparts, fun q hq => ?_⟩
      rw [List.mem_singleton.1 hq]
      exact htail.mono (List.Subset.trans (List.dropWhile_sublist _).subset (List.drop_subset _ _))
    · exact ⟨hparts, fun q hq => by cases hq⟩

theorem PackedFrom.paragraph (h : PackedFrom t p) {para : List α} (hpara : para ⊆ t) :
    PackedFrom t (packParagraph maxChars overlapChars p para) := by
  have hflushed := h.flush overlapChars
  rcases packParagraph_cases maxChars overlapChars p para with ⟨q, n, hq, heq⟩ | ⟨q, hq, heq⟩
  · have hfrom : PackedFrom t q := by
      rcases hq with rfl | rfl
      · exact h
      · exact hflushed
    rw [heq]
    refine ⟨hfrom.parts, ?_⟩
    rw [List.forall_mem_append, List.forall_mem_singleton]
    exact ⟨hfrom.current, From.of_subset hpara⟩
  · have hfrom : PackedFrom t q := by
      rcases hq with ⟨rfl, -⟩ | rfl | rfl
      · exact h
      · exact hflushed
      · exact hflushed.flush overlapChars
    rw [heq]
    refine ⟨?_, hfrom.current⟩
    rw [List.forall_mem_append]
    exact ⟨hfrom.parts, fun q hq => From.of_subset (List.Subset.trans (hardSplit_subset q hq) hpara)⟩

theorem from_splitParagraphs (maxChars overlapChars : ℕ) {piece : List α}
    (h : piece ∈ splitParagraphsWithOverlap maxChars overlapChars t) : From t piece := by
  have hrun : ∀ (paras : List (List α)) {p : Packing α}, (∀ q ∈ paras, q ⊆ t) → PackedFrom t p →
      PackedFrom t (paras.foldl (packParagraph maxChars overlapChars) p) := by
    intro paras
    induction paras with
    | nil => exact fun _ hp => hp
    | cons para paras ih =>
      intro p hparas hp
      rw [List.forall_mem_cons] at hparas
      exact ih hparas.2 (hp.paragraph hparas.1)
  have hstart : PackedFrom t ({} : Packing α) := by
    constructor
    · intro q hq
      cases hq
    · intro q hq
      cases hq
  exact ((hrun (paragraphs t) (fun _ hq => paragraphs_subset hq) hstart).flush overlapChars).parts piece h

theorem from_splitCodeBlocks (isWord : Char → Bool) (maxChars overlapChars : ℕ) {piece : List α}
    (h : piece ∈ splitCodeBlocks isWord maxChars overlapChars t) : From t piece := by
  have hstrip := strip_subset t
  rcases splitCodeBlocks_cases isWord maxChars overlapChars t with ⟨-, heq⟩ | heq | heq | ⟨blocks, hblocks, heq⟩
  · rw [heq] at h
    cases h
  · rw [heq, List.mem_singleton] at h
    rw [h]
    exact From.of_subset hstrip
  · rw [heq] at h
    exact (from_splitParagraphs maxChars overlapChars h).trans hstrip
  · rw [heq] at h
    obtain ⟨block, hblock, hpiece⟩ := List.mem_flatMap.1 h
    have hsubset := List.Subset.trans (hblocks.subset block hblock) hstrip
    split_ifs at hpiece
    · rw [List.mem_singleton.1 hpiece]
      exact From.of_subset hsubset
    · exact (from_splitParagraphs maxChars overlapChars hpiece).trans hsubset

/-- The pieces of a section have its symbols, and line breaks. -/
theorem from_sectionPieces (cfg : ChunkSettings) (domain : Text) {piece : List α}
    (h : piece ∈ sectionPieces cfg domain t) : From t piece := by
  rw [sectionPieces] at h
  split_ifs at h
  · exact from_splitCodeBlocks _ _ _ h
  · rw [List.mem_singleton.1 h]
    exact From.of_subset (List.Subset.refl _)
  · exact from_splitParagraphs _ _ h

end AgentLangraph.Knowledge.Chunker
