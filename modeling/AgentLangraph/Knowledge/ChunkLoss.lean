import AgentLangraph.Knowledge.ChunkMarks
import AgentLangraph.Knowledge.ChunkOrigin

/-! When chunking loses text. The chunks have the text of the sections, no less and no more, and the sections have
    all of it but the titles of the headings without a text of their own.

        # Lost ¶ # Kept ¶ text  ──sections──▶  (Kept, text)
        # One ¶ # Two           ──sections──▶  none: the whole text is one chunk -/

namespace AgentLangraph.Knowledge.Chunker
open PyText (Text)
open Symbols Regex

variable {α : Type*} [Symbol α] {t : List α}

/-! ### The chunks of the sections -/

theorem splitByHeadings_ne_nil (ht : strip t = t) (hne : t ≠ []) : splitByHeadings t ≠ [] := by
  rw [splitByHeadings, ht, if_neg fun h => hne (List.isEmpty_iff.1 h)]
  dsimp only
  split_ifs with hnone hempty
  · exact List.cons_ne_nil _ _
  · exact List.cons_ne_nil _ _
  · exact fun h => hempty (List.isEmpty_iff.2 h)

theorem sectionRows_ne_nil (cfg : ChunkSettings) (domain : Text) {sec : List α × List α} (hbody : solid sec.2 ≠ []) :
    sectionRows cfg domain sec ≠ [] := by
  intro hnil
  have hcovers := sectionRows_covers cfg domain sec hbody
  rw [hnil] at hcovers
  exact hbody (List.append_eq_nil_iff.1 (List.eq_nil_of_sublist_nil hcovers)).2

/-- The chunks of a document with some text are those of its sections, numbered from 0 on. -/
theorem chunkDocument_spec (cfg : ChunkSettings) (title domain : Text) {content : List α} (hne : strip content ≠ []) :
    (chunkDocument cfg title content domain).map Chunk.row =
        (splitByHeadings (strip content)).flatMap (sectionRows cfg domain) ∧
      (chunkDocument cfg title content domain).map Chunk.chunkIndex =
        List.range (chunkDocument cfg title content domain).length := by
  rw [chunkDocument, if_neg fun h => hne (List.isEmpty_iff.1 h)]
  dsimp only
  generalize (if PyText.strip title = [] then "未命名文档".toList else PyText.strip title) = docTitle
  have hspec := sectionChunks_spec cfg docTitle domain (splitByHeadings (strip content))
  rw [if_neg ?_]
  · exact hspec
  · intro hempty
    have hstrip := strip_strip content
    obtain ⟨sec, secs, hsecs⟩ := List.exists_cons_of_ne_nil (splitByHeadings_ne_nil hstrip hne)
    have hsec : sec ∈ splitByHeadings (strip content) := by
      rw [hsecs]
      exact List.mem_cons_self
    have hrows := hspec.1
    rw [List.isEmpty_iff.1 hempty, hsecs, List.flatMap_cons] at hrows
    exact sectionRows_ne_nil cfg domain (solid_section_ne_nil hstrip hsec) (List.append_eq_nil_iff.1 hrows.symm).1

theorem flatMap_row {α : Type*} (chunks : List (Chunk α)) :
    (chunks.flatMap fun c => c.sectionTitle ++ c.body) = (chunks.map Chunk.row).flatMap fun row => row.1 ++ row.2 := by
  rw [List.flatMap_map]
  rfl

/-- The chunks have the text of the sections. -/
theorem rows_cover (cfg : ChunkSettings) (domain : Text) (secs : List (List α × List α))
    (hsecs : ∀ sec ∈ secs, solid sec.2 ≠ []) :
    (secs.flatMap fun sec => solid sec.1 ++ solid sec.2).Sublist
      ((secs.flatMap (sectionRows cfg domain)).flatMap fun row => row.1 ++ row.2) := by
  induction secs with
  | nil => exact List.nil_sublist _
  | cons sec secs ih =>
    rw [List.forall_mem_cons] at hsecs
    rw [List.flatMap_cons, List.flatMap_cons, List.flatMap_append]
    exact (sectionRows_covers cfg domain sec hsecs.1).append (ih hsecs.2)

/-- What a chunk has is in its section, line breaks apart. -/
theorem from_row {cfg : ChunkSettings} {domain : Text} {sec row : List α × List α}
    (h : row ∈ sectionRows cfg domain sec) : row.1 = sec.1 ∧ From sec.2 row.2 := by
  obtain ⟨piece, hpiece, rfl⟩ := List.mem_map.1 h
  obtain ⟨whole, hwhole, rfl⟩ := List.mem_map.1 (List.mem_of_mem_filter hpiece)
  exact ⟨rfl, (from_sectionPieces cfg domain hwhole).mono (strip_subset whole)⟩

/-! ### A heading without text is lost -/

/-- What stands behind a place does not stand before it. -/
theorem not_mem_take {α : Type*} {t : List α} (ht : t.Nodup) {a : α} {i j : ℕ} (hij : i ≤ j) (ha : a ∈ t.drop j) :
    a ∉ t.take i := fun h => List.disjoint_take_drop ht hij h ha

/-- The sections of the headings have what stands behind a place before the first of them. -/
theorem headingSections_subset {ms : List Match} : ∀ {i : ℕ}, Stand headingPattern (chars t) i ms →
    ∀ sec ∈ headingSections t ms, ∀ a, a ∈ sec.1 ∨ a ∈ sec.2 → a ∈ t.drop i := by
  induction ms with
  | nil => exact fun _ _ hsec => by cases hsec
  | cons m ms ih =>
    intro i h sec hsec a ha
    cases h with
    | cons texts hi hlang hparts hpre hrest =>
      obtain ⟨hmarks, hspace, htitle, -⟩ := heading_places hlang hparts hpre
      have hbehind : ∀ {j : ℕ}, i ≤ j → a ∈ t.drop j → a ∈ t.drop i := fun hij h =>
        List.drop_subset_drop_left t hij h
      rw [headingSections] at hsec
      split_ifs at hsec
      · exact hbehind (hi.trans m.start_le_stop) (ih hrest sec hsec a ha)
      · rcases List.mem_cons.1 hsec with rfl | hsec
        · rcases ha with ha | ha
          · exact hbehind (hi.trans (hmarks.trans hspace)) (slice_subset_drop _ _ _ (strip_subset _ ha))
          · exact hbehind (hi.trans m.start_le_stop) (slice_subset_drop _ _ _ (strip_subset _ ha))
        · exact hbehind (hi.trans m.start_le_stop) (ih hrest sec hsec a ha)

/-- A heading whose title is in some section has text under it. -/
theorem everyHeading_of_kept (ht : t.Nodup) {ms : List Match} : ∀ {i : ℕ}, Stand headingPattern (chars t) i ms →
    (∀ a ∈ solid (headingText t ms), ∃ sec ∈ headingSections t ms, a ∈ sec.1 ∨ a ∈ sec.2) →
    EveryHeading (fun m ms => headingTitle t m = [] ∨ headingBody t m ms ≠ []) ms := by
  induction ms with
  | nil => exact fun _ _ => trivial
  | cons m ms ih =>
    intro i h hkept
    cases h with
    | cons texts hi hlang hparts hpre hrest =>
      have hnext := (le_nextStart hrest).1
      have hsolid := solid_heading hlang hparts hpre hrest
      rw [headingText, solid_append, List.forall_mem_append, hsolid, List.forall_mem_append, headingSections] at hkept
      obtain ⟨⟨htitle, -⟩, hothers⟩ := hkept
      constructor
      · by_contra hlost
        rw [not_or, not_not] at hlost
        obtain ⟨htitled, hbody⟩ := hlost
        have hsome : solid (headingTitle t m) ≠ [] := by
          rw [headingTitle, solid_strip]
          exact fun hnil => htitled (strip_eq_nil_iff_solid.2 hnil)
        obtain ⟨a, as, has⟩ := List.exists_cons_of_ne_nil hsome
        have ha : a ∈ solid (headingTitle t m) := by
          rw [has]
          exact List.mem_cons_self
        -- the other sections stand behind the heading, so none of them has its title
        obtain ⟨sec, hsec, hin⟩ := htitle a ha
        have hempty : (strip (slice t m.stop (nextStart t ms))).isEmpty := List.isEmpty_iff.2 hbody
        rw [if_pos hempty] at hsec
        exact not_mem_take ht le_rfl (headingSections_subset hrest sec hsec a hin)
          (slice_subset_take _ _ _ (strip_subset _ (mem_solid.1 ha).1))
      · refine ih hrest fun a ha => ?_
        have hbehind : a ∈ t.drop (nextStart t ms) :=
          (headingText_sublist hrest).subset (mem_solid.1 ha).1
        obtain ⟨sec, hsec, hin⟩ := hothers a ha
        split_ifs at hsec
        · exact ⟨sec, hsec, hin⟩
        · rcases List.mem_cons.1 hsec with rfl | hsec
          · exfalso
            rcases hin with hin | hin
            · exact not_mem_take ht hnext hbehind (slice_subset_take _ _ _ (strip_subset _ hin))
            · exact not_mem_take ht le_rfl hbehind (slice_subset_take _ _ _ (strip_subset _ hin))
          · exact ⟨sec, hsec, hin⟩

/-! ### What the chunks lose -/

/-- The sections have the text behind the first heading only where every heading with a title has text. -/
theorem haveText_of_kept (ht : t.Nodup) (hstrip : strip t = t) (hne : t ≠ [])
    (hkept : ∀ a ∈ solid (withoutMarks t), ∃ sec ∈ splitByHeadings t, a ∈ sec.1 ∨ a ∈ sec.2) :
    HeadingsHaveText t ∨ OnlyHeadings t := by
  rw [splitByHeadings, hstrip, if_neg fun h => hne (List.isEmpty_iff.1 h)] at hkept
  dsimp only at hkept
  by_cases hempty : prefixSection t (headingPattern.finditer (chars t)) ++
      headingSections t (headingPattern.finditer (chars t)) = []
  · exact .inr (sections_eq_nil_iff.1 hempty)
  · refine .inl ?_
    have hstand := headingPattern.stand_finditer (chars t)
    rw [HeadingsHaveText]
    rw [withoutMarks, if_neg fun h => hempty (List.isEmpty_iff.1 h)] at hkept
    revert hstand hkept
    generalize headingPattern.finditer (chars t) = ms
    intro hkept hstand
    by_cases hnone : ms.isEmpty
    · rw [List.isEmpty_iff.1 hnone]
      trivial
    · rw [if_neg hnone, solid_append, List.forall_mem_append] at hkept
      refine everyHeading_of_kept ht hstand fun a ha => ?_
      obtain ⟨sec, hsec, hin⟩ := hkept.2 a ha
      rcases List.mem_append.1 hsec with hsec | hsec
      · exfalso
        have hbehind := (headingText_sublist hstand).subset (mem_solid.1 ha).1
        rw [prefixSection] at hsec
        split_ifs at hsec
        · cases hsec
        · rw [List.mem_singleton.1 hsec] at hin
          rcases hin with hin | hin
          · cases hin
          · exact not_mem_take ht le_rfl hbehind (strip_subset _ hin)
      · exact ⟨sec, hsec, hin⟩

/-- The chunks of a text whose symbols differ lose nothing just where every heading with a title has text under
    it, or where there is nothing but headings. -/
theorem noTextLost_iff (cfg : ChunkSettings) (title domain : Text) {content : List α} (hdup : content.Nodup)
    (hnewline : (newline : α) ∉ content) :
    NoTextLost content (chunkDocument cfg title content domain) ↔
      HeadingsHaveText (strip content) ∨ OnlyHeadings (strip content) := by
  have hstrip := strip_strip content
  by_cases hne : strip content = []
  · refine iff_of_true ⟨?_, ?_⟩ (.inl ?_)
    · rw [hne]
      exact List.nil_sublist _
    · rw [chunkDocument, if_pos (List.isEmpty_iff.2 hne)]
      rfl
    · rw [hne]
      trivial
  · obtain ⟨hrows, hindices⟩ := chunkDocument_spec cfg title domain hne
    constructor
    · rintro ⟨hcovered, -⟩
      rw [flatMap_row, hrows] at hcovered
      refine haveText_of_kept (hdup.sublist (strip_sublist content)) hstrip hne fun a ha => ?_
      obtain ⟨row, hrow, hin⟩ := List.mem_flatMap.1 (hcovered.subset ha)
      obtain ⟨sec, hsec, hrow⟩ := List.mem_flatMap.1 hrow
      obtain ⟨htitle, hbody⟩ := from_row hrow
      rcases List.mem_append.1 hin with hin | hin
      · exact ⟨sec, hsec, .inl (htitle ▸ hin)⟩
      · rcases hbody a hin with hin | rfl
        · exact ⟨sec, hsec, .inr hin⟩
        · -- the line breaks that the chunker writes are not in the text
          have htext := (withoutMarks_sublist (strip content)).subset (mem_solid.1 ha).1
          exact absurd (strip_subset _ htext) hnewline
    · intro h
      refine ⟨?_, hindices⟩
      rw [flatMap_row, hrows]
      exact (splitByHeadings_covers hstrip h).trans
        (rows_cover cfg domain _ fun sec hsec => solid_section_ne_nil hstrip hsec)

/-! ### On the characters -/

section Erase

variable {β : Type*} [Symbol β] {f : α → β}

theorem everyHeading_congr {P Q : Match → List Match → Prop} (h : ∀ m ms, P m ms ↔ Q m ms) : ∀ ms : List Match,
    EveryHeading P ms ↔ EveryHeading Q ms
  | [] => Iff.rfl
  | m :: ms => and_congr (h m ms) (everyHeading_congr h ms)

theorem headingBody_map (hf : Relabels f) (t : List α) (m : Match) (ms : List Match) :
    headingBody (t.map f) m ms = (headingBody t m ms).map f := by
  rw [headingBody, headingBody, nextStart_map, slice_map, hf.strip_map]

theorem headingsHaveText_map (hf : Relabels f) (t : List α) : HeadingsHaveText (t.map f) ↔ HeadingsHaveText t := by
  rw [HeadingsHaveText, HeadingsHaveText, hf.chars_map]
  refine everyHeading_congr (fun m ms => ?_) _
  rw [headingTitle_map hf, headingBody_map hf, List.map_eq_nil_iff, ne_eq, ne_eq, List.map_eq_nil_iff]

theorem onlyHeadings_map (hf : Relabels f) (t : List α) : OnlyHeadings (t.map f) ↔ OnlyHeadings t := by
  rw [OnlyHeadings, OnlyHeadings, hf.chars_map, nextStart_map, ← List.map_take, hf.strip_map, List.map_eq_nil_iff]
  refine and_congr_right fun _ => everyHeading_congr (fun m ms => ?_) _
  rw [headingBody_map hf, List.map_eq_nil_iff]

end Erase

/-- COVERAGE: the run on the characters is the run on the places of a document, with the places taken away, and
    that run loses no text just where every heading with a title has text under it, or where there is nothing
    but headings. -/
theorem chunks_lose_no_text_iff (cfg : ChunkSettings) (title content domain : Text) :
    (chunkDocument cfg title (mark content) domain).map (Chunk.map Prod.fst) =
        chunkDocument cfg title content domain ∧
      (NoTextLost (mark content) (chunkDocument cfg title (mark content) domain) ↔
        HeadingsHaveText (strip content) ∨ OnlyHeadings (strip content)) := by
  refine ⟨chunkDocument_mark cfg title content domain, ?_⟩
  rw [noTextLost_iff cfg title domain (nodup_mark content) (newline_not_mem_mark content)]
  have hcontent : strip content = (strip (mark content)).map Prod.fst := by
    rw [← relabels_erase.strip_map, map_mark]
  rw [hcontent, headingsHaveText_map relabels_erase, onlyHeadings_map relabels_erase]

/-- The settings that the program has when none are given. -/
def defaultSettings : ChunkSettings where
  maxChars := 1200
  overlapChars := 150
  maxCharsWriting := 1000
  overlapCharsWriting := 120
  maxCharsCode := 900
  overlapCharsCode := 80
  threeQuarters := fun n => n * 3 / 4
  half := fun n => n / 2
  lower := fun t => t.map Char.toLower
  isWord := fun c => c.isAlphanum || c == '_'

/-- A heading that is followed by another one: no chunk has its title. -/
theorem bare_heading_lost : ¬ ∀ (cfg : ChunkSettings) (title content domain : Text),
    NoTextLost content (chunkDocument cfg title content domain) := by
  intro h
  have hcovered := (h defaultSettings "Guide".toList "# Lost\n# Kept\ntext".toList "common".toList).covered
  revert hcovered
  decide +kernel

end AgentLangraph.Knowledge.Chunker
