import AgentLangraph.Knowledge.Catalog
import AgentLangraph.Knowledge.ChunkBounds
import AgentLangraph.Knowledge.Store

/-! What `get_document` gives right after `upsert_document`. A document in one row is stored as it is, or, where
    the chunker leaves it in one piece, as that piece; a document in several has its content in the parent row.

        not chunked ──▶ d: content          one chunk ──▶ d: its body          more ──▶ d: content, d__c0000, … -/

namespace AgentLangraph.Knowledge
open PyText

/-! ### Reading a document -/

/-- The fields of what `get_document` returns. -/
structure Document where
  docId : Text
  title : Text
  content : Text
  metadata : Fields
  createdAt : Text

def Row.document (row : Row) : Document := ⟨row.docId, row.title, row.content, row.metadata, row.createdAt⟩

/-- `SELECT * FROM knowledge_docs WHERE doc_id = ?`. -/
def Table.fetch (t : Table) (docId : Text) : Option Row := t.rows.find? fun r => r.docId = docId

/-- The numbers and the texts of the children, as they are found. -/
def Table.parts (t : Table) (childIds : List Text) : List (ℤ × Text) :=
  childIds.filterMap fun id => (t.fetch id).map fun child => (chunkIndexOf child.metadata 0, child.content)

def mergedParts (parts : List (ℤ × Text)) : Text :=
  List.intercalate "\n\n".toList ((parts.insertionSort fun p q => p.1 ≤ q.1).map Prod.snd)

def getDocument (t : Table) (docId : Text) : Option Document :=
  (t.fetch docId).map fun row =>
    if isParentCatalogRow row.metadata then row.document
    else
      match t.childChunkIds docId with
      | [] => row.document
      | ids =>
        let parts := t.parts ids
        { docId := docId
          title := row.title
          content := if mergedParts parts = [] then row.content else mergedParts parts
          metadata := (row.metadata.put "assembled_from_chunks" (.bool true)).put "chunk_count" (.int parts.length)
          createdAt := row.createdAt }

/-- What has been written reads back as it was given. -/
def RoundTrips (cfg : Config) (t : Table) (c : Upsert) : Prop :=
  ∃ d, getDocument (upsertDocument cfg t c).1 (upsertDocument cfg t c).2 = some d ∧
    d.title = c.title ∧ d.content = c.content

/-! ### The row that is read -/

section
variable (cfg : Config) (t : Table) (c : Upsert)

/-- The row of the document itself. -/
def Upsert.ownRow : Row :=
  if !shouldChunk cfg c.content (c.meta cfg) then c.singleRow cfg
  else
    match c.chunks cfg with
    | [] => c.onlyRow cfg none
    | [only] => c.onlyRow cfg (some only)
    | chunks => c.parentRow cfg chunks.length

theorem upsert_id : (upsertDocument cfg t c).2 = c.did := by
  rw [upsertDocument]
  split_ifs
  · rfl
  · split <;> rfl

theorem ownRow_docId : (c.ownRow cfg).docId = c.did := by
  rw [Upsert.ownRow]
  split_ifs
  · rfl
  · split <;> rfl

theorem ownRow_title : (c.ownRow cfg).title = c.title := by
  rw [Upsert.ownRow]
  split_ifs
  · rfl
  · split <;> rfl

/-- The document's own row comes first, and where it is no parent it is the only one. -/
theorem rows_eq_cons : ∃ rest, c.rows cfg = c.ownRow cfg :: rest ∧
    (isParentCatalogRow (c.ownRow cfg).metadata = true ∨ rest = [] ∧ isChunk (c.ownRow cfg).metadata = false) := by
  have hsingle : isChunk (c.singleRow cfg).metadata = false := by
    rw [isChunk, Upsert.singleRow, PyDict.field_put_self]
    rfl
  have honly (only : Option KnowledgeChunkSpec) : isChunk (c.onlyRow cfg only).metadata = false := by
    have hfield : (c.onlyRow cfg only).metadata.field "is_chunk" = .bool false := by
      simp [Upsert.onlyRow, PyDict.field_put_ne]
    rw [isChunk, hfield]
    rfl
  have hparent (count : ℕ) : isParentCatalogRow (c.parentRow cfg count).metadata = true := by
    have hfield : (c.parentRow cfg count).metadata.field "is_parent" = .bool true := by
      simp [Upsert.parentRow, PyDict.field_put_ne]
    rw [isParentCatalogRow, hfield]
    rfl
  rw [Upsert.rows, Upsert.ownRow]
  split_ifs
  · exact ⟨[], rfl, Or.inr ⟨rfl, hsingle⟩⟩
  · cases c.chunks cfg with
    | nil => exact ⟨[], rfl, Or.inr ⟨rfl, honly none⟩⟩
    | cons only rest =>
      cases rest with
      | nil => exact ⟨[], rfl, Or.inr ⟨rfl, honly (some only)⟩⟩
      | cons spec rest => exact ⟨_, rfl, Or.inl (hparent _)⟩

theorem not_startswith_self (d : Text) : startswith d (chunkPrefix d) = false := by
  rw [startswith, Bool.eq_false_iff]
  intro h
  have hle := (List.isPrefixOf_iff_prefix.1 h).length_le
  rw [chunkPrefix, List.length_append] at hle
  have hpos : 0 < "__c".toList.length := by decide
  omega

/-- READ BACK: what is read is the document's own row. -/
theorem getDocument_upsert :
    getDocument (upsertDocument cfg t c).1 (upsertDocument cfg t c).2 = some (c.ownRow cfg).document := by
  obtain ⟨rest, hrows, hkind⟩ := rows_eq_cons cfg c
  have hall := rows_upsert cfg t c
  rw [hrows] at hall
  have hfetch : (upsertDocument cfg t c).1.fetch c.did = some (c.ownRow cfg) := by
    rw [Table.fetch, hall, List.find?_append, List.find?_eq_none.2 fun r hr => ?_, Option.none_or,
      List.find?_cons_of_pos (by simp [ownRow_docId])]
    simpa using (not_takenBy (List.mem_filter.1 hr).2).1
  rw [upsert_id, getDocument, hfetch, Option.map_some]
  rcases hkind with hparent | ⟨rfl, hchunk⟩
  · rw [if_pos hparent]
  · have hnone : (upsertDocument cfg t c).1.childChunkIds c.did = [] := by
      rw [Table.childChunkIds, hall, List.filter_append, List.map_eq_nil_iff, List.append_eq_nil_iff]
      constructor
      · refine List.filter_eq_nil_iff.2 fun r hr => ?_
        have htaken := (List.mem_filter.1 hr).2
        simp only [Row.takenBy, Bool.not_or, Bool.and_eq_true, Bool.not_eq_true'] at htaken
        simp [htaken.2]
      · refine List.filter_eq_nil_iff.2 fun r hr => ?_
        rw [List.mem_singleton.1 hr, Row.childOf, ownRow_docId, not_startswith_self, hchunk]
        simp
    rw [hnone]
    split_ifs <;> rfl

/-- A document comes back as it was given just where its own row has its content. -/
theorem roundTrips_iff : RoundTrips cfg t c ↔ (c.ownRow cfg).content = c.content := by
  rw [RoundTrips, getDocument_upsert]
  constructor
  · rintro ⟨d, hd, -, hcontent⟩
    cases hd
    exact hcontent
  · exact fun h => ⟨_, rfl, ownRow_title cfg c, h⟩

end

namespace Chunker
open Symbols Regex

variable {α : Type*} [Symbol α] {maxChars overlapChars : ℕ} {t : List α}

/-! ### A text that comes in one piece -/

/-- The pieces are not longer than the limit, or there are two that have some text. -/
def Slim (maxChars : ℕ) (parts : List (List α)) : Prop :=
  (∀ q ∈ parts, q.length ≤ maxChars) ∨ 2 ≤ (bodies parts).length

theorem Slim.append {l m : List (List α)} (hl : Slim maxChars l) (hm : Slim maxChars m) : Slim maxChars (l ++ m) := by
  have hbodies := congrArg List.length (bodies_append l m)
  rw [List.length_append] at hbodies
  rcases hl with hl | hl
  · rcases hm with hm | hm
    · exact Or.inl (List.forall_mem_append.2 ⟨hl, hm⟩)
    · exact Or.inr (by omega)
  · exact Or.inr (by omega)

theorem Slim.flatMap {β : Type*} {f : β → List (List α)} : ∀ {bs : List β}, (∀ b ∈ bs, Slim maxChars (f b)) →
    Slim maxChars (bs.flatMap f)
  | [], _ => Or.inl fun q hq => nomatch hq
  | b :: bs, h => by
      rw [List.forall_mem_cons] at h
      rw [List.flatMap_cons]
      exact h.1.append (Slim.flatMap h.2)

/-- The only text there is, is not longer than the limit. -/
theorem Slim.length_le {parts : List (List α)} {b : List α} (h : Slim maxChars parts) (hb : bodies parts = [b]) :
    b.length ≤ maxChars := by
  rcases h with h | h
  · obtain ⟨q, hq, rfl⟩ := mem_bodies (hb ▸ List.mem_singleton_self b : b ∈ bodies parts)
    exact (strip_sublist q).length_le.trans (h q hq)
  · rw [hb, List.length_singleton] at h
    omega

/-- What is packed fits, or follows a piece with some text. -/
structure Packs (maxChars : ℕ) (p : Packing α) : Prop where
  tight : ∀ q ∈ p.current, Tight q
  slim : Slim maxChars p.parts
  fits : bodies p.parts ≠ [] ∨ p.currentLen = (joinBlank p.current).length ∧ p.currentLen ≤ maxChars

theorem Packs.start : Packs maxChars ({} : Packing α) := by
  refine ⟨(fun q hq => nomatch hq), Or.inl (fun q hq => nomatch hq), Or.inr ⟨?_, Nat.zero_le _⟩⟩
  rw [joinBlank, List.intercalate_nil]
  rfl

theorem bodies_flush_ne_nil {p : Packing α} (h : ∀ q ∈ p.current, Tight q) (hne : p.current ≠ []) :
    bodies (flush overlapChars p).parts ≠ [] := by
  rw [flush_parts hne, bodies_append, bodies_tight (tight_joinBlank hne h)]
  exact List.append_ne_nil_of_right_ne_nil _ (List.cons_ne_nil _ _)

theorem Packs.flush {p : Packing α} (h : Packs maxChars p) : Packs maxChars (flush overlapChars p) := by
  by_cases hnil : p.current = []
  · rwa [flush_nothing hnil]
  have hjoined := tight_joinBlank hnil h.tight
  refine ⟨?_, ?_, Or.inl (bodies_flush_ne_nil h.tight hnil)⟩
  · by_cases hcarry : 0 < overlapChars ∧ 1 < p.current.length
    · rw [flush_carries hcarry.1 hcarry.2 h.tight, List.forall_mem_singleton]
      exact tight_carried hcarry.1 hjoined
    · rw [flush_plain hnil hcarry]
      exact fun q hq => nomatch hq
  · rw [flush_parts hnil]
    rcases h.fits with htext | ⟨hlen, hfits⟩
    · refine Or.inr ?_
      have hpos := List.length_pos_iff.2 htext
      rw [bodies_append, bodies_tight hjoined, List.length_append, List.length_singleton]
      omega
    · refine h.slim.append (Or.inl ?_)
      rw [List.forall_mem_singleton]
      omega

/-- STEP: one more paragraph. -/
theorem Packs.paragraph {p : Packing α} (h : Packs maxChars p) {para : List α} (hpara : Tight para) :
    Packs maxChars (packParagraph maxChars overlapChars p para) := by
  have hconcat {ps : List (List α)} (hps : ∀ q ∈ ps, Tight q) : ∀ q ∈ ps ++ [para], Tight q :=
    List.forall_mem_append.2 ⟨hps, by rwa [List.forall_mem_singleton]⟩
  by_cases hlong : maxChars < para.length
  · rw [packParagraph_cuts hlong]
    have htwice : Packs maxChars (Chunker.flush overlapChars (Chunker.flush overlapChars p)) := h.flush.flush
    refine ⟨htwice.tight, htwice.slim.append (Or.inl (length_hardSplit_le para)), ?_⟩
    rcases htwice.fits with htext | hfits
    · rw [bodies_append]
      exact Or.inl (List.append_ne_nil_of_left_ne_nil htext _)
    · exact Or.inr hfits
  · have hlen := Nat.not_lt.1 hlong
    by_cases hroom : p.current = [] ∨ p.currentLen + (para.length + 2) ≤ maxChars
    · obtain ⟨n, heq, hn⟩ := @packParagraph_joins _ _ maxChars overlapChars p para hlen hroom
      rw [heq]
      refine ⟨hconcat h.tight, h.slim, ?_⟩
      rcases h.fits with htext | ⟨hcount, hfits⟩
      · exact Or.inl htext
      · refine Or.inr ?_
        by_cases hnil : p.current = []
        · have hzero : p.currentLen = 0 := by
            rw [hcount, hnil, joinBlank, List.intercalate_nil]
            rfl
          rw [hnil, List.nil_append, joinBlank_singleton, hn, hnil, hzero]
          simp [hlen]
        · have hroom := hroom.resolve_left hnil
          dsimp only
          rw [length_joinBlank_concat hnil, hn, if_neg fun hempty => hnil (List.isEmpty_iff.1 hempty)]
          omega
    · rw [not_or, Nat.not_le] at hroom
      rw [packParagraph_flushes hlen hroom.1 hroom.2]
      have hflush : Packs maxChars (Chunker.flush overlapChars p) := h.flush
      exact ⟨hconcat hflush.tight, hflush.slim, Or.inl (bodies_flush_ne_nil h.tight hroom.1)⟩

theorem Packs.foldl : ∀ {paras : List (List α)} {p : Packing α}, Packs maxChars p → (∀ q ∈ paras, Tight q) →
    Packs maxChars (paras.foldl (packParagraph maxChars overlapChars) p)
  | [], _, h, _ => h
  | para :: paras, p, h, hparas => by
      rw [List.forall_mem_cons] at hparas
      exact (h.paragraph hparas.1).foldl hparas.2

theorem slim_paragraphs (text : List α) : Slim maxChars (splitParagraphsWithOverlap maxChars overlapChars text) :=
  ((Packs.start.foldl fun _ hq => tight_paragraph hq).flush).slim

theorem slim_singleton {q : List α} (h : q.length ≤ maxChars) : Slim maxChars [q] :=
  Or.inl (by rwa [List.forall_mem_singleton])

/-- The pieces of code. -/
theorem slim_code (isWord : Char → Bool) (hmax : 0 < maxChars) (text : List α) :
    Slim maxChars (splitCodeBlocks isWord maxChars overlapChars text) := by
  rw [splitCodeBlocks]
  generalize hstrip : strip text = t
  have hblocks := blocksOf ((codeBlockPattern isWord).stand_finditer (chars t))
  revert hblocks
  generalize (codeBlockPattern isWord).finditer (chars t) = ms
  dsimp only
  generalize (if (strip (t.take (nextStart t ms))).isEmpty then [] else [strip (t.take (nextStart t ms))]) ++
    codeBlocks t ms = blocks
  intro hblocks
  split_ifs with hnil hone _ hnone
  · exact Or.inl fun q hq => absurd hq List.not_mem_nil
  · exact slim_singleton hone.2
  · exact slim_paragraphs t
  · -- the blocks have the whole text, so they are not all lost
    have hsolid := normalized_covers hmax overlapChars blocks
    rw [List.isEmpty_iff.1 hnone, hblocks.solid_eq] at hsolid
    have hblank : solid t = [] := List.eq_nil_of_sublist_nil hsolid
    rw [← hstrip, solid_strip, ← strip_eq_nil_iff_solid, hstrip] at hblank
    exact absurd (List.isEmpty_iff.2 hblank) hnil
  · refine Slim.flatMap fun block _ => ?_
    split_ifs with hblock
    · exact slim_singleton hblock
    · exact slim_paragraphs block

/-- The pieces of a section. -/
theorem slim_section (cfg : ChunkSettings) (domain : Text) (body : List α) :
    Slim (domainChunkLimits cfg domain).1 (sectionPieces cfg domain body) := by
  rw [sectionPieces]
  split_ifs with hcode hshort
  · exact slim_code cfg.isWord (limit_pos cfg domain) body
  · exact slim_singleton hshort
  · exact slim_paragraphs body

/-! ### A section that fits -/

theorem strip_infix (q : List α) : strip q <:+: q :=
  (List.rdropWhile_prefix _ (lstrip q)).isInfix.trans (List.dropWhile_suffix _).isInfix

theorem slice_infix {α : Type*} (t : List α) (i j : ℕ) : Symbols.slice t i j <:+: t :=
  (List.drop_suffix i _).isInfix.trans (List.take_prefix j t).isInfix

theorem codeBlocks_infix {ms : List Match} : ∀ b ∈ codeBlocks t ms, b <:+: t := by
  induction ms with
  | nil => exact fun b hb => nomatch hb
  | cons m ms ih =>
    intro b hb
    rw [codeBlocks] at hb
    split_ifs at hb
    · exact ih b hb
    · rcases List.mem_cons.1 hb with rfl | hb
      · exact List.IsInfix.trans ( strip_infix _) ( slice_infix t _ _)
      · exact ih b hb

/-- A part of a tight text that has all there is to see of it. -/
theorem Tight.eq_of_infix {b : List α} (h : Tight t) (hpart : b <:+: t) (hsolid : solid b = solid t) : b = t := by
  obtain ⟨before, after, rfl⟩ := hpart
  obtain ⟨-, hhead, hlast⟩ := tight_iff.1 h
  have hlen := congrArg List.length hsolid
  rw [solid_append, solid_append, List.length_append, List.length_append] at hlen
  have hbefore : solid before = [] := List.eq_nil_of_length_eq_zero (by omega)
  have hafter : solid after = [] := List.eq_nil_of_length_eq_zero (by omega)
  rw [solid_eq_nil_iff] at hbefore hafter
  have hno : before = [] := by
    cases before with
    | nil => rfl
    | cons a before =>
      have hspace := hbefore a List.mem_cons_self
      rw [hhead a (by simp)] at hspace
      cases hspace
  have hnone : after = [] := by
    cases after using List.reverseRecOn with
    | nil => rfl
    | append_singleton after a =>
      have hspace := hafter a (by simp)
      rw [hlast a (by simp)] at hspace
      cases hspace
  rw [hno, hnone, List.append_nil, List.nil_append]

theorem solid_bodies (parts : List (List α)) : solid (bodies parts).flatten = solid parts.flatten :=
  solid_filter_strip parts

/-- The only text of a section that fits is the section. -/
theorem section_whole {cfg : ChunkSettings} {domain : Text} {body b : List α} (h : Tight body)
    (hfits : body.length ≤ (domainChunkLimits cfg domain).1) (hb : bodies (sectionPieces cfg domain body) = [b]) :
    b = body := by
  have hself : bodies [body] = [b] → b = body := by
    rw [bodies_tight h]
    rintro ⟨⟩
    rfl
  rw [sectionPieces] at hb
  split_ifs at hb
  · revert hb
    rw [splitCodeBlocks, h.strip_eq]
    have hblocks := blocksOf ((codeBlockPattern cfg.isWord).stand_finditer (chars body))
    revert hblocks
    generalize (codeBlockPattern cfg.isWord).finditer (chars body) = ms
    dsimp only
    have hparts : ∀ q ∈ (if (strip (body.take (nextStart body ms))).isEmpty then []
        else [strip (body.take (nextStart body ms))]) ++ codeBlocks body ms, q <:+: body := by
      rw [List.forall_mem_append]
      refine ⟨?_, codeBlocks_infix⟩
      split_ifs
      · exact fun q hq => absurd hq List.not_mem_nil
      · rw [List.forall_mem_singleton]
        exact List.IsInfix.trans ( strip_infix _) (List.take_prefix _ _).isInfix
    revert hparts
    generalize (if (strip (body.take (nextStart body ms))).isEmpty then []
      else [strip (body.take (nextStart body ms))]) ++ codeBlocks body ms = blocks
    intro hparts hblocks
    have hkept : (blocks.flatMap fun block => if block.length ≤ (domainChunkLimits cfg domain).1 then [block]
        else splitParagraphsWithOverlap (domainChunkLimits cfg domain).1 (domainChunkLimits cfg domain).2 block) =
        blocks := by
      rw [List.flatMap_congr fun block hblock => if_pos ((hparts block hblock).length_le.trans hfits),
        List.flatMap_singleton']
    rw [hkept]
    split_ifs with hnil hone hno hnone
    · exact absurd (List.isEmpty_iff.1 hnil) h.ne_nil
    · exact hself
    · rw [List.isEmpty_iff.1 hno] at hone
      exact absurd ⟨Nat.two_pos, hfits⟩ hone
    · exact hself
    · intro hb
      obtain ⟨q, hq, rfl⟩ := mem_bodies (hb ▸ List.mem_singleton_self b : b ∈ bodies blocks)
      refine h.eq_of_infix (List.IsInfix.trans ( strip_infix q) (hparts q hq)) ?_
      rw [← hblocks.solid_eq, ← solid_bodies, hb, List.flatten_singleton]
  · exact hself hb

/-! ### The sections of a document -/

/-- There are no headings, or nothing else. -/
def OneSection (text : List α) : Prop := headingPattern.finditer (chars text) = [] ∨ OnlyHeadings text

theorem heading_stop {m : Match} {texts : List Text} (hlang : List.Forall₂ Lang headingPattern.parts texts)
    (hparts : m.parts = texts.map List.length) : m.start < m.stop := by
  obtain ⟨marks, rest, hmarks, rfl⟩ : ∃ marks rest, marks ≠ [] ∧ texts = marks :: rest := by
    rcases hlang with _ | ⟨hmarks, _⟩
    exact ⟨_, _, List.ne_nil_of_length_pos hmarks.2.1, rfl⟩
  rw [sum_parts hparts, List.flatten_cons, List.length_append]
  have hpos := List.length_pos_iff.2 hmarks
  omega

/-- The sections under the headings are shorter than the text. -/
theorem headingSections_short {ms : List Match} : ∀ {i : ℕ}, Stand headingPattern (chars t) i ms →
    ∀ sec ∈ headingSections t ms, Tight sec.2 ∧ sec.2.length < t.length := by
  induction ms with
  | nil => exact fun _ sec hsec => nomatch hsec
  | cons m ms ih =>
    intro i h sec hsec
    cases h with
    | cons texts hi hlang hparts hpre hrest =>
      rw [headingSections] at hsec
      split_ifs at hsec with hempty
      · exact ih hrest sec hsec
      · rcases List.mem_cons.1 hsec with rfl | hsec
        · refine ⟨⟨strip_strip _, fun hnil => hempty (List.isEmpty_iff.2 hnil)⟩, ?_⟩
          have hstop := heading_stop hlang hparts
          have hnext := le_nextStart hrest
          have hlen := (strip_sublist (Symbols.slice t m.stop (nextStart t ms))).length_le
          rw [Symbols.slice, List.length_drop, List.length_take] at hlen
          dsimp only
          rw [Symbols.slice]
          omega
        · exact ih hrest sec hsec

theorem nextStart_lt {ms : List Match} {i : ℕ} (h : Stand headingPattern (chars t) i ms) (hne : ms ≠ []) :
    nextStart t ms < t.length := by
  cases h with
  | nil hi => exact absurd rfl hne
  | cons texts hi hlang hparts hpre hrest =>
    have hstop := heading_stop hlang hparts
    have hend := le_nextStart hrest
    rw [nextStart, List.head?_cons, Option.elim_some]
    omega

theorem prefixSection_short {ms : List Match} {i : ℕ} (h : Stand headingPattern (chars t) i ms) (hne : ms ≠ []) :
    ∀ sec ∈ prefixSection t ms, Tight sec.2 ∧ sec.2.length < t.length := by
  intro sec hsec
  rw [prefixSection] at hsec
  split_ifs at hsec with hempty
  · cases hsec
  · rw [List.mem_singleton.1 hsec]
    refine ⟨⟨strip_strip _, fun hnil => hempty (List.isEmpty_iff.2 hnil)⟩, ?_⟩
    have hlen := (strip_sublist (t.take (nextStart t ms))).length_le
    rw [List.length_take] at hlen
    exact hlen.trans_lt (min_lt_of_left_lt (nextStart_lt h hne))

/-- The sections of a text: the text itself, or each is shorter. -/
theorem sections_cases (ht : Tight t) : OneSection t ∧ splitByHeadings t = [([], t)] ∨
    ¬ OneSection t ∧ splitByHeadings t ≠ [] ∧ ∀ sec ∈ splitByHeadings t, Tight sec.2 ∧ sec.2.length < t.length := by
  have honly := @sections_eq_nil_iff _ _ t
  have hstand := headingPattern.stand_finditer (chars t)
  rw [OneSection, splitByHeadings, ht.strip_eq, if_neg fun h => ht.ne_nil (List.isEmpty_iff.1 h)]
  revert honly hstand
  generalize headingPattern.finditer (chars t) = ms
  intro honly hstand
  dsimp only
  by_cases hnone : ms = []
  · rw [if_pos (List.isEmpty_iff.2 hnone)]
    exact Or.inl ⟨Or.inl hnone, rfl⟩
  rw [if_neg fun h => hnone (List.isEmpty_iff.1 h)]
  by_cases hnil : prefixSection t ms ++ headingSections t ms = []
  · rw [if_pos (List.isEmpty_iff.2 hnil)]
    exact Or.inl ⟨Or.inr (honly.1 hnil), rfl⟩
  · rw [if_neg fun h => hnil (List.isEmpty_iff.1 h)]
    refine Or.inr ⟨not_or.2 ⟨hnone, fun h => hnil (honly.2 h)⟩, hnil, ?_⟩
    exact List.forall_mem_append.2 ⟨prefixSection_short hstand hnone, headingSections_short hstand⟩

/-- The pieces of a text. -/
def textPieces (cfg : ChunkSettings) (domain : Text) (text : List α) : List (List α) :=
  (splitByHeadings text).flatMap fun sec => bodies (sectionPieces cfg domain sec.2)

theorem bodies_section_ne_nil (cfg : ChunkSettings) (domain : Text) {body : List α} (h : Tight body) :
    bodies (sectionPieces cfg domain body) ≠ [] := by
  intro hnil
  have hcovers := sectionPieces_covers cfg domain body
  rw [← solid_bodies, hnil] at hcovers
  exact h.solid_ne_nil (List.eq_nil_of_sublist_nil hcovers)

/-- A text comes in pieces. -/
theorem textPieces_ne_nil (cfg : ChunkSettings) (domain : Text) (ht : Tight t) : textPieces cfg domain t ≠ [] := by
  rw [textPieces]
  rcases sections_cases ht with ⟨-, heq⟩ | ⟨-, hne, hshort⟩
  · rw [heq, List.flatMap_singleton]
    exact bodies_section_ne_nil cfg domain ht
  · obtain ⟨sec, secs, heq⟩ := List.exists_cons_of_ne_nil hne
    rw [heq] at hshort ⊢
    rw [List.forall_mem_cons] at hshort
    rw [List.flatMap_cons]
    exact List.append_ne_nil_of_left_ne_nil (bodies_section_ne_nil cfg domain hshort.1.1) _

/-- A text that comes in one piece comes whole just where it is one section, and fits. -/
theorem onePiece_whole_iff {cfg : ChunkSettings} {domain : Text} {b : List α} (ht : Tight t)
    (hb : textPieces cfg domain t = [b]) :
    b = t ↔ OneSection t ∧ t.length ≤ (domainChunkLimits cfg domain).1 := by
  rw [textPieces] at hb
  rcases sections_cases ht with ⟨hone, heq⟩ | ⟨hmany, -, hshort⟩
  · rw [heq, List.flatMap_singleton] at hb
    rw [and_iff_right hone]
    constructor
    · rintro rfl
      exact (slim_section cfg domain b).length_le hb
    · exact fun hfits => section_whole ht hfits hb
  · rw [iff_false_intro (fun h => hmany h.1 : ¬ (OneSection t ∧ _)), iff_false]
    rintro rfl
    obtain ⟨sec, hsec, hmem⟩ := List.mem_flatMap.1 (hb ▸ List.mem_singleton_self b : b ∈ _)
    have hpart := List.sublist_flatten_of_mem (List.mem_map_of_mem hsec
      (f := fun sec => bodies (sectionPieces cfg domain sec.2)))
    rw [← List.flatMap_def, hb, List.sublist_singleton] at hpart
    obtain ⟨htight, hless⟩ := hshort sec hsec
    have hone := hpart.resolve_left (bodies_section_ne_nil cfg domain htight)
    have hlen := (slim_section cfg domain sec.2).length_le hone
    rw [← section_whole htight (hless.le.trans hlen) hone] at hless
    exact absurd hless (lt_irrefl _)

/-! ### The chunks of a document -/

theorem foldl_addPiece (docTitle : Text) (title : List α) : ∀ (pieces : List (List α)) (cs : List (Chunk α)) (n : ℕ),
    pieces.foldl (addPiece docTitle title) (cs, n) =
      (cs ++ ((bodies pieces).zipIdx n).map fun p => chunkOf docTitle p.2 title p.1, n + (bodies pieces).length)
  | [], cs, n => by simp [bodies]
  | piece :: pieces, cs, n => by
      have hsplit : bodies (piece :: pieces) = bodies [piece] ++ bodies pieces := bodies_append [piece] pieces
      rw [List.foldl_cons, hsplit]
      by_cases hempty : (strip piece).isEmpty
      · rw [addPiece, if_pos hempty, foldl_addPiece docTitle title pieces cs n]
        simp [bodies, hempty]
      · rw [addPiece, if_neg hempty, foldl_addPiece docTitle title pieces _ (n + 1)]
        simp [bodies, hempty]
        omega

/-- The chunks of the sections are their pieces, with the numbers. -/
theorem sectionChunks_eq (cfg : ChunkSettings) (docTitle domain : Text) (secs : List (List α × List α)) :
    sectionChunks cfg docTitle domain secs =
      (secs.flatMap (sectionRows cfg domain)).zipIdx.map fun p => chunkOf docTitle p.2 p.1.1 p.1.2 := by
  have hrun : ∀ (secs : List (List α × List α)) (cs : List (Chunk α)) (n : ℕ),
      (secs.foldl (fun s sec => (sectionPieces cfg domain sec.2).foldl (addPiece docTitle sec.1) s) (cs, n)).1 =
        cs ++ ((secs.flatMap (sectionRows cfg domain)).zipIdx n).map fun p => chunkOf docTitle p.2 p.1.1 p.1.2 := by
    intro secs
    induction secs with
    | nil => simp
    | cons sec secs ih =>
      intro cs n
      have hrows : sectionRows cfg domain sec = (bodies (sectionPieces cfg domain sec.2)).map fun p => (sec.1, p) := rfl
      rw [List.foldl_cons, foldl_addPiece, ih, List.flatMap_cons, List.zipIdx_append, List.map_append, hrows,
        List.zipIdx_map, List.length_map, List.map_map, List.append_assoc]
      rfl
  rw [sectionChunks, hrun, List.nil_append]

end Chunker

/-! ### Documents and their chunks -/

/-- The settings of the catalogue, with the splitters of `knowledge_chunker.py`. -/
def chunkerConfig (s : Chunker.ChunkSettings) (enabled : Bool) (minChars : ℤ) : Config where
  chunkEnabled := enabled
  chunkMinChars := minChars
  lower := s.lower
  sections := fun domain body =>
    (Chunker.splitByHeadings body).flatMap fun sec =>
      (Chunker.sectionPieces s domain sec.2).map fun piece => (sec.1, piece)

section
variable (s : Chunker.ChunkSettings) (enabled : Bool) (minChars : ℤ)

/-- A chunk as the catalogue has it. -/
def specOf (c : Chunker.Chunk Char) : KnowledgeChunkSpec :=
  ⟨c.chunkIndex, c.sectionTitle, c.body, c.embedText, c.tokenCount⟩

theorem specOf_chunk (docTitle : Text) (i : ℕ) (title body : Text) :
    specOf (Chunker.chunkOf docTitle i title body) =
      ⟨i, title, body, buildEmbedText docTitle title body, estimateTokens body⟩ := by
  have hchars (t : Text) : Symbols.chars t = t := List.map_id t
  rw [specOf, Chunker.chunkOf, hchars, hchars, buildEmbedText, Chunker.buildEmbedText]
  dsimp only
  split_ifs <;> rfl

/-- The pieces with some text. -/
theorem sections_pieces (domain : Text) (secs : List (Text × Text)) :
    ((secs.flatMap fun sec => (Chunker.sectionPieces s domain sec.2).map fun piece => (sec.1, piece)).map
      fun p => (p.1, strip p.2)).filter (fun p => p.2 ≠ []) = secs.flatMap (Chunker.sectionRows s domain) := by
  induction secs with
  | nil => rfl
  | cons sec secs ih =>
    rw [List.flatMap_cons, List.map_append, List.filter_append, ih, List.flatMap_cons]
    refine congrArg (· ++ _) ?_
    rw [Chunker.sectionRows, Chunker.strippedPieces]
    induction Chunker.sectionPieces s domain sec.2 with
    | nil => rfl
    | cons piece pieces ih =>
      have hstrip : Symbols.strip piece = strip piece := rfl
      rw [List.map_cons, List.map_cons, List.map_cons, List.filter_cons, List.filter_cons, ih, hstrip]
      by_cases hempty : strip piece = []
      · simp [hempty]
      · simp [hempty]

/-- REFINEMENT: the catalogue's chunks are those of the chunker. -/
theorem chunkDocument_chunker (title content domain : Text) :
    chunkDocument (chunkerConfig s enabled minChars) title content domain =
      (Chunker.chunkDocument s title content domain).map specOf := by
  have hstrip : Symbols.strip content = strip content := rfl
  rw [chunkDocument, Chunker.chunkDocument, hstrip]
  by_cases hempty : strip content = []
  · rw [if_pos hempty, if_pos (List.isEmpty_iff.2 hempty)]
    rfl
  rw [if_neg hempty, if_neg fun h => hempty (List.isEmpty_iff.1 h)]
  dsimp only [chunkerConfig]
  rw [sections_pieces, Chunker.sectionChunks_eq]
  generalize (if strip title = [] then "未命名文档".toList else strip title) = docTitle
  generalize (Chunker.splitByHeadings (strip content)).flatMap (Chunker.sectionRows s domain) = rows
  cases rows with
  | nil =>
    rw [if_pos rfl]
    exact congrArg (· :: []) (specOf_chunk docTitle 0 [] (strip content)).symm
  | cons row rows =>
    rw [if_neg (List.cons_ne_nil _ _), if_neg (by simp), List.map_map]
    exact List.map_congr_left fun p _ => (specOf_chunk docTitle p.2 p.1.1 p.1.2).symm

/-- The bodies of the chunks are the pieces of the text. -/
theorem bodies_chunks (title domain : Text) {content : Text} (hne : strip content ≠ []) :
    (chunkDocument (chunkerConfig s enabled minChars) title content domain).map KnowledgeChunkSpec.body =
      Chunker.textPieces s domain (strip content) := by
  have htight : Chunker.Tight (strip content) := ⟨Symbols.strip_strip content, hne⟩
  have hrows : Chunker.textPieces s domain (strip content) =
      ((Chunker.splitByHeadings (strip content)).flatMap (Chunker.sectionRows s domain)).map Prod.snd := by
    rw [List.map_flatMap, Chunker.textPieces]
    refine List.flatMap_congr fun sec _ => ?_
    rw [Chunker.sectionRows, List.map_map]
    exact (List.map_id _).symm
  have hsome := Chunker.textPieces_ne_nil s domain htight
  rw [hrows] at hsome ⊢
  rw [chunkDocument, if_neg hne]
  dsimp only [chunkerConfig]
  rw [sections_pieces]
  generalize (Chunker.splitByHeadings (strip content)).flatMap (Chunker.sectionRows s domain) = rows at hsome
  have hne : rows ≠ [] := fun hnil => hsome (by rw [hnil, List.map_nil])
  rw [if_neg hne, List.map_map]
  calc
    _ = (rows.zipIdx.map Prod.fst).map Prod.snd := by
      rw [List.map_map]
      rfl
    _ = rows.map Prod.snd := by rw [List.zipIdx_map_fst]

theorem strip_of_textPieces {domain text b : Text} (h : b ∈ Chunker.textPieces s domain text) : strip b = b := by
  obtain ⟨sec, _, hb⟩ := List.mem_flatMap.1 h
  obtain ⟨q, _, rfl⟩ := Chunker.mem_bodies hb
  exact Symbols.strip_strip q

/-- A document comes back as it was given just where it is not chunked, has no text, comes in several pieces, or is
    one section that fits with no whitespace around it. -/
theorem reads_back_iff (t : Table) (c : Upsert) :
    RoundTrips (chunkerConfig s enabled minChars) t c ↔
      shouldChunk (chunkerConfig s enabled minChars) c.content (c.meta (chunkerConfig s enabled minChars)) = false ∨
      strip c.content = [] ∨
      2 ≤ (Chunker.textPieces s (c.domain (chunkerConfig s enabled minChars)) (strip c.content)).length ∨
      strip c.content = c.content ∧ Chunker.OneSection c.content ∧
        c.content.length ≤ (Chunker.domainChunkLimits s (c.domain (chunkerConfig s enabled minChars))).1 := by
  rw [roundTrips_iff, Upsert.ownRow]
  by_cases hshould : shouldChunk (chunkerConfig s enabled minChars) c.content
      (c.meta (chunkerConfig s enabled minChars)) = false
  · rw [hshould]
    exact iff_of_true rfl (Or.inl rfl)
  rw [if_neg (by simpa using hshould), or_iff_right hshould]
  by_cases hempty : strip c.content = []
  · have hnone : c.chunks (chunkerConfig s enabled minChars) = [] := by
      rw [Upsert.chunks, chunkDocument, if_pos hempty]
    rw [hnone]
    exact iff_of_true rfl (Or.inl hempty)
  have hbodies := bodies_chunks s enabled minChars c.title (c.domain (chunkerConfig s enabled minChars)) hempty
  have htight : Chunker.Tight (strip c.content) := ⟨Symbols.strip_strip c.content, hempty⟩
  have hpieces := Chunker.textPieces_ne_nil s (c.domain (chunkerConfig s enabled minChars)) htight
  rw [or_iff_right hempty]
  change (c.chunks (chunkerConfig s enabled minChars)).map KnowledgeChunkSpec.body = _ at hbodies
  rw [← hbodies] at hpieces ⊢
  rcases hchunks : c.chunks (chunkerConfig s enabled minChars) with _ | ⟨only, _ | ⟨spec, rest⟩⟩
  · rw [hchunks] at hpieces
    exact absurd rfl hpieces
  · -- one chunk: its body is stored
    rw [hchunks, List.map_singleton] at hbodies
    have hwhole := Chunker.onePiece_whole_iff htight hbodies.symm
    have hstored : (c.onlyRow (chunkerConfig s enabled minChars) (some only)).content = only.body := rfl
    rw [hstored, or_iff_right (by simp)]
    constructor
    · intro hbody
      have hstrip : strip c.content = c.content := by
        rw [← hbody]
        exact strip_of_textPieces s (hbodies ▸ List.mem_singleton_self only.body)
      rw [hstrip] at hwhole
      exact ⟨hstrip, hwhole.1 hbody⟩
    · rintro ⟨hstrip, hfits⟩
      rw [hstrip] at hwhole
      exact hwhole.2 hfits
  · refine iff_of_true rfl (Or.inl ?_)
    simp

end

/-- A heading and a text of 600 characters: one chunk, and only the text is stored. -/
theorem heading_not_stored : ¬ ∀ (s : Chunker.ChunkSettings) (enabled : Bool) (minChars : ℤ) (t : Table) (c : Upsert),
    RoundTrips (chunkerConfig s enabled minChars) t c := by
  intro h
  have hback := (roundTrips_iff _ _ _).1 (h Chunker.defaultSettings true 600 .empty
    ⟨"t".toList, "# T\n".toList ++ List.replicate 600 'a', .empty, some "d".toList, none, none, [], []⟩)
  exact absurd hback (by decide +kernel)

end AgentLangraph.Knowledge
