import AgentLangraph.Lib.Loop
import AgentLangraph.Knowledge.ChunkLoss

/-! How large the pieces of a section get, and what is new in them. The size is tested before a flush, and what
    the flush carries over is not counted again; a paragraph behind it that is too long flushes it by itself:

        [p q] r   ──flush──▶  [tail] r    tail and r may be longer than the limit
        [p q] R   ──flush──▶  [tail] R    ──flush──▶  the tail alone, then the pieces of R -/

namespace AgentLangraph.Knowledge.Chunker
open PyText (Text isSpace)
open Symbols Regex

/-! ### The terms of the result -/

section Terms

variable {α : Type*} [Symbol α]

/-- The pieces as the bodies of chunks. -/
def bodies (parts : List (List α)) : List (List α) := (parts.map strip).filter fun p => !p.isEmpty

/-- Each body has a symbol, not whitespace, that none before it has. -/
def NewText : List α → List (List α) → Prop
  | _, [] => True
  | seen, b :: bs => (∃ a ∈ solid b, a ∉ seen) ∧ NewText (seen ++ b) bs

/-- No body is too long, and none is made of overlap only. -/
structure PiecesHold (maxChars : ℕ) (parts : List (List α)) : Prop where
  bounded : ∀ b ∈ bodies parts, b.length ≤ maxChars
  fresh : NewText [] (bodies parts)

/-- One round of the loop over a paragraph that is too long. -/
def hardStep (maxChars overlapChars : ℕ) (para : List α) (s : List (List α) × ℕ) :
    (List (List α) × ℕ) ⊕ List (List α) :=
  if s.2 < para.length then
    let stop := min para.length (s.2 + maxChars)
    let parts := s.1 ++ [slice para s.2 stop]
    if para.length ≤ stop then .inr parts else .inl (parts, max (stop - overlapChars) (s.2 + 1))
  else .inr s.1

/-- What a flush carries over. -/
def carried (overlapChars : ℕ) (current : List (List α)) : List α :=
  lstrip ((joinBlank current).drop ((joinBlank current).length - overlapChars))

/-- Where packed paragraphs are flushed for the next one and something of them is carried over, the next one fits
    beside it. -/
def Room (maxChars overlapChars : ℕ) (p : Packing α) (para : List α) : Prop :=
  0 < overlapChars → 1 < p.current.length → maxChars < p.currentLen + (para.length + 2) →
    (carried overlapChars p.current).length + (para.length + 2) ≤ maxChars

/-- There is room at every seam. -/
def Roomy (maxChars overlapChars : ℕ) : Packing α → List (List α) → Prop
  | _, [] => True
  | p, para :: paras =>
    Room maxChars overlapChars p para ∧ Roomy maxChars overlapChars (packParagraph maxChars overlapChars p para) paras

/-- How far apart the pieces of a paragraph start. -/
def stride (maxChars overlapChars : ℕ) : ℕ := max 1 (maxChars - overlapChars)

/-- Of the pieces of a paragraph that is too long, each has text behind the one before it, unless it has none. -/
def AddsText (maxChars overlapChars : ℕ) (para : List α) : Prop :=
  ∀ k, maxChars + k * stride maxChars overlapChars < para.length →
    solid (slice para (maxChars + k * stride maxChars overlapChars)
      (maxChars + (k + 1) * stride maxChars overlapChars)) ≠ [] ∨
    solid (slice para ((k + 1) * stride maxChars overlapChars)
      (maxChars + (k + 1) * stride maxChars overlapChars)) = []

/-- The paragraphs of a section fit. -/
structure SplitsWell (maxChars overlapChars : ℕ) (text : List α) : Prop where
  seams : Roomy maxChars overlapChars ({} : Packing α) (paragraphs text)
  windows : ∀ para ∈ paragraphs text, maxChars < para.length → AddsText maxChars overlapChars para

end Terms

variable {α : Type*} [Symbol α] {t : List α} {maxChars overlapChars : ℕ} {p : Packing α}

/-! ### The loop over a long paragraph -/

theorem hardSplit_returns {α : Type*} (maxChars overlapChars : ℕ) (para : List α) :
    ∀ {fuel start : ℕ} (parts : List (List α)),
    para.length ≤ fuel + start → Loop.Returns (hardStep maxChars overlapChars para) (parts, start)
      (parts ++ hardSplit maxChars overlapChars para fuel start) := by
  intro fuel
  induction fuel with
  | zero =>
    intro start parts hfuel
    refine ⟨1, Loop.run_succ_inr ?_ 0⟩
    rw [hardStep, if_neg (by omega), hardSplit, List.append_nil]
  | succ fuel ih =>
    intro start parts hfuel
    rw [hardSplit]
    by_cases hend : para.length ≤ start
    · rw [if_pos hend, List.append_nil]
      exact ⟨1, Loop.run_succ_inr (by rw [hardStep, if_neg (by omega)]) 0⟩
    · rw [if_neg hend]
      dsimp only
      by_cases hlast : para.length ≤ min para.length (start + maxChars)
      · rw [if_pos hlast]
        refine ⟨1, Loop.run_succ_inr ?_ 0⟩
        rw [hardStep, if_pos (by omega)]
        exact if_pos hlast
      · rw [if_neg hlast]
        obtain ⟨n, hn⟩ := @ih (max (min para.length (start + maxChars) - overlapChars) (start + 1))
          (parts ++ [slice para start (min para.length (start + maxChars))]) (by omega)
        have hround : hardStep maxChars overlapChars para (parts, start) =
            .inl (parts ++ [slice para start (min para.length (start + maxChars))],
              max (min para.length (start + maxChars) - overlapChars) (start + 1)) := by
          rw [hardStep, if_pos (by omega)]
          exact if_neg hlast
        refine ⟨n + 1, ?_⟩
        rw [Loop.run_succ_inl hround, hn, List.append_assoc]
        rfl

/-! ### Bodies -/

theorem bodies_append (l m : List (List α)) : bodies (l ++ m) = bodies l ++ bodies m := by
  rw [bodies, List.map_append, List.filter_append]
  rfl

theorem newText_append (l m : List (List α)) : ∀ seen : List α,
    NewText seen (l ++ m) ↔ NewText seen l ∧ NewText (seen ++ l.flatten) m := by
  induction l with
  | nil => simp [NewText]
  | cons b l ih =>
    intro seen
    rw [List.cons_append, NewText, NewText, ih, and_assoc, List.flatten_cons, List.append_assoc]

theorem mem_bodies {parts : List (List α)} {b : List α} (h : b ∈ bodies parts) : ∃ q ∈ parts, b = strip q := by
  obtain ⟨q, hq, rfl⟩ := List.mem_map.1 (List.mem_of_mem_filter h)
  exact ⟨q, hq, rfl⟩

theorem bodies_subset (parts : List (List α)) : (bodies parts).flatten ⊆ parts.flatten := by
  intro a ha
  obtain ⟨b, hb, ha⟩ := List.mem_flatten.1 ha
  obtain ⟨q, hq, rfl⟩ := mem_bodies hb
  exact List.mem_flatten.2 ⟨q, hq, strip_subset q ha⟩

/-- The first pieces of pieces that hold. -/
theorem PiecesHold.of_prefix {parts parts' : List (List α)} (h : PiecesHold maxChars parts') (hpre : parts <+: parts') :
    PiecesHold maxChars parts := by
  obtain ⟨rest, rfl⟩ := hpre
  obtain ⟨hbounded, hfresh⟩ := h
  rw [bodies_append] at hbounded hfresh
  exact ⟨fun b hb => hbounded b (List.mem_append_left _ hb), ((newText_append _ _ _).1 hfresh).1⟩

/-- A text with something in it and no whitespace around it. -/
structure Tight (q : List α) : Prop where
  strip_eq : strip q = q
  ne_nil : q ≠ []

theorem Tight.solid_ne_nil {q : List α} (h : Tight q) : solid q ≠ [] := fun hnil =>
  h.ne_nil (by rw [← h.strip_eq]; exact strip_eq_nil_iff_solid.2 hnil)

theorem bodies_tight {q : List α} (h : Tight q) : bodies [q] = [q] := by
  rw [bodies, List.map_singleton, h.strip_eq, List.filter_cons_of_pos (by simpa using h.ne_nil)]
  rfl

/-- A piece more that is tight. -/
theorem pieces_push_iff {parts : List (List α)} {q : List α} (h : PiecesHold maxChars parts) (hq : Tight q) :
    PiecesHold maxChars (parts ++ [q]) ↔ q.length ≤ maxChars ∧ ∃ a ∈ solid q, a ∉ (bodies parts).flatten := by
  have happend : bodies (parts ++ [q]) = bodies parts ++ [q] := by rw [bodies_append, bodies_tight hq]
  constructor
  · rintro ⟨hbounded, hfresh⟩
    rw [happend] at hbounded hfresh
    exact ⟨hbounded q (List.mem_append_right _ List.mem_cons_self), ((newText_append _ _ _).1 hfresh).2.1⟩
  · rintro ⟨hlen, hnew⟩
    constructor
    · rw [happend, List.forall_mem_append, List.forall_mem_singleton]
      exact ⟨h.bounded, hlen⟩
    · rw [happend, newText_append]
      exact ⟨h.fresh, hnew, trivial⟩

/-! ### Packed paragraphs -/

theorem joinBlank_concat (para : List α) : ∀ {ps : List (List α)}, ps ≠ [] →
    joinBlank (ps ++ [para]) = joinBlank ps ++ (newline :: newline :: para)
  | [], h => absurd rfl h
  | [p], _ => by simp [joinBlank, List.intercalate_cons_cons, List.intercalate_singleton]
  | p :: q :: ps, _ => by
    have ih := joinBlank_concat para (List.cons_ne_nil q ps)
    rw [joinBlank, joinBlank] at ih
    rw [joinBlank, joinBlank, List.cons_append, List.cons_append, List.intercalate_cons_cons,
      List.intercalate_cons_cons, ← List.cons_append, ih]
    simp only [List.append_assoc]

theorem joinBlank_singleton (para : List α) : joinBlank [para] = para := by
  rw [joinBlank, List.intercalate_singleton]

/-- A text is tight where it neither begins nor ends with whitespace. -/
theorem tight_iff {q : List α} : Tight q ↔ q ≠ [] ∧ (∀ a ∈ q.head?, isSpace (char a) = false) ∧
    ∀ a ∈ q.getLast?, isSpace (char a) = false := by
  have hchars : strip q = q ↔ PyText.Tight (chars q) := by
    constructor
    · intro h
      have hstrip : PyText.strip (chars q) = chars q := by rw [← chars_strip, h]
      rw [← hstrip]
      exact PyText.tight_strip _
    · intro h
      refine (strip_sublist q).eq_of_length ?_
      have hstrip : chars (strip q) = chars q := by rw [chars_strip, h.strip_eq]
      rw [← length_chars, hstrip, length_chars]
  have hends : PyText.Tight (chars q) ↔ (∀ a ∈ q.head?, isSpace (char a) = false) ∧
      ∀ a ∈ q.getLast?, isSpace (char a) = false := by
    constructor
    · intro h
      refine ⟨fun a ha => h.head _ ?_, fun a ha => h.last _ ?_⟩
      · rw [chars, List.head?_map]
        exact Option.mem_map_of_mem char ha
      · rw [chars, List.getLast?_map]
        exact Option.mem_map_of_mem char ha
    · rintro ⟨hhead, hlast⟩
      constructor
      · intro c hc
        rw [chars, List.head?_map] at hc
        obtain ⟨a, ha, rfl⟩ := Option.mem_map.1 hc
        exact hhead a ha
      · intro c hc
        rw [chars, List.getLast?_map] at hc
        obtain ⟨a, ha, rfl⟩ := Option.mem_map.1 hc
        exact hlast a ha
  constructor
  · intro h
    exact ⟨h.ne_nil, hends.1 (hchars.1 h.strip_eq)⟩
  · rintro ⟨hne, h⟩
    exact ⟨hchars.2 (hends.2 h), hne⟩

/-- Tight paragraphs are tight when they are joined. -/
theorem tight_joinBlank : ∀ {ps : List (List α)}, ps ≠ [] → (∀ q ∈ ps, Tight q) → Tight (joinBlank ps)
  | [], h, _ => absurd rfl h
  | [q], _, hps => by
    rw [joinBlank_singleton]
    exact hps q List.mem_cons_self
  | q :: r :: ps, _, hps => by
    rw [List.forall_mem_cons] at hps
    have hq := tight_iff.1 hps.1
    have hrest := tight_iff.1 (tight_joinBlank (List.cons_ne_nil r ps) hps.2)
    rw [joinBlank] at hrest
    rw [joinBlank, List.intercalate_cons_cons, List.append_assoc, tight_iff]
    refine ⟨List.append_ne_nil_of_left_ne_nil hq.1 _, ?_, ?_⟩
    · rw [List.head?_append_of_ne_nil _ hq.1]
      exact hq.2.1
    · rw [← List.append_assoc, List.getLast?_append_of_ne_nil _ hrest.1]
      exact hrest.2.2

/-- What is carried over of tight text is tight. -/
theorem tight_carried (hoverlap : 0 < overlapChars) {ps : List (List α)} (h : Tight (joinBlank ps)) :
    Tight (carried overlapChars ps) := by
  obtain ⟨hne, -, hlast⟩ := tight_iff.1 h
  rw [carried]
  generalize joinBlank ps = tail at hne hlast
  have hsuffix : lstrip (tail.drop (tail.length - overlapChars)) <:+ tail :=
    (List.dropWhile_suffix _).trans (List.drop_suffix _ _)
  -- the last symbol is in the overlap, and is not taken off
  have hkept : lstrip (tail.drop (tail.length - overlapChars)) ≠ [] := by
    intro hnil
    have hspace := List.dropWhile_eq_nil_iff.1 hnil
    have hin : tail.getLast hne ∈ tail.drop (tail.length - overlapChars) := by
      have hlen := List.length_pos_iff.2 hne
      have hdrop : tail.drop (tail.length - overlapChars) ≠ [] := by
        rw [ne_eq, List.drop_eq_nil_iff]
        omega
      rw [← List.getLast_drop hdrop]
      exact List.getLast_mem hdrop
    have hsolid := hlast _ (List.getLast_mem_getLast? hne)
    have htrue := hspace _ hin
    rw [hsolid] at htrue
    cases htrue
  rw [tight_iff]
  refine ⟨hkept, fun a ha => ?_, fun a ha => hlast a ?_⟩
  · have hhead := List.head?_dropWhile_not (fun a : α => isSpace (char a)) (tail.drop (tail.length - overlapChars))
    rw [lstrip] at ha
    rw [Option.mem_def.1 ha] at hhead
    exact hhead
  · obtain ⟨pre, hpre⟩ := hsuffix
    rw [← hpre, List.getLast?_append_of_ne_nil _ hkept]
    exact ha

theorem carried_subset (overlapChars : ℕ) (ps : List (List α)) : carried overlapChars ps ⊆ joinBlank ps :=
  ((List.dropWhile_suffix _).trans (List.drop_suffix _ _)).subset

/-- A flush that carries something over. -/
theorem flush_carries {p : Packing α} (hoverlap : 0 < overlapChars) (hmany : 1 < p.current.length)
    (hps : ∀ q ∈ p.current, Tight q) : flush overlapChars p =
      ⟨p.parts ++ [joinBlank p.current], [carried overlapChars p.current],
        (carried overlapChars p.current).length⟩ := by
  have hne : p.current ≠ [] := by
    rintro hnil
    simp [hnil] at hmany
  have hcarried := (tight_carried hoverlap (tight_joinBlank hne hps)).ne_nil
  rw [flush, if_neg fun h => hne (List.isEmpty_iff.1 h)]
  dsimp only
  rw [if_pos ⟨hoverlap, hmany⟩]
  rw [carried] at hcarried ⊢
  rw [if_neg fun h => hcarried (List.isEmpty_iff.1 h)]

/-- A flush that carries nothing over. -/
theorem flush_plain {p : Packing α} (hne : p.current ≠ []) (h : ¬ (0 < overlapChars ∧ 1 < p.current.length)) :
    flush overlapChars p = ⟨p.parts ++ [joinBlank p.current], [], 0⟩ := by
  rw [flush, if_neg fun h => hne (List.isEmpty_iff.1 h)]
  dsimp only
  rw [if_neg h]

theorem flush_nothing {p : Packing α} (h : p.current = []) : flush overlapChars p = p := by
  rw [flush, if_pos (List.isEmpty_iff.2 h)]

/-- A paragraph that is packed with the others. -/
theorem packParagraph_joins {p : Packing α} {para : List α} (hlen : para.length ≤ maxChars)
    (hfits : p.current = [] ∨ p.currentLen + (para.length + 2) ≤ maxChars) :
    ∃ n, packParagraph maxChars overlapChars p para = ⟨p.parts, p.current ++ [para], n⟩ ∧
      n = p.currentLen + (para.length + if p.current.isEmpty then 0 else 2) := by
  refine ⟨_, ?_, rfl⟩
  rw [packParagraph]
  dsimp only
  rw [if_neg (c := _ ∧ _) ?_, if_neg (by omega)]
  rintro ⟨hne, hlt⟩
  rcases hfits with hnil | hfits
  · exact hne (List.isEmpty_iff.2 hnil)
  · rw [if_neg hne] at hlt
    omega

/-- A paragraph that a flush makes room for. -/
theorem packParagraph_flushes {p : Packing α} {para : List α} (hlen : para.length ≤ maxChars) (hne : p.current ≠ [])
    (hfull : maxChars < p.currentLen + (para.length + 2)) :
    packParagraph maxChars overlapChars p para =
      ⟨(flush overlapChars p).parts, (flush overlapChars p).current ++ [para],
        (flush overlapChars p).currentLen + (para.length + 2)⟩ := by
  have hempty : ¬ p.current.isEmpty := fun h => hne (List.isEmpty_iff.1 h)
  have hshort : ¬ maxChars < para.length := Nat.not_lt.2 hlen
  have hflush : ¬ p.current.isEmpty ∧ maxChars < p.currentLen + (para.length + 2) := ⟨hempty, hfull⟩
  rw [packParagraph]
  dsimp only
  rw [if_neg hempty, if_neg hshort, if_pos hflush]

/-- A paragraph that is too long, behind what is packed. -/
theorem packParagraph_cuts {p : Packing α} {para : List α} (hlen : maxChars < para.length) :
    packParagraph maxChars overlapChars p para =
      ⟨(flush overlapChars (flush overlapChars p)).parts ++ hardSplit maxChars overlapChars para para.length 0,
        (flush overlapChars (flush overlapChars p)).current,
        (flush overlapChars (flush overlapChars p)).currentLen⟩ := by
  have hagain : ∀ q : Packing α, (if q.current.isEmpty then q else flush overlapChars q) = flush overlapChars q := by
    intro q
    split_ifs with h
    · exact (flush_nothing (List.isEmpty_iff.1 h)).symm
    · rfl
  have hfirst : (if ¬ p.current.isEmpty ∧
      maxChars < p.currentLen + (para.length + if p.current.isEmpty then 0 else 2) then flush overlapChars p else p) =
      flush overlapChars p := by
    by_cases hempty : p.current.isEmpty
    · rw [if_neg fun h => h.1 hempty, flush_nothing (List.isEmpty_iff.1 hempty)]
    · exact if_pos ⟨hempty, by omega⟩
  rw [packParagraph]
  dsimp only
  rw [if_pos hlen, hfirst, hagain]

/-! ### The pieces of a long paragraph -/

theorem slice_min {α : Type*} (t : List α) (i j : ℕ) : slice t i (min t.length j) = slice t i j := by
  have htake : t.take (min t.length j) = t.take j := by
    rw [List.take_eq_take_iff]
    omega
  rw [slice, slice, htake]

theorem stride_le (hmax : 0 < maxChars) : stride maxChars overlapChars ≤ maxChars := by
  rw [stride]
  omega

/-- The next piece starts a stride further on. -/
theorem next_start (k : ℕ) {n : ℕ} (h : maxChars + (k + 1) * stride maxChars overlapChars < n) :
    max (min n ((k + 1) * stride maxChars overlapChars + maxChars) - overlapChars)
      ((k + 1) * stride maxChars overlapChars + 1) = (k + 1 + 1) * stride maxChars overlapChars := by
  have hnext : (k + 1 + 1) * stride maxChars overlapChars =
      (k + 1) * stride maxChars overlapChars + stride maxChars overlapChars := Nat.succ_mul _ _
  rw [hnext]
  generalize (k + 1) * stride maxChars overlapChars = start at *
  rw [stride]
  omega

theorem bodies_cons_of_solid {q : List α} (h : solid q ≠ []) (parts : List (List α)) :
    bodies (q :: parts) = strip q :: bodies parts := by
  rw [bodies, List.map_cons, List.filter_cons_of_pos]
  · rfl
  · simpa using mt strip_eq_nil_iff_solid.1 h

theorem bodies_cons_of_blank {q : List α} (h : solid q = []) (parts : List (List α)) :
    bodies (q :: parts) = bodies parts := by
  rw [bodies, List.map_cons, List.filter_cons_of_neg]
  · rfl
  · simpa using strip_eq_nil_iff_solid.2 h

theorem mem_strip_iff {q : List α} {a : α} (ha : isSpace (char a) = false) : a ∈ strip q ↔ a ∈ q := by
  have hsolid : a ∈ solid (strip q) ↔ a ∈ solid q := by rw [solid_strip]
  rwa [mem_solid, mem_solid, and_iff_left ha, and_iff_left ha] at hsolid

theorem take_eq_append_slice {α : Type*} (t : List α) {i j : ℕ} (h : i ≤ j) : t.take j = t.take i ++ slice t i j :=
  slice_append (Nat.zero_le i) h

/-- One piece. The symbols of the paragraph that have been seen are those before the last stop; the piece has a
    new one where something solid stands between the last stop and its own. -/
theorem newText_piece {para seen : List α} (hdup : para.Nodup) {start last stop : ℕ} (hstart : start ≤ last)
    (hstop : last ≤ stop) (hseen : ∀ a ∈ solid para, a ∈ seen ↔ a ∈ para.take last) (rest : List (List α)) :
    ∃ seen', (∀ a ∈ solid para, a ∈ seen' ↔ a ∈ para.take stop) ∧
      (NewText seen (bodies (slice para start stop :: rest)) ↔
        (solid (slice para last stop) ≠ [] ∨ solid (slice para start stop) = []) ∧ NewText seen' (bodies rest)) := by
  have hsplit : slice para start stop = slice para start last ++ slice para last stop := slice_append hstart hstop
  have htake := take_eq_append_slice para hstop
  by_cases hblank : solid (slice para start stop) = []
  · refine ⟨seen, fun a ha => ?_, ?_⟩
    · rw [hseen a ha, htake, List.mem_append]
      refine ⟨.inl, fun h => h.resolve_right fun hin => ?_⟩
      have hmem : a ∈ solid (slice para start stop) := by
        rw [hsplit, solid_append, List.mem_append]
        exact .inr (mem_solid.2 ⟨hin, (mem_solid.1 ha).2⟩)
      rw [hblank] at hmem
      cases hmem
    · rw [bodies_cons_of_blank hblank, and_iff_right (.inr hblank)]
  · refine ⟨seen ++ strip (slice para start stop), fun a ha => ?_, ?_⟩
    · rw [List.mem_append, hseen a ha, mem_strip_iff (mem_solid.1 ha).2, hsplit, List.mem_append, htake,
        List.mem_append]
      constructor
      · rintro (h | h | h)
        · exact .inl h
        · exact .inl (slice_subset_take para start last h)
        · exact .inr h
      · rintro (h | h)
        · exact .inl h
        · exact .inr (.inr h)
    · rw [bodies_cons_of_solid hblank, NewText, solid_strip, or_iff_left hblank]
      refine and_congr_left fun _ => ?_
      constructor
      · rintro ⟨a, ha, hnew⟩ hnil
        have hpara : a ∈ solid para := mem_solid.2 ⟨slice_subset para _ _ (mem_solid.1 ha).1, (mem_solid.1 ha).2⟩
        have hlast : a ∉ para.take last := mt (hseen a hpara).2 hnew
        rw [hsplit, solid_append, hnil, List.append_nil] at ha
        exact hlast (slice_subset_take para start last (mem_solid.1 ha).1)
      · intro hsome
        obtain ⟨a, as, has⟩ := List.exists_cons_of_ne_nil hsome
        have ha : a ∈ solid (slice para last stop) := by
          rw [has]
          exact List.mem_cons_self
        obtain ⟨hin, hsolid⟩ := mem_solid.1 ha
        refine ⟨a, ?_, fun hold => ?_⟩
        · rw [hsplit, solid_append]
          exact List.mem_append_right _ ha
        · have hbefore := (hseen a (mem_solid.2 ⟨slice_subset para _ _ hin, hsolid⟩)).1 hold
          exact not_mem_take hdup le_rfl (slice_subset_drop para last stop hin) hbefore

/-- The pieces behind the first one, where the symbols before the last stop have been seen. -/
theorem newText_hardSplit (hmax : 0 < maxChars) {para : List α} (hdup : para.Nodup) : ∀ {fuel k : ℕ} {seen : List α},
    maxChars + k * stride maxChars overlapChars < para.length →
    para.length ≤ fuel + (k + 1) * stride maxChars overlapChars →
    (∀ a ∈ solid para, a ∈ seen ↔ a ∈ para.take (maxChars + k * stride maxChars overlapChars)) →
    (NewText seen (bodies (hardSplit maxChars overlapChars para fuel ((k + 1) * stride maxChars overlapChars))) ↔
      ∀ j, k ≤ j → maxChars + j * stride maxChars overlapChars < para.length →
        solid (slice para (maxChars + j * stride maxChars overlapChars)
          (maxChars + (j + 1) * stride maxChars overlapChars)) ≠ [] ∨
        solid (slice para ((j + 1) * stride maxChars overlapChars)
          (maxChars + (j + 1) * stride maxChars overlapChars)) = []) := by
  have hstride := @stride_le maxChars overlapChars hmax
  intro fuel
  induction fuel with
  | zero =>
    intro k seen hk hfuel _
    rw [Nat.zero_add, Nat.succ_mul] at hfuel
    omega
  | succ fuel ih =>
    intro k seen hk hfuel hseen
    have hsucc : (k + 1) * stride maxChars overlapChars =
        k * stride maxChars overlapChars + stride maxChars overlapChars := Nat.succ_mul _ _
    have hpos : 0 < stride maxChars overlapChars := Nat.lt_of_lt_of_le Nat.zero_lt_one (Nat.le_max_left _ _)
    have hpiece := @newText_piece _ _ para seen hdup ((k + 1) * stride maxChars overlapChars) _
      (maxChars + (k + 1) * stride maxChars overlapChars) (by omega) (by omega) hseen
    have hfirst : ∀ {P : ℕ → Prop}, P k → (∀ j, k + 1 ≤ j → P j) → ∀ j, k ≤ j → P j := by
      intro P hk hrest j hj
      rcases Nat.eq_or_lt_of_le hj with rfl | hlt
      · exact hk
      · exact hrest j hlt
    rw [hardSplit, if_neg (by omega)]
    dsimp only
    rw [slice_min, Nat.add_comm _ maxChars]
    by_cases hlast : para.length ≤ maxChars + (k + 1) * stride maxChars overlapChars
    · obtain ⟨seen', -, hnew⟩ := hpiece []
      rw [if_pos (by omega), hnew]
      constructor
      · rintro ⟨hadds, -⟩
        refine hfirst (fun _ => hadds) fun j hj hlt => ?_
        -- no piece comes behind the last one
        have hfar : (k + 1) * stride maxChars overlapChars ≤ j * stride maxChars overlapChars :=
          Nat.mul_le_mul_right _ hj
        omega
      · intro hall
        exact ⟨hall k le_rfl hk, trivial⟩
    · have hnext := @next_start maxChars overlapChars k para.length (by omega)
      rw [Nat.add_comm _ maxChars] at hnext
      obtain ⟨seen', hseen', hnew⟩ := hpiece
        (hardSplit maxChars overlapChars para fuel ((k + 1 + 1) * stride maxChars overlapChars))
      have hfuel' : para.length ≤ fuel + (k + 1 + 1) * stride maxChars overlapChars := by
        rw [Nat.succ_mul]
        omega
      rw [if_neg (by omega), hnext, hnew, ih (by omega) hfuel' hseen']
      constructor
      · rintro ⟨hadds, hrest⟩
        exact hfirst (fun _ => hadds) hrest
      · intro hall
        exact ⟨hall k le_rfl hk, fun j hj => hall j (by omega)⟩

theorem length_hardSplit_le {α : Type*} (para : List α) : ∀ {fuel start : ℕ},
    ∀ q ∈ hardSplit maxChars overlapChars para fuel start, q.length ≤ maxChars
  | 0, _, q, hq => by cases hq
  | fuel + 1, start, q, hq => by
    rw [hardSplit] at hq
    by_cases hend : para.length ≤ start
    · rw [if_pos hend] at hq
      cases hq
    · rw [if_neg hend] at hq
      rcases List.mem_cons.1 hq with rfl | hq
      · rw [slice, List.length_drop, List.length_take]
        omega
      · split_ifs at hq
        · cases hq
        · exact length_hardSplit_le para q hq

/-- The pieces of a long paragraph behind pieces that hold and have nothing of it. -/
theorem pieces_hardSplit_iff (hmax : 0 < maxChars) {parts : List (List α)} (h : PiecesHold maxChars parts)
    {para : List α} (hdup : para.Nodup) (hlong : maxChars < para.length)
    (hnew : ∀ a ∈ solid para, a ∉ parts.flatten) :
    PiecesHold maxChars (parts ++ hardSplit maxChars overlapChars para para.length 0) ↔
      AddsText maxChars overlapChars para := by
  obtain ⟨n, hn⟩ : ∃ n, para.length = n + 1 := ⟨para.length - 1, by omega⟩
  have hstart : max (maxChars - overlapChars) 1 = (0 + 1) * stride maxChars overlapChars := by
    rw [stride]
    omega
  have hpieces : hardSplit maxChars overlapChars para para.length 0 = slice para 0 maxChars ::
      hardSplit maxChars overlapChars para n ((0 + 1) * stride maxChars overlapChars) := by
    rw [congrArg (fun fuel => hardSplit maxChars overlapChars para fuel 0) hn, hardSplit, if_neg (by omega)]
    dsimp only
    rw [slice_min, Nat.zero_add, Nat.zero_add, Nat.min_eq_right hlong.le, if_neg (by omega), hstart]
  have hnone : ∀ a ∈ solid para, a ∈ (bodies parts).flatten ↔ a ∈ para.take 0 := fun a ha =>
    iff_of_false (fun hin => hnew a ha (bodies_subset parts hin)) List.not_mem_nil
  obtain ⟨seen', hseen', hfirst⟩ := newText_piece hdup (Nat.zero_le 0) (Nat.zero_le maxChars) hnone
    (hardSplit maxChars overlapChars para n ((0 + 1) * stride maxChars overlapChars))
  have hfuel : para.length ≤ n + (0 + 1) * stride maxChars overlapChars := by
    rw [Nat.zero_add, Nat.one_mul, stride]
    omega
  have hrest := @newText_hardSplit _ _ maxChars overlapChars hmax para hdup n 0 seen' (by omega) hfuel
    (by rwa [Nat.zero_mul, Nat.add_zero])
  have hfresh : NewText (bodies parts).flatten (bodies (hardSplit maxChars overlapChars para para.length 0)) ↔
      AddsText maxChars overlapChars para := by
    rw [hpieces, hfirst, and_iff_right (Classical.em _).symm, hrest]
    exact ⟨fun hall k => hall k (Nat.zero_le k), fun hall k _ => hall k⟩
  have hbounded : ∀ b ∈ bodies (hardSplit maxChars overlapChars para para.length 0), b.length ≤ maxChars := by
    intro b hb
    obtain ⟨q, hq, rfl⟩ := mem_bodies hb
    exact (strip_sublist q).length_le.trans (length_hardSplit_le para q hq)
  rw [← hfresh]
  constructor
  · rintro ⟨-, hall⟩
    rw [bodies_append, newText_append] at hall
    exact hall.2
  · intro hall
    constructor
    · rw [bodies_append, List.forall_mem_append]
      exact ⟨h.bounded, hbounded⟩
    · rw [bodies_append, newText_append]
      exact ⟨h.fresh, hall⟩

/-! ### The loop over the paragraphs -/

/-- What holds in the loop, where all went well so far: the pieces hold, what is packed is short, and its last
    paragraph is in no piece. -/
structure Sound (maxChars : ℕ) (done : List (List α)) (p : Packing α) : Prop where
  hold : PiecesHold maxChars p.parts
  origin : PackedFrom done.flatten p
  tight : ∀ q ∈ p.current, Tight q
  short : (joinBlank p.current).length ≤ maxChars
  counted : (joinBlank p.current).length ≤ p.currentLen
  fresh : ∀ q ∈ p.current.getLast?, ∀ a ∈ solid q, a ∉ p.parts.flatten

variable {done : List (List α)} {para : List α}

theorem PackedFrom.mono {t u : List α} (h : PackedFrom t p) (htu : t ⊆ u) : PackedFrom u p :=
  ⟨fun q hq => (h.parts q hq).trans htu, fun q hq => (h.current q hq).trans htu⟩

/-- What is new to the text is new to the pieces. -/
theorem PackedFrom.not_mem (h : PackedFrom t p) {a : α} (hsolid : isSpace (char a) = false) (hnew : a ∉ t) :
    a ∉ p.parts.flatten := by
  intro hin
  obtain ⟨q, hq, ha⟩ := List.mem_flatten.1 hin
  rcases h.parts q hq a ha with ht | rfl
  · exact hnew ht
  · rw [char_newline] at hsolid
    revert hsolid
    decide

theorem subset_joinBlank : ∀ {ps : List (List α)}, ∀ q ∈ ps, q ⊆ joinBlank ps
  | [p], q, hq => by
    rw [List.mem_singleton.1 hq, joinBlank_singleton]
    exact List.Subset.refl p
  | p :: r :: ps, q, hq => by
    rw [joinBlank, List.intercalate_cons_cons]
    rcases List.mem_cons.1 hq with rfl | hq
    · exact List.Subset.trans (List.subset_append_left _ _) (List.subset_append_left _ _)
    · exact List.Subset.trans (subset_joinBlank q hq) (List.subset_append_right _ _)

/-- Flushing what is packed keeps what holds of the pieces. -/
theorem Sound.push (h : Sound maxChars done p) (hne : p.current ≠ []) :
    PiecesHold maxChars (p.parts ++ [joinBlank p.current]) := by
  refine (pieces_push_iff h.hold (tight_joinBlank hne h.tight)).2 ⟨h.short, ?_⟩
  have hlast := List.getLast?_eq_some_getLast hne
  obtain ⟨a, as, has⟩ := List.exists_cons_of_ne_nil (h.tight _ (List.getLast_mem hne)).solid_ne_nil
  have ha : a ∈ solid (p.current.getLast hne) := by
    rw [has]
    exact List.mem_cons_self
  obtain ⟨hin, hsolid⟩ := mem_solid.1 ha
  refine ⟨a, mem_solid.2 ⟨subset_joinBlank _ (List.getLast_mem hne) hin, hsolid⟩, fun hold => ?_⟩
  exact h.fresh _ hlast a ha (bodies_subset _ hold)

/-- The next paragraph is packed behind what is packed. -/
theorem sound_packed {n : ℕ} (hhold : PiecesHold maxChars p.parts) (horigin : PackedFrom done.flatten p)
    (htight : ∀ q ∈ p.current, Tight q) (hpara : Tight para) (hnew : ∀ a ∈ solid para, a ∉ done.flatten)
    (hshort : (joinBlank (p.current ++ [para])).length ≤ maxChars)
    (hcounted : (joinBlank (p.current ++ [para])).length ≤ n) :
    Sound maxChars (done ++ [para]) ⟨p.parts, p.current ++ [para], n⟩ where
  hold := hhold
  origin := by
    have hwhole : (done ++ [para]).flatten = done.flatten ++ para := by
      rw [List.flatten_append, List.flatten_singleton]
    have hmono : PackedFrom (done ++ [para]).flatten p :=
      horigin.mono (by rw [hwhole]; exact List.subset_append_left _ _)
    refine ⟨hmono.parts, ?_⟩
    rw [List.forall_mem_append, List.forall_mem_singleton]
    refine ⟨hmono.current, From.of_subset ?_⟩
    rw [hwhole]
    exact List.subset_append_right _ _
  tight := by
    rw [List.forall_mem_append, List.forall_mem_singleton]
    exact ⟨htight, hpara⟩
  short := hshort
  counted := hcounted
  fresh := by
    intro q hq a ha
    rw [List.getLast?_concat, Option.mem_def, Option.some.injEq] at hq
    rw [← hq] at ha
    exact horigin.not_mem (mem_solid.1 ha).2 (hnew a ha)

theorem length_joinBlank_concat {ps : List (List α)} (hne : ps ≠ []) (para : List α) :
    (joinBlank (ps ++ [para])).length = (joinBlank ps).length + (para.length + 2) := by
  rw [joinBlank_concat para hne, List.length_append, List.length_cons, List.length_cons]

/-- A paragraph that is not too long, where there is room. -/
theorem Sound.step_short (h : Sound maxChars done p) (hpara : Tight para) (hnew : ∀ a ∈ solid para, a ∉ done.flatten)
    (hlen : para.length ≤ maxChars) (hroom : Room maxChars overlapChars p para) :
    Sound maxChars (done ++ [para]) (packParagraph maxChars overlapChars p para) := by
  have hflushed := h.origin.flush overlapChars
  have hcounted := h.counted
  by_cases hfits : p.current = [] ∨ p.currentLen + (para.length + 2) ≤ maxChars
  · obtain ⟨n, heq, hn⟩ := @packParagraph_joins _ _ maxChars overlapChars p para hlen hfits
    rw [heq]
    by_cases hnil : p.current = []
    · have hjoin : joinBlank (p.current ++ [para]) = para := by rw [hnil, List.nil_append, joinBlank_singleton]
      exact sound_packed h.hold h.origin h.tight hpara hnew (by rw [hjoin]; exact hlen) (by rw [hjoin]; omega)
    · have hjoin := length_joinBlank_concat hnil para
      rw [if_neg fun hempty => hnil (List.isEmpty_iff.1 hempty)] at hn
      have hsize := hfits.resolve_left hnil
      exact sound_packed h.hold h.origin h.tight hpara hnew (by omega) (by omega)
  · rw [not_or, Nat.not_le] at hfits
    obtain ⟨hne, hfull⟩ := hfits
    have hpush := h.push hne
    rw [packParagraph_flushes hlen hne hfull]
    by_cases hoverlap : 0 < overlapChars ∧ 1 < p.current.length
    · have hsize := hroom hoverlap.1 hoverlap.2 hfull
      have htight := tight_carried hoverlap.1 (tight_joinBlank hne h.tight)
      have hjoin := length_joinBlank_concat (List.cons_ne_nil (carried overlapChars p.current) []) para
      rw [joinBlank_singleton] at hjoin
      rw [flush_carries hoverlap.1 hoverlap.2 h.tight] at hflushed ⊢
      refine sound_packed hpush hflushed ?_ hpara hnew ?_ ?_
      · rw [List.forall_mem_singleton]
        exact htight
      · rw [hjoin]
        exact hsize
      · rw [hjoin]
    · rw [flush_plain hne hoverlap] at hflushed ⊢
      have hjoin : joinBlank ([] ++ [para]) = para := by rw [List.nil_append, joinBlank_singleton]
      refine sound_packed hpush hflushed (by simp) hpara hnew ?_ ?_
      · rw [hjoin]
        exact hlen
      · rw [hjoin]
        omega

/-- A paragraph that is too long, where nothing is carried over. -/
theorem Sound.cuts (h : Sound maxChars done p) (hlong : maxChars < para.length)
    (hroom : Room maxChars overlapChars p para) :
    ∃ parts n, packParagraph maxChars overlapChars p para =
        ⟨parts ++ hardSplit maxChars overlapChars para para.length 0, [], n⟩ ∧
      PiecesHold maxChars parts ∧ PackedFrom done.flatten ⟨parts, [], n⟩ := by
  have hflushed := h.origin.flush overlapChars
  rw [packParagraph_cuts hlong]
  by_cases hnil : p.current = []
  · rw [flush_nothing hnil, flush_nothing hnil, hnil]
    refine ⟨p.parts, p.currentLen, rfl, h.hold, h.origin.parts, ?_⟩
    intro q hq
    cases hq
  · have hplain : ¬ (0 < overlapChars ∧ 1 < p.current.length) := by
      rintro ⟨hoverlap, hmany⟩
      have hsize := hroom hoverlap hmany (by omega)
      omega
    rw [flush_plain hnil hplain] at hflushed ⊢
    rw [flush_nothing rfl]
    exact ⟨_, _, rfl, h.push hnil, hflushed⟩

theorem Sound.step_long (hmax : 0 < maxChars) (h : Sound maxChars done p) (hdup : para.Nodup)
    (hnew : ∀ a ∈ solid para, a ∉ done.flatten) (hlong : maxChars < para.length)
    (hroom : Room maxChars overlapChars p para) :
    (AddsText maxChars overlapChars para →
      Sound maxChars (done ++ [para]) (packParagraph maxChars overlapChars p para)) ∧
    (¬ AddsText maxChars overlapChars para →
      ¬ PiecesHold maxChars (packParagraph maxChars overlapChars p para).parts) := by
  obtain ⟨parts, n, heq, hhold, horigin⟩ := @Sound.cuts _ _ maxChars overlapChars p done para h hlong hroom
  have hiff := @pieces_hardSplit_iff _ _ maxChars overlapChars hmax parts hhold para hdup hlong
    fun a ha => horigin.not_mem (mem_solid.1 ha).2 (hnew a ha)
  rw [heq]
  refine ⟨fun hadds => ?_, fun hnot hall => hnot (hiff.1 hall)⟩
  have hwhole : (done ++ [para]).flatten = done.flatten ++ para := by
    rw [List.flatten_append, List.flatten_singleton]
  refine ⟨hiff.2 hadds, ⟨?_, ?_⟩, ?_, Nat.zero_le _, Nat.zero_le _, ?_⟩
  · rw [hwhole, List.forall_mem_append]
    refine ⟨fun q hq => (horigin.parts q hq).trans (List.subset_append_left _ _), fun q hq => ?_⟩
    exact From.of_subset (List.Subset.trans (hardSplit_subset q hq) (List.subset_append_right _ _))
  · intro q hq
    cases hq
  · intro q hq
    cases hq
  · intro q hq
    cases hq

/-! ### Where there is no room -/

theorem flush_parts {p : Packing α} (hne : p.current ≠ []) :
    (flush overlapChars p).parts = p.parts ++ [joinBlank p.current] := by
  rw [flush, if_neg fun h => hne (List.isEmpty_iff.1 h)]
  dsimp only
  rw [apply_ite Packing.parts]
  exact ite_self _

theorem parts_flush (overlapChars : ℕ) (p : Packing α) : p.parts <+: (flush overlapChars p).parts := by
  by_cases hnil : p.current = []
  · rw [flush_nothing hnil]
  · rw [flush_parts hnil]
    exact List.prefix_append _ _

/-- Pieces are only added; where what is packed and the next paragraph are too long, what is packed is one. -/
theorem parts_packParagraph (p : Packing α) (para : List α) :
    p.parts <+: (packParagraph maxChars overlapChars p para).parts ∧
    (maxChars < p.currentLen + (para.length + 2) →
      (flush overlapChars p).parts <+: (packParagraph maxChars overlapChars p para).parts) := by
  have hflush := parts_flush overlapChars p
  by_cases hlong : maxChars < para.length
  · have hcut : (flush overlapChars p).parts <+: (packParagraph maxChars overlapChars p para).parts := by
      rw [packParagraph_cuts hlong]
      exact (parts_flush overlapChars _).trans (List.prefix_append _ _)
    exact ⟨hflush.trans hcut, fun _ => hcut⟩
  · by_cases hfits : p.current = [] ∨ p.currentLen + (para.length + 2) ≤ maxChars
    · obtain ⟨n, heq, -⟩ := @packParagraph_joins _ _ maxChars overlapChars p para (Nat.not_lt.1 hlong) hfits
      rw [heq]
      refine ⟨List.prefix_rfl, fun hfull => ?_⟩
      rcases hfits with hnil | hsize
      · rw [flush_nothing hnil]
      · omega
    · rw [not_or, Nat.not_le] at hfits
      rw [packParagraph_flushes (Nat.not_lt.1 hlong) hfits.1 hfits.2]
      exact ⟨hflush, fun _ => List.prefix_rfl⟩

/-- The pieces at the end of the loop. -/
theorem parts_foldl (paras : List (List α)) : ∀ p : Packing α,
    p.parts <+: (flush overlapChars (paras.foldl (packParagraph maxChars overlapChars) p)).parts := by
  induction paras with
  | nil => exact parts_flush overlapChars
  | cons para paras ih => exact fun p => (parts_packParagraph p para).1.trans (ih _)

/-- What is packed is a piece at the end, also where it is too long already. -/
theorem full_foldl (paras : List (List α)) {p : Packing α} (hfull : maxChars < p.currentLen) :
    (flush overlapChars p).parts <+:
      (flush overlapChars (paras.foldl (packParagraph maxChars overlapChars) p)).parts := by
  cases paras with
  | nil => exact List.prefix_rfl
  | cons para paras => exact ((parts_packParagraph p para).2 (by omega)).trans (parts_foldl paras _)

/-- Where there is no room, the pieces at the end do not hold: a paragraph that is not too long makes one that is,
    and one that is too long leaves the overlap by itself. -/
theorem Sound.no_room (h : Sound maxChars done p) (hpara : Tight para)
    (hroom : ¬ Room maxChars overlapChars p para) (paras : List (List α)) :
    ¬ PiecesHold maxChars (flush overlapChars
      ((para :: paras).foldl (packParagraph maxChars overlapChars) p)).parts := by
  simp only [Room, not_forall, Nat.not_le, exists_prop] at hroom
  obtain ⟨hoverlap, hmany, hfull, hsize⟩ := hroom
  have hne : p.current ≠ [] := by
    intro hnil
    simp [hnil] at hmany
  have hjoined := tight_joinBlank hne h.tight
  have htight := tight_carried hoverlap hjoined
  have hflush := flush_carries hoverlap hmany h.tight
  rw [List.foldl_cons]
  intro hall
  by_cases hlong : maxChars < para.length
  · have hcut := hall.of_prefix (parts_foldl paras _)
    have hone : ¬ (0 < overlapChars ∧ 1 < [carried overlapChars p.current].length) := by simp
    rw [packParagraph_cuts hlong, hflush, flush_plain (List.cons_ne_nil _ _) hone] at hcut
    have halone := hcut.of_prefix (List.prefix_append _ _)
    dsimp only at halone
    rw [joinBlank_singleton] at halone
    obtain ⟨-, a, ha, hnew⟩ := (pieces_push_iff (h.push hne) htight).1 halone
    refine hnew ?_
    rw [bodies_append, bodies_tight hjoined, List.flatten_append, List.flatten_singleton]
    exact List.mem_append_right _ (carried_subset _ _ (mem_solid.1 ha).1)
  · have hstep := @packParagraph_flushes _ _ maxChars overlapChars p para (Nat.not_lt.1 hlong) hne hfull
    rw [hflush] at hstep
    dsimp only at hstep
    have hbehind : (packParagraph maxChars overlapChars p para).current ≠ [] := by rw [hstep]; simp
    have hcurrent : maxChars < (packParagraph maxChars overlapChars p para).currentLen := by
      rw [hstep]
      exact hsize
    have hend := hall.of_prefix (full_foldl paras hcurrent)
    rw [flush_parts hbehind, hstep] at hend
    dsimp only at hend
    have hpair : Tight (joinBlank ([carried overlapChars p.current] ++ [para])) :=
      tight_joinBlank (by simp) (by simp [htight, hpara])
    have hbounded := hend.bounded _ (by
      rw [bodies_append, bodies_tight hpair]
      exact List.mem_append_right _ List.mem_cons_self)
    rw [length_joinBlank_concat (List.cons_ne_nil _ _), joinBlank_singleton] at hbounded
    omega

/-- The loop: its pieces hold just where there is room at every seam and every piece of a long paragraph adds
    text. -/
theorem pieces_foldl_iff (hmax : 0 < maxChars) : ∀ {paras done : List (List α)} {p : Packing α},
    Sound maxChars done p → (∀ para ∈ paras, Tight para) → (done ++ paras).flatten.Nodup →
      (PiecesHold maxChars (flush overlapChars (paras.foldl (packParagraph maxChars overlapChars) p)).parts ↔
        Roomy maxChars overlapChars p paras ∧
          ∀ para ∈ paras, maxChars < para.length → AddsText maxChars overlapChars para) := by
  intro paras
  induction paras with
  | nil =>
    intro done p h _ _
    refine iff_of_true ?_ ⟨trivial, by simp⟩
    rw [List.foldl_nil]
    by_cases hnil : p.current = []
    · rw [flush_nothing hnil]
      exact h.hold
    · rw [flush_parts hnil]
      exact h.push hnil
  | cons para paras ih =>
    intro done p h htight hdup
    rw [List.forall_mem_cons] at htight
    have hsplit : (done ++ para :: paras).flatten = done.flatten ++ (para ++ paras.flatten) := by
      rw [List.flatten_append, List.flatten_cons]
    have hnext : ((done ++ [para]) ++ paras).flatten.Nodup := by
      rwa [List.append_assoc]
    rw [hsplit] at hdup
    have hrest := (List.nodup_append'.1 hdup).2
    have hnew : ∀ a ∈ solid para, a ∉ done.flatten := fun a ha hold =>
      hrest.2 hold (List.mem_append_left _ (mem_solid.1 ha).1)
    have hpara := (List.nodup_append'.1 hrest.1).1
    rw [Roomy]
    by_cases hroom : Room maxChars overlapChars p para
    · rw [and_iff_right hroom, List.forall_mem_cons, List.foldl_cons]
      by_cases hlong : maxChars < para.length
      · obtain ⟨hkeeps, hbreaks⟩ := h.step_long hmax hpara hnew hlong hroom
        by_cases hadds : AddsText maxChars overlapChars para
        · rw [ih (hkeeps hadds) htight.2 hnext, and_iff_right fun _ => hadds]
        · refine iff_of_false (fun hall => hbreaks hadds (hall.of_prefix (parts_foldl paras _))) ?_
          exact fun hall => hadds (hall.2.1 hlong)
      · rw [ih (h.step_short htight.1 hnew (Nat.not_lt.1 hlong) hroom) htight.2 hnext,
          and_iff_right fun hlt => absurd hlt hlong]
    · exact iff_of_false (h.no_room htight.1 hroom paras) fun hall => hroom hall.1.1

/-! ### The pieces of a section -/

theorem between_sublist {ms : List Match} : ∀ {i : ℕ}, Stand blankLinePattern (chars t) i ms →
    (between t i ms).flatten.Sublist (t.drop i) := by
  induction ms with
  | nil =>
    intro i _
    rw [between, List.flatten_singleton]
  | cons m ms ih =>
    intro i h
    cases h with
    | cons texts hi hlang hparts hpre hrest =>
      rw [between, List.flatten_cons, drop_eq_slice_append hi]
      refine (List.Sublist.refl _).append ((ih hrest).trans ?_)
      exact List.drop_sublist_drop_left t m.start_le_stop

theorem flatten_filter_strip (ps : List (List α)) :
    ((ps.map strip).filter fun p => !p.isEmpty).flatten.Sublist ps.flatten := by
  induction ps with
  | nil => exact List.Sublist.refl _
  | cons p ps ih =>
    rw [List.map_cons, List.filter_cons, List.flatten_cons]
    split_ifs
    · rw [List.flatten_cons]
      exact (strip_sublist p).append ih
    · exact ih.trans (List.sublist_append_right _ _)

theorem paragraphs_sublist (t : List α) : (paragraphs t).flatten.Sublist t := by
  have hbetween := between_sublist (blankLinePattern.stand_finditer (chars t))
  rw [List.drop_zero] at hbetween
  exact (flatten_filter_strip _).trans hbetween

theorem tight_paragraph {q : List α} (h : q ∈ paragraphs t) : Tight q := by
  obtain ⟨hq, hne⟩ := List.mem_filter.1 h
  obtain ⟨r, -, rfl⟩ := List.mem_map.1 hq
  exact ⟨strip_strip r, by simpa using hne⟩

theorem sound_start : Sound maxChars ([] : List (List α)) ({} : Packing α) where
  hold := by
    constructor
    · intro b hb
      cases hb
    · trivial
  origin := by
    constructor
    · intro q hq
      cases hq
    · intro q hq
      cases hq
  tight := by
    intro q hq
    cases hq
  short := Nat.zero_le _
  counted := Nat.zero_le _
  fresh := by
    intro q hq
    cases hq

/-- The pieces of a section whose symbols differ hold just where its paragraphs fit. -/
theorem piecesHold_iff (hmax : 0 < maxChars) (overlapChars : ℕ) (hdup : t.Nodup) :
    PiecesHold maxChars (splitParagraphsWithOverlap maxChars overlapChars t) ↔ SplitsWell maxChars overlapChars t := by
  have hrun := @pieces_foldl_iff _ _ maxChars overlapChars hmax (paragraphs t) [] {} sound_start
    (fun _ hq => tight_paragraph hq) (hdup.sublist (paragraphs_sublist t))
  rw [splitParagraphsWithOverlap, hrun]
  exact ⟨fun h => ⟨h.1, h.2⟩, fun h => ⟨h.seams, h.windows⟩⟩

/-! ### On the characters -/

section Erase

variable {β : Type*} [Symbol β] {f : α → β}

theorem carried_map (hf : Relabels f) (ps : List (List α)) :
    carried overlapChars (ps.map (List.map f)) = (carried overlapChars ps).map f := by
  rw [carried, carried, joinBlank_map hf, List.length_map, ← List.map_drop, hf.lstrip_map]

theorem room_map (hf : Relabels f) (p : Packing α) (para : List α) :
    Room maxChars overlapChars (p.map f) (para.map f) ↔ Room maxChars overlapChars p para := by
  have hmany : (p.map f).current.length = p.current.length := List.length_map _
  have hcarried : carried overlapChars (p.map f).current = (carried overlapChars p.current).map f :=
    carried_map hf p.current
  rw [Room, Room, hmany, hcarried, List.length_map, List.length_map]
  rfl

theorem roomy_map (hf : Relabels f) : ∀ (paras : List (List α)) (p : Packing α),
    Roomy maxChars overlapChars (p.map f) (paras.map (List.map f)) ↔ Roomy maxChars overlapChars p paras
  | [], _ => Iff.rfl
  | para :: paras, p => by
    rw [List.map_cons, Roomy, Roomy, room_map hf, packParagraph_map hf, roomy_map hf paras]

theorem addsText_map (hf : Relabels f) (para : List α) :
    AddsText maxChars overlapChars (para.map f) ↔ AddsText maxChars overlapChars para := by
  rw [AddsText, AddsText]
  simp only [List.length_map, slice_map, hf.solid_map, ne_eq, List.map_eq_nil_iff]

theorem splitsWell_map (hf : Relabels f) (text : List α) :
    SplitsWell maxChars overlapChars (text.map f) ↔ SplitsWell maxChars overlapChars text := by
  have hseams := @roomy_map _ _ maxChars overlapChars _ _ f hf (paragraphs text) {}
  have hwindows : (∀ para ∈ (paragraphs text).map (List.map f), maxChars < para.length →
      AddsText maxChars overlapChars para) ↔
      ∀ para ∈ paragraphs text, maxChars < para.length → AddsText maxChars overlapChars para := by
    simp only [List.forall_mem_map, List.length_map, addsText_map hf]
  constructor
  · rintro ⟨hroomy, hadds⟩
    rw [paragraphs_map hf] at hroomy hadds
    exact ⟨hseams.1 hroomy, hwindows.1 hadds⟩
  · rintro ⟨hroomy, hadds⟩
    refine ⟨?_, ?_⟩
    · rw [paragraphs_map hf]
      exact hseams.2 hroomy
    · rw [paragraphs_map hf]
      exact hwindows.2 hadds

end Erase

/-- BOUNDS: under the limits of a domain the loops over a section return, the run on the characters is the run on
    their places with the places taken away, and in that run no piece is too long or made of overlap only just
    where the paragraphs fit. -/
theorem pieces_bounded_iff (cfg : ChunkSettings) (domain text : Text) :
    (∀ para : Text, Loop.Returns (hardStep (domainChunkLimits cfg domain).1 (domainChunkLimits cfg domain).2 para)
      ([], 0) (hardSplit (domainChunkLimits cfg domain).1 (domainChunkLimits cfg domain).2 para para.length 0)) ∧
    (splitParagraphsWithOverlap (domainChunkLimits cfg domain).1 (domainChunkLimits cfg domain).2 (mark text)).map
        (List.map Prod.fst) =
      splitParagraphsWithOverlap (domainChunkLimits cfg domain).1 (domainChunkLimits cfg domain).2 text ∧
    (PiecesHold (domainChunkLimits cfg domain).1 (splitParagraphsWithOverlap (domainChunkLimits cfg domain).1
        (domainChunkLimits cfg domain).2 (mark text)) ↔
      SplitsWell (domainChunkLimits cfg domain).1 (domainChunkLimits cfg domain).2 text) := by
  refine ⟨fun para => ?_, ?_, ?_⟩
  · have hreturns := @hardSplit_returns _ (domainChunkLimits cfg domain).1 (domainChunkLimits cfg domain).2 para
      para.length 0 [] (Nat.le_refl _)
    rwa [List.nil_append] at hreturns
  · rw [← splitParagraphs_map relabels_erase, map_mark]
  · rw [piecesHold_iff (limit_pos cfg domain) _ (nodup_mark text), ← splitsWell_map relabels_erase, map_mark]

/-- Limits of 200 and 90, and a third paragraph of 190 behind the overlap of 90: a piece of 282. -/
theorem carried_overlap_too_long :
    ¬ ∀ (cfg : ChunkSettings) (domain text : Text), PiecesHold (domainChunkLimits cfg domain).1
      (splitParagraphsWithOverlap (domainChunkLimits cfg domain).1 (domainChunkLimits cfg domain).2
        (mark text)) := by
  intro h
  have hbounded := (h { defaultSettings with maxChars := 200, overlapChars := 90 } []
    (List.replicate 90 'a' ++ "\n\n".toList ++ List.replicate 90 'b' ++ "\n\n".toList ++
      List.replicate 190 'c')).bounded
  revert hbounded
  decide +kernel

end AgentLangraph.Knowledge.Chunker
