import AgentLangraph.Lib.PyText

/-! The guard of a streamed answer (`stream_output_guard.py`): each longer text of the answer is scanned
    before more of it is sent, and once a scan has found something nothing is sent any more. -/

namespace AgentLangraph.Stream

/-- `_StreamGuardState`. -/
structure StreamGuard (ι : Type*) where
  blocked : Bool := false
  issues : List ι := []
  scannedLen : ℕ := 0

/-- The settings of the guard, and its scan. -/
structure GuardConfig (α ι : Type*) where
  /-- `OUTPUT_GUARD_ENABLED` -/
  enabled : Bool := true
  /-- `scan_pii(text, prose_only=OUTPUT_GUARD_PII_PROSE_ONLY)` -/
  scan : List α → List ι

section
variable {α ι : Type*} (cfg : GuardConfig α ι)

/-- `scan_summary_before_emit`: the guard after it, and the issues. -/
def scanSummaryBeforeEmit (st : StreamGuard ι) (text : List α) :
    StreamGuard ι × Option (List ι) :=
  if !cfg.enabled then (st, none)
  else if st.blocked then (st, some st.issues)
  else if text.length ≤ st.scannedLen then (st, none)
  else
    match cfg.scan text with
    | [] => ({ st with scannedLen := text.length }, none)
    | issues => (⟨true, issues, text.length⟩, some issues)

/-- `if scan_summary_before_emit(text)`. -/
def stops (result : Option (List ι)) : Bool := !(result.getD []).isEmpty

/-- A guard that blocks goes on blocking. -/
theorem scan_blocked {st : StreamGuard ι} (h : st.blocked) (text : List α) :
    (scanSummaryBeforeEmit cfg st text).1.blocked := by
  rw [scanSummaryBeforeEmit]
  split_ifs <;> exact h

/-- What stops an open guard blocks it. -/
theorem not_stops_of_open {st : StreamGuard ι} {text : List α}
    (h : (scanSummaryBeforeEmit cfg st text).1.blocked = false) :
    stops (scanSummaryBeforeEmit cfg st text).2 = false := by
  have hopen : st.blocked = false := by
    cases hb : st.blocked with
    | false => rfl
    | true => rw [scan_blocked cfg hb] at h; cases h
  rw [scanSummaryBeforeEmit] at h ⊢
  by_cases henabled : (!cfg.enabled) = true
  · rw [if_pos henabled]
    rfl
  · rw [if_neg henabled, hopen, if_neg Bool.false_ne_true] at h ⊢
    by_cases hlen : text.length ≤ st.scannedLen
    · rw [if_pos hlen]
      rfl
    · rw [if_neg hlen] at h ⊢
      cases hscan : cfg.scan text with
      | nil => rfl
      | cons issue issues => rw [hscan] at h; cases h

/-- The guard after `texts`. -/
def guardAfter (texts : List (List α)) : StreamGuard ι :=
  texts.foldl (fun st text => (scanSummaryBeforeEmit cfg st text).1) {}

/-- The guard stops `text` where `seen` was streamed before. -/
def Blocks (seen : List (List α)) (text : List α) : Prop :=
  stops (scanSummaryBeforeEmit cfg (guardAfter cfg seen) text).2 = true

/-- The text streamed last. -/
def lastText (seen : List (List α)) : List α := seen.getLast?.getD []

theorem lastText_prefix {seen : List (List α)} {text : List α} (h : ∀ q ∈ seen, q <+: text) :
    lastText seen <+: text := by
  rw [lastText]
  cases hlast : seen.getLast? with
  | none => exact List.nil_prefix
  | some q => exact h q (List.mem_of_getLast? hlast)

/-- The guard knows of what it has seen. -/
structure Tracks (seen : List (List α)) (st : StreamGuard ι) : Prop where
  blocked_iff : st.blocked = true ↔ ∃ q ∈ seen, cfg.scan q ≠ []
  issues_ne : st.blocked = true → st.issues ≠ []
  scanned : st.blocked = false → st.scannedLen = (lastText seen).length

section
variable {cfg} (henabled : cfg.enabled = true) (hempty : cfg.scan [] = [])
include henabled hempty

/-- STEP: a longer text leaves a guard that knows of it, and stops exactly when the guard blocks. -/
theorem Tracks.step {seen : List (List α)} {st : StreamGuard ι} (h : Tracks cfg seen st)
    {text : List α} (hgrow : lastText seen <+: text) :
    Tracks cfg (seen ++ [text]) (scanSummaryBeforeEmit cfg st text).1 ∧
      stops (scanSummaryBeforeEmit cfg st text).2 = (scanSummaryBeforeEmit cfg st text).1.blocked := by
  have hex : (∃ q ∈ seen ++ [text], cfg.scan q ≠ []) ↔
      (∃ q ∈ seen, cfg.scan q ≠ []) ∨ cfg.scan text ≠ [] := by
    simp only [List.mem_append, List.mem_singleton, or_and_right, exists_or, exists_eq_left]
  have hlast : lastText (seen ++ [text]) = text := by simp [lastText]
  rw [scanSummaryBeforeEmit, henabled, Bool.not_true, if_neg Bool.false_ne_true]
  cases hb : st.blocked with
  | true =>
    rw [if_pos rfl]
    have hne := h.issues_ne hb
    refine ⟨⟨iff_of_true hb (hex.2 (Or.inl (h.blocked_iff.1 hb))), fun _ => hne, fun hopen => ?_⟩, ?_⟩
    · rw [hb] at hopen
      cases hopen
    · rw [hb, stops, Option.getD_some, Bool.not_eq_true', List.isEmpty_eq_false_iff]
      exact hne
  | false =>
    have hclean : ¬∃ q ∈ seen, cfg.scan q ≠ [] := fun hq => by
      rw [h.blocked_iff.2 hq] at hb
      cases hb
    rw [if_neg Bool.false_ne_true]
    by_cases hlen : text.length ≤ st.scannedLen
    · rw [if_pos hlen]
      -- the text is the one scanned last
      rw [h.scanned hb] at hlen
      have heq : lastText seen = text := hgrow.eq_of_length_le hlen
      have hscan : cfg.scan text = [] := by
        rw [← heq, lastText]
        cases hseen : seen.getLast? with
        | none => exact hempty
        | some q => exact not_not.1 fun hq => hclean ⟨q, List.mem_of_getLast? hseen, hq⟩
      refine ⟨⟨iff_of_false (by rw [hb]; exact Bool.false_ne_true) fun hq => ?_, fun hbl => ?_,
        fun _ => ?_⟩, hb.symm⟩
      · exact (hex.1 hq).elim hclean fun hne => hne hscan
      · rw [hb] at hbl
        cases hbl
      · rw [hlast, h.scanned hb, heq]
    · rw [if_neg hlen]
      cases hscan : cfg.scan text with
      | nil =>
        refine ⟨⟨iff_of_false Bool.false_ne_true fun hq => ?_, fun hbl => ?_,
          fun _ => by rw [hlast]⟩, rfl⟩
        · exact (hex.1 hq).elim hclean fun hne => hne hscan
        · cases hbl
      | cons issue issues =>
        refine ⟨⟨iff_of_true rfl (hex.2 (Or.inr ?_)), fun _ => List.cons_ne_nil _ _, fun hopen => ?_⟩,
          rfl⟩
        · rw [hscan]
          exact List.cons_ne_nil _ _
        · cases hopen

/-- RUN: the guard knows of every text streamed, each a prefix of the next. -/
theorem tracks_guardAfter {seen : List (List α)} (hgrow : seen.Pairwise (· <+: ·)) :
    Tracks cfg seen (guardAfter cfg seen) := by
  induction seen using List.reverseRecOn with
  | nil => exact ⟨iff_of_false Bool.false_ne_true (by simp), nofun, fun _ => rfl⟩
  | append_singleton seen text ih =>
    obtain ⟨hseen, -, hlt⟩ := List.pairwise_append.1 hgrow
    have hlast : lastText seen <+: text :=
      lastText_prefix fun q hq => hlt q hq text (List.mem_singleton_self _)
    rw [guardAfter, List.foldl_append, List.foldl_cons, List.foldl_nil]
    exact ((ih hseen).step henabled hempty hlast).1

/-- SPEC: a text is stopped exactly when the scan finds something in it, or found something in a text
    before. -/
theorem blocks_iff {seen : List (List α)} {text : List α}
    (hgrow : (seen ++ [text]).Pairwise (· <+: ·)) :
    Blocks cfg seen text ↔ ∃ q ∈ seen ++ [text], cfg.scan q ≠ [] := by
  have hrun := tracks_guardAfter henabled hempty hgrow
  obtain ⟨hseen, -, hlt⟩ := List.pairwise_append.1 hgrow
  have hlast : lastText seen <+: text :=
    lastText_prefix fun q hq => hlt q hq text (List.mem_singleton_self _)
  rw [Blocks, ((tracks_guardAfter henabled hempty hseen).step henabled hempty hlast).2,
    ← hrun.blocked_iff, guardAfter, guardAfter, List.foldl_append, List.foldl_cons, List.foldl_nil]

end

/-- A guard that is switched off stops nothing. -/
theorem not_blocks_of_disabled (h : cfg.enabled = false) (seen : List (List α)) (text : List α) :
    ¬Blocks cfg seen text := by
  rw [Blocks, scanSummaryBeforeEmit, h, Bool.not_false, if_pos rfl]
  exact Bool.false_ne_true

end

end AgentLangraph.Stream
