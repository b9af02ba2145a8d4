import AgentLangraph.Evidence.Admitted
import AgentLangraph.Lib.Kept
import Mathlib.Data.List.Dedup

/-! What is left of the candidates when their sources are put in front. The loop that looks for more sources
    among the others finds none, since the source of each of them is there already; what it looks at is gone:

        a₁ a₂ b₁ a₃   ──▶   a₁ b₁ │ a₂ a₃        enough sources: the others come behind
        a₁ a₂ a₃      ──▶   a₁    │              too few: the others are dropped -/

namespace AgentLangraph.Evidence
open PyText PyFloat Knowledge Firsts

variable {α : Type*}

def SameSource (c d : CandidateEvidence α) : Prop := c.sourceId = d.sourceId

instance : DecidableRel (SameSource (α := α)) := fun c d => inferInstanceAs (Decidable (c.sourceId = d.sourceId))

/-- The candidates in another order: the first one of every source comes before all that are second of one. -/
structure Diverse (cands result : List (CandidateEvidence α)) : Prop where
  perm : result.Perm cands
  ahead : firsts SameSource cands <+: result

/-! ### The first pass -/

theorem split_perm (cands : List (CandidateEvidence α)) : ∀ seen : List Text,
    ((splitBySource seen cands).1 ++ (splitBySource seen cands).2).Perm cands := by
  induction cands with
  | nil => exact fun _ => List.Perm.refl _
  | cons c cands ih =>
    intro seen
    rw [splitBySource]
    split_ifs
    · exact List.perm_middle.trans ((ih seen).cons c)
    · exact (ih _).cons c

/-- What is put in front are the first candidates of their sources. -/
theorem split_fst (cands : List (CandidateEvidence α)) : ∀ {seen : List Text} {kept : List (CandidateEvidence α)},
    (∀ c : CandidateEvidence α, c.sourceId ∈ seen ↔ ∃ k ∈ kept, SameSource c k) →
      (splitBySource seen cands).1 = firstsFrom SameSource kept cands := by
  induction cands with
  | nil => exact fun _ => rfl
  | cons c cands ih =>
    intro seen kept h
    rw [splitBySource, firstsFrom]
    by_cases hseen : c.sourceId ∈ seen
    · rw [if_pos hseen, if_pos ((h c).1 hseen)]
      exact ih h
    · rw [if_neg hseen, if_neg fun hkept => hseen ((h c).2 hkept)]
      refine congrArg (c :: ·) (ih fun d => ?_)
      rw [List.mem_cons, h d]
      constructor
      · rintro (hd | ⟨k, hk, hsame⟩)
        · exact ⟨c, by simp, hd⟩
        · exact ⟨k, List.mem_append_left _ hk, hsame⟩
      · rintro ⟨k, hk, hsame⟩
        rcases List.mem_append.1 hk with hk | hk
        · exact Or.inr ⟨k, hk, hsame⟩
        · rw [List.mem_singleton] at hk
          exact Or.inl (hk ▸ hsame)

/-- The sources in front are all different, and new. -/
theorem split_nodup (cands : List (CandidateEvidence α)) : ∀ seen : List Text,
    ((splitBySource seen cands).1.map CandidateEvidence.sourceId).Nodup ∧
      ∀ c ∈ (splitBySource seen cands).1, c.sourceId ∉ seen := by
  induction cands with
  | nil => exact fun _ => ⟨List.nodup_nil, fun c hc => by cases hc⟩
  | cons c cands ih =>
    intro seen
    rw [splitBySource]
    split_ifs with hseen
    · exact ih seen
    · obtain ⟨hnodup, hnew⟩ := ih (c.sourceId :: seen)
      refine ⟨?_, ?_⟩
      · rw [List.map_cons, List.nodup_cons]
        refine ⟨fun hmem => ?_, hnodup⟩
        obtain ⟨d, hd, hsame⟩ := List.mem_map.1 hmem
        exact hnew d hd (by simp [hsame])
      · rintro d (_ | ⟨_, hd⟩)
        · exact hseen
        · exact fun hmem => hnew d hd (List.mem_cons_of_mem _ hmem)

/-- The source of every candidate is seen, or stands in front. -/
theorem source_mem_split (cands : List (CandidateEvidence α)) : ∀ {seen : List Text}, ∀ c ∈ cands,
    c.sourceId ∈ seen ∨ c.sourceId ∈ (splitBySource seen cands).1.map CandidateEvidence.sourceId := by
  induction cands with
  | nil => exact fun c hc => by cases hc
  | cons c cands ih =>
    intro seen d hd
    rw [splitBySource]
    split_ifs with hseen
    · rcases List.mem_cons.1 hd with rfl | hd
      · exact Or.inl hseen
      · exact ih d hd
    · rcases List.mem_cons.1 hd with rfl | hd
      · exact Or.inr (by simp)
      · have hrest := @ih (c.sourceId :: seen) d hd
        rcases hrest with h | h
        · rcases List.mem_cons.1 h with h | h
          · exact Or.inr (by simp [h])
          · exact Or.inl h
        · exact Or.inr (List.mem_cons_of_mem _ h)

/-! ### The second pass -/

/-- No source is new, so the loop runs to the end and takes nothing, or it does not run. -/
theorem takeSources_of_seen {minSources : ℤ} {seen : List Text} {diverse : List (CandidateEvidence α)} :
    ∀ {rest : List (CandidateEvidence α)}, (∀ c ∈ rest, c.sourceId ∈ seen) →
      takeSources minSources seen diverse rest = if minSources ≤ seen.length then diverse ++ rest else diverse
  | [], _ => by simp [takeSources]
  | c :: rest, h => by
      rw [List.forall_mem_cons] at h
      rw [takeSources]
      by_cases henough : minSources ≤ seen.length
      · rw [if_pos henough, if_pos henough]
      · rw [if_neg henough, if_pos h.1, takeSources_of_seen h.2, if_neg henough, if_neg henough]

/-! ### Both -/

/-- There are as many in front as there are sources. -/
theorem length_split (cands : List (CandidateEvidence α)) :
    (splitBySource [] cands).1.length = (cands.map CandidateEvidence.sourceId).dedup.length := by
  rw [← List.length_map CandidateEvidence.sourceId]
  refine ((List.perm_ext_iff_of_nodup (split_nodup cands []).1 (List.nodup_dedup _)).2 fun s => ?_).length_eq
  rw [List.mem_dedup]
  constructor
  · intro hs
    obtain ⟨c, hc, rfl⟩ := List.mem_map.1 hs
    exact List.mem_map_of_mem ((split_perm cands []).mem_iff.1 (List.mem_append_left _ hc))
  · intro hs
    obtain ⟨c, hc, rfl⟩ := List.mem_map.1 hs
    exact (source_mem_split cands c hc).resolve_left (by simp)

/-- Nothing is left over just where no source comes twice. -/
theorem rest_eq_nil_iff (cands : List (CandidateEvidence α)) :
    (splitBySource [] cands).2 = [] ↔ (cands.map CandidateEvidence.sourceId).Nodup := by
  have hperm := split_perm cands []
  constructor
  · intro hnil
    rw [hnil, List.append_nil] at hperm
    exact (hperm.map _).nodup_iff.1 (split_nodup cands []).1
  · intro hnodup
    have hlength := hperm.length_eq
    rw [List.length_append, length_split, List.dedup_eq_self.2 hnodup, List.length_map] at hlength
    exact List.length_eq_zero_iff.1 (by omega)

theorem enforceSourceDiversity_eq (cfg : Pipeline α) {decision : RetrievalDecision}
    (hpurpose : decision.purpose = "comparative_summary".toList) (cands : List (CandidateEvidence α)) :
    enforceSourceDiversity cfg decision cands =
      if cfg.minSourceDiversity ≤ (cands.map CandidateEvidence.sourceId).dedup.length
      then (splitBySource [] cands).1 ++ (splitBySource [] cands).2 else (splitBySource [] cands).1 := by
  rw [enforceSourceDiversity, if_neg (not_not.2 hpurpose), ← length_split, ← List.length_map CandidateEvidence.sourceId]
  refine takeSources_of_seen fun c hc => ?_
  exact (source_mem_split cands c ((split_perm cands []).mem_iff.1 (List.mem_append_right _ hc))).resolve_left (by simp)

/-- REORDERS: the sources are put in front and nothing is lost just where there are sources enough, or no source
    comes twice. -/
theorem diversity_reorders_iff (cfg : Pipeline α) (decision : RetrievalDecision)
    (hpurpose : decision.purpose = "comparative_summary".toList) (cands : List (CandidateEvidence α)) :
    Diverse cands (enforceSourceDiversity cfg decision cands) ↔
      cfg.minSourceDiversity ≤ (cands.map CandidateEvidence.sourceId).dedup.length ∨
        (cands.map CandidateEvidence.sourceId).Nodup := by
  have hfirsts : (splitBySource [] cands).1 = firsts SameSource cands := split_fst cands (by simp)
  rw [enforceSourceDiversity_eq cfg hpurpose, ← rest_eq_nil_iff]
  split_ifs with henough
  · exact iff_of_true ⟨split_perm cands [], hfirsts ▸ List.prefix_append _ _⟩ (Or.inl henough)
  · rw [or_iff_right henough]
    constructor
    · rintro ⟨hperm, -⟩
      have hlength := hperm.length_eq.trans (split_perm cands []).length_eq.symm
      rw [List.length_append] at hlength
      exact List.length_eq_zero_iff.1 (by omega)
    · intro hnil
      have hperm := split_perm cands []
      rw [hnil, List.append_nil] at hperm
      exact ⟨hperm, hfirsts ▸ List.prefix_rfl⟩

def comparing : RetrievalDecision := ⟨true, "comparative_summary".toList, false⟩

/-- A candidate of a source. -/
def candidateOf (chunk source : String) : CandidateEvidence ℚ where
  docId := source.toList
  chunkId := chunk.toList
  sourceId := source.toList
  title := []
  content := chunk.toList
  sourceType := "knowledge".toList
  authorityLevel := 7 / 10
  scoreBreakdown := ⟨0, 0, 0, 0, 0, 0, 0, 4 / 5⟩
  relevancePassed := true
  filterReason := []
  retrievalStage := []
  metadata := .empty

theorem diversity_reorders_two : Diverse [candidateOf "c1" "s1", candidateOf "c2" "s1", candidateOf "c3" "s2"]
    (enforceSourceDiversity plainPipeline comparing
      [candidateOf "c1" "s1", candidateOf "c2" "s1", candidateOf "c3" "s2"]) :=
  (diversity_reorders_iff plainPipeline comparing rfl _).2 (Or.inl (by decide +kernel))

/-- Where two sources are wanted and there is one, its second chunk is lost. -/
theorem second_chunk_lost : ¬ ∀ (cfg : Pipeline ℚ) (decision : RetrievalDecision)
    (cands : List (CandidateEvidence ℚ)), decision.purpose = "comparative_summary".toList →
      Diverse cands (enforceSourceDiversity cfg decision cands) := by
  intro h
  have hlength := (h plainPipeline comparing [candidateOf "c1" "s1", candidateOf "c2" "s1"] rfl).perm.length_eq
  revert hlength
  decide +kernel

end AgentLangraph.Evidence
