import AgentLangraph.Evidence.Pipeline

/-! What the retrieval node leaves in `retrieved_knowledge`. The hits of the packets take the place of the raw hits
    only where there are any: what the gate refuses comes back when it refuses everything. -/

namespace AgentLangraph.Evidence
open PyText PyFloat Knowledge

section
variable {α : Type*} [PyFloat α] (cfg : Pipeline α)

/-- The packet is of the candidate. -/
def BuiltFrom (p : EvidencePacket α) (c : CandidateEvidence α) : Prop :=
  p.chunkId = c.chunkId ∧ p.sourceId = c.sourceId ∧ p.scoreBreakdown = c.scoreBreakdown

/-- The entry is the hit of the packet. -/
def HitOf (k : Entry α) (p : EvidencePacket α) : Prop :=
  ∃ cands, k = (Entry.packet (packetHit cands p)).sanitize cfg

/-- All that is retrieved is the hit of a packet that was built from an admitted candidate. -/
def AllAdmitted (f : Findings α) : Prop :=
  ∀ k ∈ f.knowledge, ∃ p ∈ f.packets, HitOf cfg k p ∧ ∃ c ∈ f.admitted, BuiltFrom p c

/-- The candidates that come out of the gate, once each and of enough sources. -/
def keptCandidates (query : QueryObject) (decision : RetrievalDecision) (hits : List (Hit α)) :
    List (CandidateEvidence α) :=
  enforceSourceDiversity cfg decision (deduplicateCandidates cfg
    (applyAdmissionGate cfg.toAdmission query decision (hits.map CandidateEvidence.fromHit)).admittedObjects)

/-- The pipeline has something to give: it is asked to retrieve, its gate admits a candidate, a source may have a
    chunk, and the first packet is within the budget. -/
structure Gives (query : QueryObject) (decision : RetrievalDecision) (hits : List (Hit α)) : Prop where
  need : decision.needRetrieval = true
  admits : (applyAdmissionGate cfg.toAdmission query decision
    (hits.map CandidateEvidence.fromHit)).admittedObjects ≠ []
  cap : 0 < cfg.maxChunksPerSource
  budget : cfg.tokenBudget ≠ 0 → ∀ c ∈ (keptCandidates cfg query decision hits).head?,
    packetTokens (packetOf cfg query decision c 0) ≤ cfg.tokenBudget

end

/-! ### What the steps keep -/

section
variable {α : Type*}

theorem mem_splitBySource {cands : List (CandidateEvidence α)} {c : CandidateEvidence α} : ∀ {seen : List Text},
    c ∈ (splitBySource seen cands).1 ∨ c ∈ (splitBySource seen cands).2 → c ∈ cands := by
  induction cands with
  | nil => exact fun h => h.elim id id
  | cons d cands ih =>
    intro seen h
    rw [splitBySource] at h
    split_ifs at h
    · rcases h with h | h
      · exact List.mem_cons_of_mem d (ih (Or.inl h))
      · rcases List.mem_cons.1 h with rfl | h
        · exact List.mem_cons_self
        · exact List.mem_cons_of_mem d (ih (Or.inr h))
    · rcases h with h | h
      · rcases List.mem_cons.1 h with rfl | h
        · exact List.mem_cons_self
        · exact List.mem_cons_of_mem d (ih (Or.inl h))
      · exact List.mem_cons_of_mem d (ih (Or.inr h))

theorem takeSources_spec (minSources : ℤ) (rest : List (CandidateEvidence α)) : ∀ seen diverse,
    diverse <+: takeSources minSources seen diverse rest ∧
      ∀ c ∈ takeSources minSources seen diverse rest, c ∈ diverse ∨ c ∈ rest := by
  induction rest with
  | nil => exact fun seen diverse => ⟨List.prefix_rfl, fun c h => Or.inl h⟩
  | cons d rest ih =>
    intro seen diverse
    rw [takeSources]
    split_ifs
    · exact ⟨List.prefix_append _ _, fun c h => List.mem_append.1 h⟩
    · obtain ⟨hfront, hmem⟩ := ih seen diverse
      exact ⟨hfront, fun c h => (hmem c h).imp_right (List.mem_cons_of_mem d)⟩
    · obtain ⟨hfront, hmem⟩ := ih (d.sourceId :: seen) (diverse ++ [d])
      refine ⟨(List.prefix_append _ _).trans hfront, fun c h => ?_⟩
      rcases hmem c h with h | h
      · rcases List.mem_append.1 h with h | h
        · exact Or.inl h
        · exact Or.inr (List.mem_singleton.1 h ▸ List.mem_cons_self)
      · exact Or.inr (List.mem_cons_of_mem d h)

theorem mem_enforceSourceDiversity {cfg : Pipeline α} {decision : RetrievalDecision}
    {cands : List (CandidateEvidence α)}
    {c : CandidateEvidence α} (h : c ∈ enforceSourceDiversity cfg decision cands) : c ∈ cands := by
  rw [enforceSourceDiversity] at h
  split_ifs at h
  · exact h
  · exact mem_splitBySource ((takeSources_spec _ _ _ _).2 c h)

/-- The first candidate is the first of its source. -/
theorem enforceSourceDiversity_ne_nil_iff {cfg : Pipeline α} {decision : RetrievalDecision}
    {cands : List (CandidateEvidence α)} :
    enforceSourceDiversity cfg decision cands ≠ [] ↔ cands ≠ [] := by
  constructor
  · intro h
    obtain ⟨c, hc⟩ := List.exists_mem_of_ne_nil _ h
    exact List.ne_nil_of_mem (mem_enforceSourceDiversity hc)
  · intro h
    obtain ⟨c, l, rfl⟩ := List.exists_cons_of_ne_nil h
    rw [enforceSourceDiversity]
    split_ifs
    · exact List.cons_ne_nil c l
    · have hfirst : c ∈ (splitBySource [] (c :: l)).1 := by
        rw [splitBySource, if_neg List.not_mem_nil]
        exact List.mem_cons_self
      exact List.ne_nil_of_mem ((takeSources_spec _ _ _ _).1.subset hfirst)

theorem prefix_withinBudget (maxTokens : ℕ) (packets : List (EvidencePacket α)) : ∀ used,
    withinBudget maxTokens used packets <+: packets := by
  induction packets with
  | nil => exact fun used => List.prefix_rfl
  | cons p packets ih =>
    intro used
    rw [withinBudget]
    split_ifs
    · exact List.nil_prefix
    · exact (List.prefix_cons_inj p).2 (ih _)

theorem prefix_applyTokenBudget (maxTokens : ℕ) (packets : List (EvidencePacket α)) :
    applyTokenBudget maxTokens packets <+: packets := by
  rw [applyTokenBudget]
  split_ifs
  · exact List.prefix_rfl
  · exact prefix_withinBudget _ _ _

/-- The budget leaves something exactly when it leaves the first packet. -/
theorem applyTokenBudget_ne_nil_iff {maxTokens : ℕ} {packets : List (EvidencePacket α)} :
    applyTokenBudget maxTokens packets ≠ [] ↔
      packets ≠ [] ∧ (maxTokens ≠ 0 → ∀ p ∈ packets.head?, packetTokens p ≤ maxTokens) := by
  cases packets with
  | nil => simp [applyTokenBudget, withinBudget]
  | cons p packets =>
    rw [applyTokenBudget]
    split_ifs with hzero
    · simp [hzero]
    · rw [withinBudget, Nat.zero_add]
      by_cases hfits : maxTokens < packetTokens p
      · simp [hfits, hzero]
      · simp [hfits, Nat.le_of_not_lt hfits]

end

section
variable {α : Type*} [PyFloat α] {cfg : Pipeline α}

theorem prefix_keepFrom (cands : List (CandidateEvidence α)) : ∀ kept, kept <+: keepFrom cfg kept cands := by
  induction cands with
  | nil => exact fun kept => List.prefix_rfl
  | cons c cands ih =>
    intro kept
    rw [keepFrom]
    split_ifs
    · exact List.prefix_rfl
    · exact ih kept
    · exact (List.prefix_append kept [c]).trans (ih _)

theorem mem_keepFrom {cands : List (CandidateEvidence α)} : ∀ {kept : List (CandidateEvidence α)} {c},
    c ∈ keepFrom cfg kept cands → c ∈ kept ∨ c ∈ cands := by
  induction cands with
  | nil => exact fun h => Or.inl h
  | cons d cands ih =>
    intro kept c h
    rw [keepFrom] at h
    split_ifs at h
    · exact Or.inl h
    · exact (ih h).imp_right (List.mem_cons_of_mem d)
    · rcases ih h with h | h
      · rcases List.mem_append.1 h with h | h
        · exact Or.inl h
        · exact Or.inr (List.mem_singleton.1 h ▸ List.mem_cons_self)
      · exact Or.inr (List.mem_cons_of_mem d h)

theorem mem_deduplicate {cands : List (CandidateEvidence α)} {c : CandidateEvidence α}
    (h : c ∈ deduplicateCandidates cfg cands) : c ∈ cands := by
  rw [deduplicateCandidates, mem_sortDesc] at h
  obtain ⟨⟨source, bucket⟩, he, hc⟩ := List.mem_flatMap.1 h
  have hmem := (mem_keepFrom hc).resolve_left List.not_mem_nil
  rw [(PyDict.mem_groupBy.1 he).1, mem_sortDesc] at hmem
  exact List.mem_of_mem_filter hmem

theorem deduplicate_ne_nil_iff {cands : List (CandidateEvidence α)} :
    deduplicateCandidates cfg cands ≠ [] ↔ cands ≠ [] ∧ 0 < cfg.maxChunksPerSource := by
  constructor
  · intro h
    obtain ⟨c, hc⟩ := List.exists_mem_of_ne_nil _ h
    refine ⟨List.ne_nil_of_mem (mem_deduplicate hc), ?_⟩
    by_contra hcap
    rw [deduplicateCandidates, mem_sortDesc] at hc
    obtain ⟨e, -, hc⟩ := List.mem_flatMap.1 hc
    have hnil : keepFrom cfg [] (sortDesc totalScore e.2) = [] := by
      cases sortDesc totalScore e.2 with
      | nil => rfl
      | cons d l =>
        rw [keepFrom, if_pos]
        simpa using hcap
    rw [hnil] at hc
    exact List.not_mem_nil hc
  · rintro ⟨hne, hcap⟩
    obtain ⟨c, hc⟩ := List.exists_mem_of_ne_nil _ hne
    have hentry := (PyDict.mem_groupBy (f := CandidateEvidence.sourceId)).2 ⟨rfl, c, hc, rfl⟩
    have hbucket : c ∈ sortDesc totalScore (cands.filter fun d => d.sourceId = c.sourceId) :=
      mem_sortDesc.2 (List.mem_filter.2 ⟨hc, by simp⟩)
    obtain ⟨d, l, hl⟩ := List.exists_cons_of_ne_nil (List.ne_nil_of_mem hbucket)
    have hkept : d ∈ keepFrom cfg [] (d :: l) := by
      rw [keepFrom, if_neg (by simpa using hcap)]
      exact (prefix_keepFrom l [d]).subset (List.mem_singleton_self d)
    refine List.ne_nil_of_mem (a := d) ?_
    rw [deduplicateCandidates, mem_sortDesc]
    exact List.mem_flatMap.2 ⟨_, hentry, hl ▸ hkept⟩

theorem mem_keptCandidates {query : QueryObject} {decision : RetrievalDecision} {hits : List (Hit α)}
    {c : CandidateEvidence α} (h : c ∈ keptCandidates cfg query decision hits) :
    c ∈ (applyAdmissionGate cfg.toAdmission query decision (hits.map CandidateEvidence.fromHit)).admittedObjects :=
  mem_deduplicate (mem_enforceSourceDiversity h)

/-- Every packet of the pipeline was built from a candidate that its gate has admitted. -/
theorem built_of_mem_packets {query : QueryObject} {decision : RetrievalDecision} {hits : List (Hit α)}
    {p : EvidencePacket α} (h : p ∈ (runEvidencePipeline cfg query decision hits).packets) :
    ∃ c ∈ (runEvidencePipeline cfg query decision hits).admitted, BuiltFrom p c := by
  rw [runEvidencePipeline] at h ⊢
  split_ifs at h ⊢
  · exact nomatch h
  · obtain ⟨p', hp', rfl⟩ := List.mem_map.1 h
    obtain ⟨⟨c, i⟩, hc, rfl⟩ := List.mem_map.1 ((prefix_applyTokenBudget _ _).subset hp')
    refine ⟨c, mem_keptCandidates (List.fst_mem_of_mem_zipIdx hc), ?_⟩
    dsimp only
    split_ifs <;> exact ⟨rfl, rfl, rfl⟩

theorem packets_ne_nil_iff {query : QueryObject} {decision : RetrievalDecision} {hits : List (Hit α)} :
    (runEvidencePipeline cfg query decision hits).packets ≠ [] ↔ Gives cfg query decision hits := by
  cases hneed : decision.needRetrieval with
  | false =>
    refine iff_of_false ?_ fun h => absurd (hneed.symm.trans h.need) Bool.false_ne_true
    rw [runEvidencePipeline, hneed]
    exact fun h => h rfl
  | true =>
    have hpackets : (runEvidencePipeline cfg query decision hits).packets =
        applyConflictFlags (cfg.losers (keptCandidates cfg query decision hits))
          (applyTokenBudget cfg.tokenBudget
            (assembleEvidencePackets cfg query decision (keptCandidates cfg query decision hits))) := by
      rw [runEvidencePipeline, hneed]
      rfl
    have hhead : (assembleEvidencePackets cfg query decision (keptCandidates cfg query decision hits)).head? =
        (keptCandidates cfg query decision hits).head?.map fun c => packetOf cfg query decision c 0 := by
      rw [assembleEvidencePackets]
      cases keptCandidates cfg query decision hits <;> rfl
    have hkept : keptCandidates cfg query decision hits ≠ [] ↔
        (applyAdmissionGate cfg.toAdmission query decision
          (hits.map CandidateEvidence.fromHit)).admittedObjects ≠ [] ∧ 0 < cfg.maxChunksPerSource := by
      rw [keptCandidates, enforceSourceDiversity_ne_nil_iff, deduplicate_ne_nil_iff]
    have hassemble : assembleEvidencePackets cfg query decision (keptCandidates cfg query decision hits) ≠ [] ↔
        keptCandidates cfg query decision hits ≠ [] := by
      rw [assembleEvidencePackets, Ne, List.map_eq_nil_iff, List.zipIdx_eq_nil_iff]
    rw [hpackets, applyConflictFlags, Ne, List.map_eq_nil_iff, ← Ne, applyTokenBudget_ne_nil_iff, hassemble, hkept,
      hhead]
    constructor
    · rintro ⟨⟨hadmits, hcap⟩, hbudget⟩
      exact ⟨hneed, hadmits, hcap, fun hzero c hc => hbudget hzero _ (Option.mem_map_of_mem _ hc)⟩
    · intro h
      refine ⟨⟨h.admits, h.cap⟩, fun hzero p hp => ?_⟩
      obtain ⟨c, hc, rfl⟩ := Option.mem_map.1 hp
      exact h.budget hzero c hc

theorem hits_eq (query : QueryObject) (decision : RetrievalDecision) (hits : List (Hit α)) :
    ∃ cands, (runEvidencePipeline cfg query decision hits).hits =
      (runEvidencePipeline cfg query decision hits).packets.map (packetHit cands) := by
  rw [runEvidencePipeline]
  split_ifs
  · exact ⟨[], rfl⟩
  · exact ⟨_, rfl⟩

/-- With the pipeline enabled everything that the node leaves was admitted exactly when the node fails and the
    state was so before, or nothing is searched or found, or the pipeline has something to give. -/
theorem all_admitted_iff (cfg : Pipeline α) (r : Round α) (henabled : cfg.enabled = true) :
    AllAdmitted cfg (retrievalNode cfg r) ↔
      if r.raises then AllAdmitted cfg r.state
      else r.skip ∨ rawHits r = [] ∨ Gives cfg r.queryObject r.decision (lastHits cfg r) := by
  by_cases hraises : r.raises = true
  · rw [retrievalNode, if_pos hraises, if_pos hraises]
  · rw [if_neg hraises]
    by_cases hskip : r.skip = true
    · rw [retrievalNode, if_neg hraises, if_pos hskip]
      exact iff_of_true (fun k hk => nomatch hk) (Or.inl hskip)
    · rw [or_iff_right hskip, ← packets_ne_nil_iff, retrievalNode, if_neg hraises, if_neg hskip, if_pos henabled]
      dsimp only
      obtain ⟨cands, hhits⟩ := @hits_eq α _ cfg r.queryObject r.decision (lastHits cfg r)
      by_cases hnone : (runEvidencePipeline cfg r.queryObject r.decision (lastHits cfg r)).packets = []
      · -- the raw hits are handed on instead
        rw [hhits, hnone, List.map_nil, if_neg (not_not.2 rfl), or_iff_left (not_not.2 rfl)]
        constructor
        · intro hall
          by_contra hraw
          obtain ⟨h, hh⟩ := List.exists_mem_of_ne_nil _ hraw
          obtain ⟨p, hp, -⟩ := hall _ (List.mem_map_of_mem (List.mem_map_of_mem hh))
          exact nomatch hp
        · intro hraw k hk
          rw [hraw] at hk
          exact nomatch hk
      · refine iff_of_true ?_ (Or.inr hnone)
        rw [hhits, if_pos (by simpa using hnone)]
        intro k hk
        obtain ⟨k', hk', rfl⟩ := List.mem_map.1 hk
        obtain ⟨h, hh, rfl⟩ := List.mem_map.1 hk'
        obtain ⟨p, hp, rfl⟩ := List.mem_map.1 hh
        exact ⟨p, hp, ⟨cands, rfl⟩, built_of_mem_packets hp⟩

end

/-- Settings under which everything is said of plain texts. -/
def plainPipeline : Pipeline ℚ where
  gateEnabled := true
  shadowEnabled := true
  mode := "hard".toList
  minScore := 1 / 4
  purposeThresholds := fun _ => none
  purposeTopK := fun _ => none
  topK := 5
  sourceAuthorityPrior := fun _ => none
  lower := fun t => t.map Char.toLower
  hasSteps := fun _ => false
  hasError := fun _ => false
  toFloat := fun _ => 0
  recency := fun _ => 1 / 2
  enabled := true
  maxChunksPerSource := 2
  minSourceDiversity := 2
  words := split
  similar := fun _ _ => false
  snippet := fun _ _ c => c.content
  tokenBudget := 4000
  losers := fun _ => []
  packetId := fun i => (toString i).toList
  rewriteMaxRetries := 1
  rewriteWithLlm := false
  sanitizeText := id
  sanitizeTitle := id

/-- One search that finds one hit of this relevance. -/
def oneHit (relevance : ℚ) : Round ℚ where
  state := ⟨[], [], []⟩
  skip := false
  query := "x".toList
  queryObject := ⟨"x".toList, [], [], "unspecified".toList⟩
  decision := ⟨true, "general_grounded".toList, false⟩
  mustHaveTerms := []
  searchQueries := ["x".toList]
  search := fun _ => [{
    docId := "a".toList, title := [], content := "x".toList, score := relevance, rerankScore := 0, rrfScore := 0
    relevanceScore := 0, source := "keyword".toList, metadata := .empty }]
  rewritten := none
  raises := false

theorem admitted_of_relevant : AllAdmitted plainPipeline (retrievalNode plainPipeline (oneHit (9 / 10))) := by
  refine (all_admitted_iff _ _ rfl).2 ?_
  rw [if_neg (by decide)]
  exact Or.inr (Or.inr ⟨rfl, by decide +kernel, by decide, by decide +kernel⟩)

/-- The hard gate admits nothing, and the raw hit is handed on. -/
theorem raw_hit_passed : ¬ AllAdmitted plainPipeline (retrievalNode plainPipeline (oneHit (1 / 10))) := by
  have hknown : (retrievalNode plainPipeline (oneHit (1 / 10))).knowledge ≠ [] ∧
      (retrievalNode plainPipeline (oneHit (1 / 10))).packets = [] := by decide +kernel
  intro hall
  obtain ⟨k, hk⟩ := List.exists_mem_of_ne_nil _ hknown.1
  obtain ⟨p, hp, -⟩ := hall k hk
  rw [hknown.2] at hp
  exact nomatch hp

end AgentLangraph.Evidence
