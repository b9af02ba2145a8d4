import AgentLangraph.Knowledge.Hit

/-! From the hits of the two channels to the hits that are returned (`knowledge_store.py`, `reranker.py`). A hit
    gets a score at every stage, and the gate reads the first of them that is not zero:

        channel: score ──▶ merge: rrf_score ──▶ annotate: relevance_score := score ──▶ rerank: rerank_score ──▶ gate -/

namespace AgentLangraph.Knowledge
open PyText PyFloat

/-- The settings of a search, the tables behind `lower`, `isupper` and the words of a text, and what a rerank
    model answers (`none` where it fails or is late). -/
structure Search (α : Type*) where
  gate : Gate α
  topK : ℕ
  fetchKMultiplier : ℤ
  rerankEnabled : Bool
  rerankCandidateK : ℕ
  crossEncoderMinQueryLen : ℤ
  crossEncoderMaxDocs : ℤ
  lexicalRrfWeight : α
  maxChunksPerDoc : ℤ
  lower : Text → Text
  isUpper : Char → Bool
  words : Text → List Text
  model : Text → List (Hit α) → Option (List α)

/-- A channel gives hits with different ids, the best ones first, that have no score but its own. -/
structure Channel (α : Type*) [PyFloat α] where
  hits : List (Hit α)
  nodup : (hits.map Hit.docId).Nodup
  sorted : hits.Pairwise fun a b => b.score ≤ a.score
  fresh : ∀ h ∈ hits, h.rerankScore = 0 ∧ h.rrfScore = 0 ∧ h.relevanceScore = 0

/-- What the query and the decision say about a search, as far as it is read here. -/
structure Intent where
  latest : Bool
  lexicalHeavy : Bool
  deriving DecidableEq

section
variable {α : Type*} [PyFloat α]

/-- `1.0` and `lexical_weight` over the place of a hit. -/
def rrfShare (weight : α) (rank : ℕ) : α := weight / ((60 + rank + 1 : ℕ) : α)

def rrfAdd (weight : α) (scores : PyDict Text (α × Hit α)) (p : Hit α × ℕ) : PyDict Text (α × Hit α) :=
  scores.set p.1.docId (((scores.get? p.1.docId).map Prod.fst).getD 0 + rrfShare weight p.2, p.1)

/-- `_rrf_merge`. -/
def rrfMerge (a b : List (Hit α)) (topK : ℕ) (lexicalWeight : α) : List (Hit α) :=
  let scores := b.zipIdx.foldl (rrfAdd lexicalWeight) (a.zipIdx.foldl (rrfAdd 1.0) .empty)
  ((sortDesc (fun e => e.2.1) scores.entries).take topK).map fun e => { e.2.2 with rrfScore := e.2.1 }

def lexicalRrfWeight (cfg : Search α) (intent : Intent) : α :=
  if intent.lexicalHeavy then cfg.lexicalRrfWeight else 1.0

/-- `filter_stale_at_recall`, as far as it returns hits. -/
def filterStaleAtRecall (latest : Bool) (hits : List (Hit α)) : List (Hit α) :=
  if latest then
    hits.filter fun h => !((h.metadata.field "deprecated").truthy || (h.metadata.field "superseded").truthy ||
      (h.metadata.field "stale").truthy)
  else hits

variable (cfg : Search α)

/-- `_tokenize`, which is a set. -/
def rerankTokens (text : Text) : List Text :=
  (((cfg.words text).filter fun t => 1 < t.length).map cfg.lower).dedup

def lexicalScore (query : Text) (doc : Hit α) : α :=
  let tokens := rerankTokens cfg query
  if tokens = [] then orElse doc.score doc.rrfScore
  else
    let haystack := cfg.lower (doc.title ++ " ".toList ++ doc.content)
    let overlap := tokens.countP (contains haystack)
    let base := ((overlap : ℕ) : α) / ((tokens.length : ℕ) : α)
    let prior := orElse doc.rrfScore doc.score
    0.7 * base + 0.3 * min prior 1.0

def shouldUseCrossEncoder (query : Text) (docs : List (Hit α)) : Bool :=
  if (split query).length < cfg.crossEncoderMinQueryLen && !query.any cfg.isUpper then false
  else docs.length ≤ cfg.crossEncoderMaxDocs

/-- `_score_fn`, applied: the scores of the model, where one is asked. -/
def scoreDocs (query : Text) (docs : List (Hit α)) : Option (List α) :=
  if (cfg.gate.backend = "cross_encoder".toList && shouldUseCrossEncoder cfg query docs) ||
      cfg.gate.backend = "cohere".toList then
    cfg.model query docs
  else some (docs.map (lexicalScore cfg query))

/-- The documents in the order of their scores; where the backend fails, of their lexical scores. -/
def reranked (query : Text) (docs : List (Hit α)) : List (Hit α) :=
  let scores := (scoreDocs cfg query docs).getD (docs.map (lexicalScore cfg query))
  sortDesc Hit.rerankScore (List.zipWith (fun d s => { d with rerankScore := s }) docs scores)

/-- `top_k or settings.RETRIEVAL_TOP_K`. -/
def limitOf (topK : Option ℕ) : ℕ :=
  match topK with
  | none | some 0 => cfg.topK
  | some k => k

/-- `_apply_threshold_filter`. -/
def applyThresholdFilter (docs : List (Hit α)) (limit : ℕ) : List (Hit α) :=
  if !cfg.gate.enabled then (docs.take limit).map fun d => annotateHit d "rerank".toList 0
  else (applyRelevanceGate cfg.gate docs "rerank".toList).take limit

def rerank (query : Text) (docs : List (Hit α)) (topK : Option ℕ) : List (Hit α) :=
  if docs = [] then []
  else if !cfg.rerankEnabled then docs.take (limitOf cfg topK)
  else applyThresholdFilter cfg (reranked cfg query docs) (limitOf cfg topK)

def limitPerDocFrom (maxPerDoc : ℤ) : PyDict Text ℕ → List (Hit α) → List (Hit α)
  | _, [] => []
  | seen, h :: hits =>
    let parent := textField h.metadata "parent_doc_id"
    let group := if parent = [] then h.docId else parent
    let count := (seen.get? group).getD 0
    if maxPerDoc ≤ count then limitPerDocFrom maxPerDoc seen hits
    else h :: limitPerDocFrom maxPerDoc (seen.set group (count + 1)) hits

/-- `_limit_per_doc`. -/
def limitPerDoc (hits : List (Hit α)) (maxPerDoc : ℤ) : List (Hit α) :=
  if maxPerDoc ≤ 0 then hits else limitPerDocFrom maxPerDoc .empty hits

/-- `_finalize_hits`, before the neighbours of chunks are added. -/
def rankHits (query : Text) (limit : ℕ) (stage : Text) (latest rerankOn : Bool) (merged : List (Hit α)) :
    List (Hit α) :=
  let annotated := (filterStaleAtRecall latest merged).map fun h => annotateHit h stage 0
  let ranked :=
    if rerankOn then rerank cfg query annotated (some limit)
    else
      (if cfg.gate.enabled then applyRelevanceGate cfg.gate annotated stage else annotated).take limit
  limitPerDoc ranked cfg.maxChunksPerDoc

/-- How many hits a channel is asked for. -/
def fetchK (limit : ℕ) : ℕ :=
  let wide := limit * (max 1 cfg.fetchKMultiplier).toNat
  if cfg.rerankEnabled then max wide cfg.rerankCandidateK else wide

/-- The hits of the channels in one list, and the stage that it comes from. -/
def recallHits (limit : ℕ) (intent : Intent) (vector keyword : List (Hit α)) : List (Hit α) × Text :=
  if vector = [] then (keyword, "keyword".toList)
  else if keyword = [] then (vector, "vector".toList)
  else
    (rrfMerge vector keyword (fetchK cfg limit) (lexicalRrfWeight cfg intent), "rrf".toList)

/-- `hybrid_search` of the hits of the channels, before the neighbours of chunks are added. -/
def hybridRanked (query : Text) (topK : Option ℕ) (intent : Intent) (vector keyword : List (Hit α)) :
    List (Hit α) :=
  let limit := limitOf cfg topK
  let merged := recallHits cfg limit intent vector keyword
  rankHits cfg query limit merged.2 intent.latest cfg.rerankEnabled merged.1

/-! ### The score of the last stage -/

/-- The score of the last stage that ran. -/
def lastScore (stage : Text) (h : Hit α) : α :=
  if cfg.rerankEnabled then h.rerankScore else if stage = "rrf".toList then h.rrfScore else h.score

/-- What the gate is given: the annotated hits, with the scores of the reranker if it is on. -/
def gated (query : Text) (intent : Intent) (merged : List (Hit α) × Text) : List (Hit α) :=
  let annotated := (filterStaleAtRecall intent.latest merged.1).map fun h => annotateHit h merged.2 0
  if cfg.rerankEnabled then reranked cfg query annotated else annotated

/-- The hits come in the order of the score of the last stage, which is the one that the gate reads. -/
structure LastStageDecides (query : Text) (topK : Option ℕ) (intent : Intent) (vector keyword : Channel α) :
    Prop where
  ordered : (hybridRanked cfg query topK intent vector.hits keyword.hits).Pairwise fun a b =>
    lastScore cfg (recallHits cfg (limitOf cfg topK) intent vector.hits keyword.hits).2 b ≤
      lastScore cfg (recallHits cfg (limitOf cfg topK) intent vector.hits keyword.hits).2 a
  threshold : cfg.gate.enabled →
    ∀ h ∈ gated cfg query intent (recallHits cfg (limitOf cfg topK) intent vector.hits keyword.hits),
      relevanceScore h = lastScore cfg (recallHits cfg (limitOf cfg topK) intent vector.hits keyword.hits).2 h

/-- The score that a hit was recalled with. -/
def recallScore (h : Hit α) : α := orElse h.score h.rrfScore

end

section
variable {α : Type*}

theorem filterStaleAtRecall_sublist (latest : Bool) (hits : List (Hit α)) :
    (filterStaleAtRecall latest hits).Sublist hits := by
  rw [filterStaleAtRecall]
  split_ifs
  · exact List.filter_sublist
  · exact List.Sublist.refl _

theorem limitPerDocFrom_sublist (maxPerDoc : ℤ) (hits : List (Hit α)) : ∀ seen : PyDict Text ℕ,
    (limitPerDocFrom maxPerDoc seen hits).Sublist hits := by
  induction hits with
  | nil => exact fun _ => List.Sublist.refl _
  | cons h hits ih =>
    intro seen
    rw [limitPerDocFrom]
    split_ifs
    · exact (ih seen).cons h
    · exact (ih _).cons_cons h
    · exact (ih seen).cons h
    · exact (ih _).cons_cons h

theorem limitPerDoc_sublist (hits : List (Hit α)) (maxPerDoc : ℤ) : (limitPerDoc hits maxPerDoc).Sublist hits := by
  rw [limitPerDoc]
  split_ifs
  · exact List.Sublist.refl _
  · exact limitPerDocFrom_sublist _ _ _

end

/-! ### The score that the gate reads -/

section
variable {α : Type*} [PyFloat α] {cfg : Search α}

/-- A hit of the channels, or of both of them merged. -/
def Recalled (h : Hit α) : Prop := h.rerankScore = 0 ∧ h.relevanceScore = 0

theorem relevanceScore_of_recalled {h : Hit α} (hrecalled : Recalled h) : relevanceScore h = recallScore h := by
  rw [relevanceScore, hrecalled.1, hrecalled.2, orElse_zero_left, orElse_zero_left, recallScore]

theorem lastScore_annotateHit (h : Hit α) (stage stage' : Text) (threshold : α) :
    lastScore cfg stage (annotateHit h stage' threshold) = lastScore cfg stage h := rfl

/-- The gate reads the score of the reranker only of a hit that was recalled with none. -/
theorem relevanceScore_eq_last_iff {h : Hit α} {stage : Text} (hrelevance : h.relevanceScore = recallScore h)
    (hrerank : cfg.rerankEnabled = false → h.rerankScore = 0) :
    relevanceScore h = lastScore cfg stage h ↔ recallScore h = 0 ∨ recallScore h = lastScore cfg stage h := by
  have hread : relevanceScore h = orElse (recallScore h) (orElse h.rerankScore (recallScore h)) := by
    rw [relevanceScore, hrelevance]
    rfl
  by_cases hzero : recallScore h = 0
  · rw [hread, hzero, orElse_zero_left, orElse_zero_right]
    refine iff_of_true ?_ (Or.inl rfl)
    rw [lastScore]
    obtain ⟨hscore, hrrf⟩ := orElse_eq_zero.1 hzero
    split_ifs with hon hstage
    · rfl
    · rw [hrrf, hrerank (Bool.not_eq_true _ ▸ hon)]
    · rw [hscore, hrerank (Bool.not_eq_true _ ▸ hon)]
  · rw [hread, orElse_of_ne hzero, or_iff_right hzero]

/-! ### What the stages keep -/

theorem forall_rrfAdd {P : Hit α → Prop} (weight : α) (l : List (Hit α × ℕ)) : ∀ scores : PyDict Text (α × Hit α),
    (∀ e ∈ scores.entries, P e.2.2) → (∀ p ∈ l, P p.1) →
    ∀ e ∈ (l.foldl (rrfAdd weight) scores).entries, P e.2.2 := by
  induction l with
  | nil => exact fun scores h _ => h
  | cons p l ih =>
    intro scores h hl
    rw [List.forall_mem_cons] at hl
    refine ih _ (fun e he => ?_) hl.2
    rcases PyDict.mem_entries_set he with he | rfl
    · exact h e he
    · exact hl.1

theorem recalled_rrfMerge {a b : List (Hit α)} (ha : ∀ h ∈ a, Recalled h) (hb : ∀ h ∈ b, Recalled h) (topK : ℕ)
    (weight : α) : ∀ h ∈ rrfMerge a b topK weight, Recalled h := by
  intro h hh
  obtain ⟨e, he, rfl⟩ := List.mem_map.1 hh
  have hmem := mem_sortDesc.1 (List.mem_of_mem_take he)
  have hzip {l : List (Hit α)} (hl : ∀ h ∈ l, Recalled h) : ∀ p ∈ l.zipIdx, Recalled p.1 :=
    fun p hp => hl p.1 (List.fst_mem_of_mem_zipIdx hp)
  exact forall_rrfAdd weight _ _ (forall_rrfAdd 1.0 _ _ (fun e he => nomatch he) (hzip ha)) (hzip hb) e hmem

theorem Channel.recalled (c : Channel α) : ∀ h ∈ c.hits, Recalled h :=
  fun h hh => ⟨(c.fresh h hh).1, (c.fresh h hh).2.2⟩

theorem recalled_recall (limit : ℕ) (intent : Intent) (vector keyword : Channel α) :
    ∀ h ∈ (recallHits cfg limit intent vector.hits keyword.hits).1, Recalled h := by
  rw [recallHits]
  split_ifs
  · exact keyword.recalled
  · exact vector.recalled
  · exact recalled_rrfMerge vector.recalled keyword.recalled _ _

/-- What is recalled is in the order of the score of its stage. -/
theorem sorted_recall (limit : ℕ) (intent : Intent) (vector keyword : Channel α)
    (hoff : cfg.rerankEnabled = false) :
    (recallHits cfg limit intent vector.hits keyword.hits).1.Pairwise fun a b =>
      lastScore cfg (recallHits cfg limit intent vector.hits keyword.hits).2 b ≤
        lastScore cfg (recallHits cfg limit intent vector.hits keyword.hits).2 a := by
  have hscore (stage : Text) (hstage : stage ≠ "rrf".toList) : lastScore cfg stage = Hit.score := by
    funext h
    rw [lastScore, hoff, if_neg Bool.false_ne_true, if_neg hstage]
  have hrrf : lastScore cfg "rrf".toList = Hit.rrfScore := by
    funext h
    rw [lastScore, hoff, if_neg Bool.false_ne_true, if_pos rfl]
  rw [recallHits]
  split_ifs
  · dsimp only
    rw [hscore "keyword".toList (by decide)]
    exact keyword.sorted
  · dsimp only
    rw [hscore "vector".toList (by decide)]
    exact vector.sorted
  · dsimp only
    rw [hrrf, rrfMerge, List.pairwise_map]
    exact (pairwise_sortDesc _ _).sublist (List.take_sublist _ _)

theorem mem_reranked {query : Text} {docs : List (Hit α)} {h : Hit α} (hh : h ∈ reranked cfg query docs) :
    ∃ d ∈ docs, ∃ s, h = { d with rerankScore := s } := by
  have hmem := mem_sortDesc.1 hh
  rw [← List.map_uncurry_zip_eq_zipWith] at hmem
  obtain ⟨⟨d, s⟩, hzip, rfl⟩ := List.mem_map.1 hmem
  exact ⟨d, (List.of_mem_zip hzip).1, s, rfl⟩

/-- What a hit has when it comes to the gate. -/
theorem relevance_of_mem_gated {query : Text} {intent : Intent} {merged : List (Hit α) × Text}
    (hmerged : ∀ h ∈ merged.1, Recalled h) {h : Hit α} (hh : h ∈ gated cfg query intent merged) :
    h.relevanceScore = recallScore h ∧ (cfg.rerankEnabled = false → h.rerankScore = 0) := by
  have hannotated : ∀ d ∈ (filterStaleAtRecall intent.latest merged.1).map fun h => annotateHit h merged.2 0,
      d.relevanceScore = recallScore d ∧ d.rerankScore = 0 := by
    intro d hd
    obtain ⟨x, hx, rfl⟩ := List.mem_map.1 hd
    have hrecalled := hmerged x ((filterStaleAtRecall_sublist _ _).subset hx)
    exact ⟨relevanceScore_of_recalled hrecalled, hrecalled.1⟩
  rw [gated] at hh
  split_ifs at hh with hon
  · obtain ⟨d, hd, s, rfl⟩ := mem_reranked hh
    exact ⟨(hannotated d hd).1, fun hoff => absurd hon (by rw [hoff]; exact Bool.false_ne_true)⟩
  · exact ⟨(hannotated h hh).1, fun _ => (hannotated h hh).2⟩

theorem sorted_gated (query : Text) (intent : Intent) (limit : ℕ) (vector keyword : Channel α) :
    (gated cfg query intent (recallHits cfg limit intent vector.hits keyword.hits)).Pairwise fun a b =>
      lastScore cfg (recallHits cfg limit intent vector.hits keyword.hits).2 b ≤
        lastScore cfg (recallHits cfg limit intent vector.hits keyword.hits).2 a := by
  rw [gated]
  split_ifs with hon
  · have hlast (stage : Text) : lastScore cfg stage = Hit.rerankScore := by
      funext h
      rw [lastScore, if_pos hon]
    rw [hlast]
    exact pairwise_sortDesc _ _
  · rw [List.pairwise_map]
    simp only [lastScore_annotateHit]
    exact (sorted_recall limit intent vector keyword (Bool.not_eq_true _ ▸ hon)).sublist
      (filterStaleAtRecall_sublist _ _)

/-! ### The gate -/

/-- The gate gives the hits in the order of the score that it reads. -/
theorem pairwise_applyRelevanceGate {stage stage' : Text} {hits : List (Hit α)}
    (hread : ∀ h ∈ hits, relevanceScore h = lastScore cfg stage h) :
    (applyRelevanceGate cfg.gate hits stage').Pairwise fun a b => lastScore cfg stage b ≤ lastScore cfg stage a := by
  rw [applyRelevanceGate]
  refine List.Pairwise.sublist List.filter_sublist (List.pairwise_map.2 ?_)
  have hsame (c : Prop) [Decidable c] (h : Hit α) (threshold : α) (reason : Text) :
      lastScore cfg stage (if c then { annotateHit h stage' threshold with
        relevancePassed := true, relevanceReason := reason } else annotateHit h stage' threshold) =
        lastScore cfg stage h := by
    split_ifs <;> rfl
  have hsorted := (pairwise_sortDesc relevanceScore hits).imp_of_mem
    (S := fun a b => lastScore cfg stage b ≤ lastScore cfg stage a) fun ha hb hle => by
      rwa [hread _ (mem_sortDesc.1 ha), hread _ (mem_sortDesc.1 hb)] at hle
  exact hsorted.imp fun {a b} hle => by simpa only [hsame] using hle

theorem applyThresholdFilter_nil (limit : ℕ) : applyThresholdFilter cfg [] limit = [] := by
  rw [applyThresholdFilter, List.take_nil]
  split_ifs
  · rfl
  · exact List.take_nil

/-- What comes of the hits that the gate is given. -/
theorem hybridRanked_eq (query : Text) (topK : Option ℕ) (intent : Intent) (vector keyword : List (Hit α)) :
    ∃ limit stage, hybridRanked cfg query topK intent vector keyword =
      limitPerDoc
        (if cfg.gate.enabled then
          (applyRelevanceGate cfg.gate
            (gated cfg query intent (recallHits cfg (limitOf cfg topK) intent vector keyword)) stage).take limit
        else if cfg.rerankEnabled then
          ((gated cfg query intent (recallHits cfg (limitOf cfg topK) intent vector keyword)).take limit).map
            fun d => annotateHit d stage 0
        else (gated cfg query intent (recallHits cfg (limitOf cfg topK) intent vector keyword)).take limit)
        cfg.maxChunksPerDoc := by
  rw [hybridRanked, rankHits]
  by_cases hon : cfg.rerankEnabled = true
  · refine ⟨limitOf cfg (some (limitOf cfg topK)), "rerank".toList, ?_⟩
    have hrerank (docs : List (Hit α)) : rerank cfg query docs (some (limitOf cfg topK)) =
        applyThresholdFilter cfg (reranked cfg query docs) (limitOf cfg (some (limitOf cfg topK))) := by
      rw [rerank]
      split_ifs with hnil hoff
      · rw [hnil]
        exact (applyThresholdFilter_nil _).symm
      · rw [hon] at hoff
        exact absurd hoff Bool.false_ne_true
      · rfl
    rw [if_pos hon, hrerank, applyThresholdFilter, gated, if_pos hon]
    cases cfg.gate.enabled with
    | true => rfl
    | false => simp [hon]
  · refine ⟨limitOf cfg topK, (recallHits cfg (limitOf cfg topK) intent vector keyword).2, ?_⟩
    rw [if_neg hon, if_neg hon, gated, if_neg hon]
    cases cfg.gate.enabled <;> rfl

/-- The last stage decides exactly when the gate is off or every hit has no score from its recall, or the
    same one from its recall and from its last stage. -/
theorem last_stage_decides_iff (cfg : Search α) (query : Text) (topK : Option ℕ) (intent : Intent)
    (vector keyword : Channel α) :
    LastStageDecides cfg query topK intent vector keyword ↔
      (cfg.gate.enabled →
        ∀ h ∈ gated cfg query intent (recallHits cfg (limitOf cfg topK) intent vector.hits keyword.hits),
          recallScore h = 0 ∨
            recallScore h = lastScore cfg (recallHits cfg (limitOf cfg topK) intent vector.hits keyword.hits).2 h) := by
  have hiff : ∀ h ∈ gated cfg query intent (recallHits cfg (limitOf cfg topK) intent vector.hits keyword.hits),
      relevanceScore h = lastScore cfg (recallHits cfg (limitOf cfg topK) intent vector.hits keyword.hits).2 h ↔
        recallScore h = 0 ∨
          recallScore h = lastScore cfg (recallHits cfg (limitOf cfg topK) intent vector.hits keyword.hits).2 h := by
    intro h hh
    obtain ⟨hrelevance, hrerank⟩ := relevance_of_mem_gated (recalled_recall _ intent vector keyword) hh
    exact relevanceScore_eq_last_iff hrelevance hrerank
  constructor
  · exact fun hdecides hon h hh => (hiff h hh).1 (hdecides.threshold hon h hh)
  · intro hsame
    refine ⟨?_, fun hon h hh => (hiff h hh).2 (hsame hon h hh)⟩
    obtain ⟨limit, stage, heq⟩ := @hybridRanked_eq α _ cfg query topK intent vector.hits keyword.hits
    rw [heq]
    refine List.Pairwise.sublist (limitPerDoc_sublist _ _) ?_
    have hsorted := @sorted_gated α _ cfg query intent (limitOf cfg topK) vector keyword
    split_ifs with hon
    · refine List.Pairwise.sublist (List.take_sublist _ _) (pairwise_applyRelevanceGate fun h hh => ?_)
      exact (hiff h hh).2 (hsame hon h hh)
    · rw [List.pairwise_map]
      simp only [lastScore_annotateHit]
      exact hsorted.sublist (List.take_sublist _ _)
    · exact hsorted.sublist (List.take_sublist _ _)

end

/-- The lexical reranker, and a gate that lets everything through. -/
def lexicalSearch : Search ℚ where
  gate := { enabled := true, minScore := 0, backend := "lexical".toList, relativeRatio := 9 / 20, minHits := 1 }
  topK := 5
  fetchKMultiplier := 4
  rerankEnabled := true
  rerankCandidateK := 15
  crossEncoderMinQueryLen := 12
  crossEncoderMaxDocs := 32
  lexicalRrfWeight := 9 / 5
  maxChunksPerDoc := 2
  lower := fun t => t.map Char.toLower
  isUpper := Char.isUpper
  words := split
  model := fun _ _ => none

def recalledHit (docId content : String) (score : ℚ) : Hit ℚ where
  docId := docId.toList
  title := []
  content := content.toList
  score := score
  rerankScore := 0
  rrfScore := 0
  relevanceScore := 0
  source := "keyword".toList
  metadata := .empty

def twoHits : Channel ℚ where
  hits := [recalledHit "a" "unrelated topic" (9 / 10), recalledHit "b" "Python sorting explained" (1 / 10)]
  nodup := by decide
  sorted := by simp [recalledHit]; norm_num
  fresh := by simp [recalledHit]

def noHits : Channel ℚ := ⟨[], List.nodup_nil, List.Pairwise.nil, fun _ h => nomatch h⟩

/-- The hit that the reranker puts first comes last. -/
theorem recall_decides : ¬ LastStageDecides lexicalSearch "Python sort".toList none ⟨false, false⟩ noHits twoHits :=
  fun h => absurd h.ordered (by decide +kernel)

end AgentLangraph.Knowledge
