import AgentLangraph.Evidence.Admission

/-! The evidence pipeline (`evidence_pipeline.py`, `evidence_assembly.py`) and the node that it stands in
    (`retrieval_node.py`).

        raw hits ──▶ candidates ──▶ gate ──▶ dedupe ──▶ diversity ──▶ packets ──▶ budget ──▶ hits
              └─────────────────── where there are none ───────────────────────────────▶ knowledge -/

namespace AgentLangraph.Evidence
open PyText PyFloat Knowledge

/-- The settings of the pipeline and the libraries behind it; `similar` compares the embeddings of two
    texts, `snippet` is what is cut out of a candidate, `losers` are the sources that lose a conflict, `sanitizeText`
    and `sanitizeTitle` what the sanitizer makes of a text and of a title. -/
structure Pipeline (α : Type*) extends Admission α where
  enabled : Bool
  maxChunksPerSource : ℤ
  minSourceDiversity : ℤ
  words : Text → List Text
  similar : Text → Text → Bool
  snippet : QueryObject → RetrievalDecision → CandidateEvidence α → Text
  tokenBudget : ℕ
  losers : List (CandidateEvidence α) → List Text
  packetId : ℕ → Text
  rewriteMaxRetries : ℤ
  rewriteWithLlm : Bool
  sanitizeText : Text → Text
  sanitizeTitle : Text → Text

section
variable {α : Type*} [PyFloat α] (cfg : Pipeline α)

/-! ### Deduplication and diversity -/

def textOverlap (a b : Text) : α :=
  let ta := (((cfg.words a).filter fun t => 2 < t.length).map cfg.lower).dedup
  let tb := (((cfg.words b).filter fun t => 2 < t.length).map cfg.lower).dedup
  if ta = [] ∨ tb = [] then 0
  else ((ta.countP (· ∈ tb) : ℕ) : α) / ((min ta.length tb.length : ℕ) : α)

/-- The candidates of one source that are kept: not more than the cap, and none that says what one before says. -/
def keepFrom : List (CandidateEvidence α) → List (CandidateEvidence α) → List (CandidateEvidence α)
  | kept, [] => kept
  | kept, c :: cands =>
    if cfg.maxChunksPerSource ≤ kept.length then kept
    else if kept.any fun k =>
        0.85 < textOverlap cfg c.content k.content || cfg.similar c.content k.content then keepFrom kept cands
    else keepFrom (kept ++ [c]) cands

def totalScore (c : CandidateEvidence α) : α := c.scoreBreakdown.total

def deduplicateCandidates (cands : List (CandidateEvidence α)) : List (CandidateEvidence α) :=
  sortDesc totalScore
    ((PyDict.groupBy CandidateEvidence.sourceId cands).entries.flatMap fun e =>
      keepFrom cfg [] (sortDesc totalScore e.2))

/-- The first candidate of every source, and the others. -/
def splitBySource : List Text → List (CandidateEvidence α) → List (CandidateEvidence α) × List (CandidateEvidence α)
  | _, [] => ([], [])
  | seen, c :: cands =>
    if c.sourceId ∈ seen then
      let (diverse, rest) := splitBySource seen cands
      (diverse, c :: rest)
    else
      let (diverse, rest) := splitBySource (c.sourceId :: seen) cands
      (c :: diverse, rest)

/-- The loop that takes from the others while there are too few sources. -/
def takeSources (minSources : ℤ) : List Text → List (CandidateEvidence α) → List (CandidateEvidence α) →
    List (CandidateEvidence α)
  | _, diverse, [] => diverse
  | seen, diverse, c :: rest =>
    if minSources ≤ seen.length then diverse ++ c :: rest
    else if c.sourceId ∈ seen then takeSources minSources seen diverse rest
    else takeSources minSources (c.sourceId :: seen) (diverse ++ [c]) rest

def enforceSourceDiversity (decision : RetrievalDecision) (cands : List (CandidateEvidence α)) :
    List (CandidateEvidence α) :=
  if decision.purpose ≠ "comparative_summary".toList then cands
  else
    let (diverse, rest) := splitBySource [] cands
    takeSources cfg.minSourceDiversity (diverse.map CandidateEvidence.sourceId) diverse rest

/-! ### Packets -/

def supportTypeForPurpose (purpose : Text) : Text :=
  if purpose = "comparative_summary".toList then "comparative".toList
  else if purpose = "planning_background".toList then "contextual".toList
  else "direct".toList

def packetOf (query : QueryObject) (decision : RetrievalDecision) (c : CandidateEvidence α) (i : ℕ) :
    EvidencePacket α where
  packetId := cfg.packetId i
  snippetText := cfg.snippet query decision c
  sourceId := c.sourceId
  chunkId := c.chunkId
  supportType := supportTypeForPurpose decision.purpose
  scoreBreakdown := c.scoreBreakdown
  sourceTitle := c.title
  sourceType := c.sourceType
  authorityLevel := c.authorityLevel

def assembleEvidencePackets (query : QueryObject) (decision : RetrievalDecision)
    (cands : List (CandidateEvidence α)) : List (EvidencePacket α) :=
  cands.zipIdx.map fun p => packetOf cfg query decision p.1 p.2

/-- The tokens a packet is taken for. -/
def packetTokens (p : EvidencePacket α) : ℕ := max 1 (p.snippetText.length / 4)

def withinBudget (maxTokens : ℕ) : ℕ → List (EvidencePacket α) → List (EvidencePacket α)
  | _, [] => []
  | used, p :: packets =>
    if maxTokens < used + packetTokens p then [] else p :: withinBudget maxTokens (used + packetTokens p) packets

def applyTokenBudget (maxTokens : ℕ) (packets : List (EvidencePacket α)) : List (EvidencePacket α) :=
  if maxTokens = 0 then packets else withinBudget maxTokens 0 packets

def applyConflictFlags (losers : List Text) (packets : List (EvidencePacket α)) : List (EvidencePacket α) :=
  packets.map fun p => if p.sourceId ∈ losers then { p with hasConflict := true } else p

/-! ### The pipeline -/

/-- What a run of the pipeline puts into the state, the candidates that its gate has admitted, and whether it says
    that the gate has filtered everything. -/
structure Patch (α : Type*) where
  packets : List (EvidencePacket α)
  hits : List (PacketHit α)
  admitted : List (CandidateEvidence α)
  gateAllFiltered : Bool

def runEvidencePipeline (query : QueryObject) (decision : RetrievalDecision) (rawHits : List (Hit α)) : Patch α :=
  if !decision.needRetrieval then ⟨[], [], [], false⟩
  else
    let gate := applyAdmissionGate cfg.toAdmission query decision (rawHits.map CandidateEvidence.fromHit)
    let kept := enforceSourceDiversity cfg decision (deduplicateCandidates cfg gate.admittedObjects)
    let packets := applyConflictFlags (cfg.losers kept)
      (applyTokenBudget cfg.tokenBudget (assembleEvidencePackets cfg query decision kept))
    { packets := packets
      hits := packetsToHits packets kept
      admitted := gate.admittedObjects
      gateAllFiltered := rawHits ≠ [] ∧ (gate.admittedObjects = [] ∨ kept = []) }

/-! ### The node -/

/-- An entry of `retrieved_knowledge`: a hit as it was found, or the hit of a packet. -/
inductive Entry (α : Type*)
  | raw (h : Hit α)
  | packet (h : PacketHit α)
  deriving DecidableEq

/-- `sanitize_retrieved_document`. -/
def Entry.sanitize : Entry α → Entry α
  | .raw h => .raw { h with content := cfg.sanitizeText h.content, title := cfg.sanitizeTitle h.title }
  | .packet h => .packet { h with
      content := cfg.sanitizeText h.content
      cand := h.cand.map fun p => ({ p.1 with title := cfg.sanitizeTitle p.1.title }, p.2) }

/-- The part of the state that is about evidence, with the candidates that were admitted when it was written. -/
structure Findings (α : Type*) where
  knowledge : List (Entry α)
  packets : List (EvidencePacket α)
  admitted : List (CandidateEvidence α)

/-- What the node is run with: what the state tells it, the terms of its own query object, the queries it asks, what
    a search finds, the query that a model may write for a second try, and whether anything of it raises. -/
structure Round (α : Type*) where
  state : Findings α
  skip : Bool
  query : Text
  queryObject : QueryObject
  decision : RetrievalDecision
  mustHaveTerms : List Text
  searchQueries : List Text
  search : Text → List (Hit α)
  rewritten : Option Text
  raises : Bool

/-- The hits of the queries, each document once. -/
def rawHits (r : Round α) : List (Hit α) :=
  r.searchQueries.foldl (fun raw q =>
    (r.search q).foldl (fun raw h => if h.docId ∈ raw.map Hit.docId then raw else raw ++ [h]) raw) []

/-- The query of the second try. -/
def retryQuery (r : Round α) : Option Text :=
  let llm := if 0 < cfg.rewriteMaxRetries ∧ cfg.rewriteWithLlm then r.rewritten else none
  match llm with
  | some (c :: cs) => some (c :: cs)
  | none | some [] =>
    if r.mustHaveTerms = [] then none
    else
      let query := strip (r.query ++ " ".toList ++ List.intercalate " ".toList (r.mustHaveTerms.take 6))
      if query = [] then none else some query

/-- The hits that the pipeline is run on last. -/
def lastHits (r : Round α) : List (Hit α) :=
  if (runEvidencePipeline cfg r.queryObject r.decision (rawHits r)).gateAllFiltered then
    ((retryQuery cfg r).map r.search).getD (rawHits r)
  else rawHits r

/-- `_retrieval_node_body`. -/
def retrievalNode (r : Round α) : Findings α :=
  if r.raises then r.state
  else if r.skip then
    let patch : Patch α :=
      if cfg.enabled then runEvidencePipeline cfg r.queryObject r.decision []
      else ⟨r.state.packets, [], r.state.admitted, false⟩
    ⟨[], patch.packets, patch.admitted⟩
  else if cfg.enabled then
    let patch := runEvidencePipeline cfg r.queryObject r.decision (lastHits cfg r)
    let knowledge := if patch.hits ≠ [] then patch.hits.map .packet else (rawHits r).map .raw
    ⟨knowledge.map (Entry.sanitize cfg), patch.packets, patch.admitted⟩
  else ⟨((rawHits r).map .raw).map (Entry.sanitize cfg), r.state.packets, r.state.admitted⟩

end

end AgentLangraph.Evidence
