import AgentLangraph.Knowledge.Hit

/-! The admission gate of the evidence pipeline (`evidence_assembly.py`). The candidates are objects: a pass over
    them rewrites their scores and their verdict, and what it admits are references to them. In soft mode the
    hard gate is then run over the same objects, to see what it would have admitted. -/

namespace AgentLangraph.Evidence
open PyText PyFloat Knowledge

@[ext] structure ScoreBreakdown (α : Type*) where
  dense : α
  lexical : α
  rrf : α
  rerank : α
  authority : α
  freshness : α
  taskMatch : α
  total : α
  deriving DecidableEq

@[ext] structure CandidateEvidence (α : Type*) where
  docId : Text
  chunkId : Text
  sourceId : Text
  title : Text
  content : Text
  sourceType : Text
  authorityLevel : α
  scoreBreakdown : ScoreBreakdown α
  relevancePassed : Bool
  filterReason : Text
  retrievalStage : Text
  metadata : Fields
  deriving DecidableEq

structure QueryObject where
  standaloneQuery : Text
  mustHaveTerms : List Text
  taskConstraints : List Text
  timeScope : Text

structure RetrievalDecision where
  needRetrieval : Bool
  purpose : Text
  freshnessRequired : Bool

/-- The settings of the gate; what the libraries tell of a text (`lower`, the two searches of
    `_task_match_score`) and of metadata (`float`, and `recency_score` as the clock stands). -/
structure Admission (α : Type*) where
  gateEnabled : Bool
  shadowEnabled : Bool
  mode : Text
  minScore : α
  purposeThresholds : Text → Option α
  purposeTopK : Text → Option ℤ
  topK : ℤ
  sourceAuthorityPrior : Text → Option α
  lower : Text → Text
  hasSteps : Text → Bool
  hasError : Text → Bool
  toFloat : PyVal → α
  recency : Fields → α

section
variable {α : Type*} [PyFloat α]

/-- `from_hit`. -/
def CandidateEvidence.fromHit (h : Hit α) : CandidateEvidence α :=
  let parent := textField h.metadata "parent_doc_id"
  let dense := if h.source ∈ ["chroma".toList, "qdrant".toList, "vector".toList] then h.score else 0
  let lexical := if h.source = "keyword".toList then h.score else 0
  let rerank := orElse h.rerankScore h.relevanceScore
  { docId := h.docId
    chunkId := h.docId
    sourceId := if parent = [] then h.docId else parent
    title := h.title
    content := h.content
    sourceType := if h.source = [] then "knowledge".toList else h.source
    authorityLevel := 0.5
    scoreBreakdown := {
      dense := dense
      lexical := lexical
      rrf := h.rrfScore
      rerank := rerank
      authority := 0
      freshness := 0
      taskMatch := 0
      total := orElse rerank (orElse h.rrfScore (orElse (max dense lexical) h.score)) }
    relevancePassed := h.relevancePassed
    filterReason := h.relevanceReason
    retrievalStage := h.retrievalStage
    metadata := h.metadata }

/-- `to_hit`, without the authority and the scores it is told with. -/
def CandidateEvidence.toHit (c : CandidateEvidence α) : Hit α where
  docId := c.docId
  title := c.title
  content := c.content
  score := orElse c.scoreBreakdown.dense c.scoreBreakdown.total
  rerankScore := c.scoreBreakdown.rerank
  rrfScore := c.scoreBreakdown.rrf
  relevanceScore := c.scoreBreakdown.total
  relevancePassed := c.relevancePassed
  relevanceReason := c.filterReason
  retrievalStage := c.retrievalStage
  source := c.sourceType
  metadata := c.metadata

variable (cfg : Admission α)

/-- The table of `purpose_admission_threshold`. -/
def thresholdDefaults : List (String × α) :=
  [("fact_qa", 0.45), ("comparative_summary", 0.25), ("procedural_howto", 0.35), ("code_fix", 0.40),
    ("planning_background", 0.30), ("general_grounded", 0.30)]

def purposeAdmissionThreshold (purpose : Text) : α :=
  (cfg.purposeThresholds purpose).getD
    (max cfg.minScore (((thresholdDefaults.find? fun e => e.1.toList = purpose).map Prod.snd).getD cfg.minScore))

/-- The table of `purpose_top_k`. -/
def topKDefaults : List (String × ℤ) :=
  [("fact_qa", 5), ("comparative_summary", 10), ("procedural_howto", 8), ("code_fix", 6),
    ("planning_background", 6), ("general_grounded", 8)]

def purposeTopKOf (purpose : Text) : ℤ :=
  (cfg.purposeTopK purpose).getD (((topKDefaults.find? fun e => e.1.toList = purpose).map Prod.snd).getD cfg.topK)

/-- `l[:k]`. -/
def sliceTo {β : Type*} (k : ℤ) (l : List β) : List β :=
  if 0 ≤ k then l.take k.toNat else l.take (l.length - (-k).toNat)

/-- The table of `authority_prior`. -/
def authorityDefaults : List (String × α) :=
  [("user_input", 1.0), ("tool_result", 0.95), ("user_upload", 0.90), ("official_docs", 0.85), ("knowledge", 0.70),
    ("chroma", 0.70), ("qdrant", 0.70), ("keyword", 0.65), ("rrf", 0.65), ("memory", 0.55), ("adjacency", 0.40),
    ("discussion", 0.35)]

def authorityPrior (sourceType : Text) : α :=
  (cfg.sourceAuthorityPrior sourceType).getD
    (((authorityDefaults.find? fun e => e.1.toList = sourceType).map Prod.snd).getD 0.5)

/-- The authority that `annotate_authority` gives a candidate. -/
def authorityOf (c : CandidateEvidence α) : α :=
  let prior := authorityPrior cfg c.sourceType
  let told := c.metadata.field "authority"
  if told.truthy then max prior (cfg.toFloat told) else prior

/-- The text of a candidate that terms and constraints are looked for in. -/
def corpus (c : CandidateEvidence α) : Text := cfg.lower (c.title ++ " ".toList ++ c.content)

def mustHaveSatisfied (c : CandidateEvidence α) (mustHave : List Text) : Bool :=
  if mustHave = [] then true
  else max 1 (mustHave.length / 2) ≤ mustHave.countP fun t => contains (corpus cfg c) (cfg.lower t)

def taskMatchScore (c : CandidateEvidence α) (constraints : List Text) : α :=
  let steps : α :=
    if "needs_steps".toList ∈ constraints ∧ cfg.hasSteps (corpus cfg c) then 0 + 0.3 else 0
  let fix := if "needs_code_fix".toList ∈ constraints ∧ cfg.hasError (corpus cfg c) then steps + 0.35 else steps
  let single := if "needs_single_evidence".toList ∈ constraints then fix + 0.1 else fix
  min single 1.0

/-- `annotate_freshness`, of one candidate. -/
def annotateFreshness (query : QueryObject) (c : CandidateEvidence α) : CandidateEvidence α :=
  if query.timeScope = "latest".toList ∧
      ((c.metadata.field "deprecated").truthy ∨ (c.metadata.field "superseded").truthy) then
    { c with metadata := c.metadata.put "stale" (.bool true) }
  else c

section
variable (query : QueryObject) (decision : RetrievalDecision)

/-- The relevance of a candidate when a pass comes to it. -/
def scoreOf (c : CandidateEvidence α) : α := relevanceScore c.toHit

/-- The weighted total of a candidate of a relevance; it is new if no candidate before it has its source. -/
def totalOf (score : α) (new : Bool) (c : CandidateEvidence α) : α :=
  0.4 * score + 0.2 * authorityOf cfg c + 0.15 * taskMatchScore cfg c query.taskConstraints +
    0.15 * cfg.recency c.metadata + 0.1 * (if new then 1.0 else 0.3)

/-- Why a candidate of a relevance is refused; nothing where it is not. -/
def reasonOf (score : α) (c : CandidateEvidence α) : Text :=
  if score < purposeAdmissionThreshold cfg decision.purpose then "below_threshold".toList
  else if query.mustHaveTerms ≠ [] ∧ !mustHaveSatisfied cfg c query.mustHaveTerms then "must_have_miss".toList
  else if decision.freshnessRequired ∧ (c.metadata.field "stale").truthy then "stale_evidence".toList
  else []

/-- What the loop of `_admission_pass` makes of a candidate. -/
def judge (mode : Text) (new : Bool) (c : CandidateEvidence α) : CandidateEvidence α :=
  let score := scoreOf c
  let reason := reasonOf cfg query decision score c
  { c with
    authorityLevel := authorityOf cfg c
    scoreBreakdown := { c.scoreBreakdown with
      rerank := score
      taskMatch := taskMatchScore cfg c query.taskConstraints
      authority := authorityOf cfg c
      freshness := cfg.recency c.metadata
      total := totalOf cfg query score new c }
    relevancePassed := reason = [] ∨ mode ≠ "hard".toList
    filterReason :=
      if reason ≠ [] then reason else if c.filterReason ≠ [] then c.filterReason else "admitted".toList }

/-- Whether the loop appends it to what is admitted. -/
def admits (mode : Text) (c : CandidateEvidence α) : Bool :=
  reasonOf cfg query decision (scoreOf c) c = [] ∨ mode ≠ "hard".toList

/-- Each candidate with whether its source is new. -/
def withNovelty : List Text → List (CandidateEvidence α) → List (CandidateEvidence α × Bool)
  | _, [] => []
  | seen, c :: cands => (c, c.sourceId ∉ seen) :: withNovelty (c.sourceId :: seen) cands

def judgeAll (mode : Text) (cands : List (CandidateEvidence α)) : List (CandidateEvidence α) :=
  (withNovelty [] cands).map fun p => judge cfg query decision mode p.2 p.1

/-- The objects at their places after a pass, and the places of those admitted and rejected. -/
structure Passed (α : Type*) where
  objects : List (CandidateEvidence α)
  admitted : List ℕ
  rejected : List ℕ

def Passed.total (p : Passed α) (i : ℕ) : α := (p.objects[i]?.map fun c => c.scoreBreakdown.total).getD 0

/-- `admitted`, read as objects. -/
def Passed.admittedObjects (p : Passed α) : List (CandidateEvidence α) := p.admitted.filterMap fun i => p.objects[i]?

/-- `_admission_pass`. -/
def admissionPass (mode : Text) (cands : List (CandidateEvidence α)) : Passed α :=
  let places := List.range cands.length
  let admitted := places.filter fun i => (cands[i]?.map (admits cfg query decision mode)).getD false
  let rejected := places.filter fun i =>
    (cands[i]?.map fun c => decide (reasonOf cfg query decision (scoreOf c) c ≠ [])).getD false
  let p : Passed α := ⟨judgeAll cfg query decision mode cands, admitted, rejected⟩
  let sorted := sortDesc p.total admitted
  if mode = "hard".toList then { p with admitted := sliceTo (purposeTopKOf cfg decision.purpose) sorted }
  else if admitted = [] ∧ rejected ≠ [] then
    let best := (sortDesc p.total rejected).take 1
    { p with
      admitted := best
      objects := p.objects.zipIdx.map fun q =>
        if q.2 ∈ best then { q.1 with relevancePassed := true, filterReason := "soft_fallback".toList } else q.1 }
  else { p with admitted := sorted }

/-- `apply_admission_gate`. The shadow evaluation runs over the objects that the first pass has left; what it
    admits is only counted. -/
def applyAdmissionGate (cands : List (CandidateEvidence α)) : Passed α :=
  if !cfg.gateEnabled then ⟨cands, List.range cands.length, []⟩
  else
    let p := admissionPass cfg query decision cfg.mode (cands.map (annotateFreshness query))
    if cfg.shadowEnabled && cfg.mode = "soft".toList then
      { p with objects := (admissionPass cfg query decision "hard".toList p.objects).objects }
    else p

end

/-! ### Packets -/

structure EvidencePacket (α : Type*) where
  packetId : Text
  snippetText : Text
  sourceId : Text
  chunkId : Text
  supportType : Text
  scoreBreakdown : ScoreBreakdown α
  sourceTitle : Text
  sourceType : Text
  authorityLevel : α
  hasConflict : Bool := false
  deriving DecidableEq

/-- A hit of a packet: what its candidate is as a hit, and what the packet puts over it. -/
structure PacketHit (α : Type*) where
  cand : Option (Hit α × ScoreBreakdown α)
  content : Text
  evidencePacketId : Text
  supportType : Text
  authorityLevel : α
  hasConflict : Bool
  deriving DecidableEq

/-- The hit of a packet; of candidates with one chunk id the last one counts. -/
def packetHit (cands : List (CandidateEvidence α)) (p : EvidencePacket α) : PacketHit α where
  cand := (cands.reverse.find? fun c => c.chunkId = p.chunkId).map fun c => (c.toHit, c.scoreBreakdown)
  content := p.snippetText
  evidencePacketId := p.packetId
  supportType := p.supportType
  authorityLevel := p.authorityLevel
  hasConflict := p.hasConflict

def packetsToHits (packets : List (EvidencePacket α)) (cands : List (CandidateEvidence α)) : List (PacketHit α) :=
  packets.map (packetHit cands)

end

end AgentLangraph.Evidence
