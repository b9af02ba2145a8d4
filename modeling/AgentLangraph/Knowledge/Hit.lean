import AgentLangraph.Knowledge.Rows
import AgentLangraph.Lib.PyFloat

/-! Hits, and the gate that lets them through by their score (`relevance_gate.py`). -/

namespace AgentLangraph.Knowledge
open PyText PyFloat

/-- A hit. A score that it does not have reads as zero. -/
structure Hit (α : Type*) where
  docId : Text
  title : Text
  content : Text
  score : α
  rerankScore : α
  rrfScore : α
  relevanceScore : α
  relevancePassed : Bool := true
  relevanceReason : Text := []
  retrievalStage : Text := []
  source : Text
  metadata : Fields
  deriving DecidableEq

/-- The settings of the gate. -/
structure Gate (α : Type*) where
  enabled : Bool
  minScore : α
  backend : Text
  relativeRatio : α
  minHits : ℤ

section
variable {α : Type*} [PyFloat α]

def relevanceScore (h : Hit α) : α :=
  orElse h.relevanceScore (orElse h.rerankScore (orElse h.score h.rrfScore))

def effectiveThreshold (gate : Gate α) (hits : List (Hit α)) : α :=
  if !gate.enabled then 0
  else if gate.minScore ≤ 0 then 0
  else
    match hits.map relevanceScore with
    | [] => gate.minScore
    | first :: rest =>
      if gate.backend ∈ ["cross_encoder".toList, "cohere".toList] then gate.minScore
      else
        let top := rest.foldl max first
        max gate.minScore (if 0 < top then top * gate.relativeRatio else 0)

def annotateHit (h : Hit α) (stage : Text) (threshold : α) : Hit α :=
  let score := relevanceScore h
  { h with
    relevanceScore := score
    retrievalStage := stage
    relevancePassed := threshold ≤ score
    relevanceReason :=
      if threshold ≤ score then "above_threshold".toList
      else if h.source = "adjacency".toList then "adjacency_supplement".toList
      else "below_threshold".toList }

def applyRelevanceGate (gate : Gate α) (hits : List (Hit α)) (stage : Text) : List (Hit α) :=
  let threshold := effectiveThreshold gate hits
  let minHits := gate.minHits.toNat
  let scored := sortDesc relevanceScore hits
  let above := scored.filter fun h => threshold ≤ relevanceScore h
  let passed := if above.length < minHits then scored.take (max minHits above.length) else above
  let reason := if above.length < minHits then "fallback_min_hits".toList else "above_threshold".toList
  let passedIds := passed.map Hit.docId
  (scored.map fun h =>
    let annotated := annotateHit h stage threshold
    if h.docId ∈ passedIds then
      { annotated with
        relevancePassed := true
        relevanceReason :=
          if annotated.relevanceReason = "below_threshold".toList then reason else annotated.relevanceReason }
    else annotated).filter Hit.relevancePassed

end

end AgentLangraph.Knowledge
