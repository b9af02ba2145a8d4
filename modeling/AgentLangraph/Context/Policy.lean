import AgentLangraph.Context.Item

/-! Purpose-specific prompt policies (`context_policy.py`): which buckets a purpose must keep, may
    compress or may drop, how many tokens each may hold, and in which order they give way when the
    whole prompt is over budget. `policies` is the registry of the source, entry by entry. -/

namespace AgentLangraph.Context
open PyText

inductive Purpose
  | planning | reasoning | writing | reviewing | reflection | summarization | routing | codeAgent
  | intentObservation
  deriving DecidableEq

structure PromptContextPolicy where
  purpose : Purpose
  requiredBuckets : List Bucket
  bucketMaxTokens : PyDict Bucket ℤ
  compressibleBuckets : List Bucket
  droppableBuckets : List Bucket
  degradeOrder : List Bucket
  defaultTokenBudget : ℤ := 28000
  preserveFidelityBuckets : List Bucket := [.currentTurn, .systemPolicy]
  minBucketTokens : PyDict Bucket ℤ := PyDict.empty
  minimumRequiredItems : PyDict Bucket ℤ := PyDict.empty
  allowSummarySubstitute : PyDict Bucket Bool := PyDict.empty

/-- `policy.bucket_max_tokens.get(bucket, 8000)`. -/
def PromptContextPolicy.cap (policy : PromptContextPolicy) (bucket : Bucket) : ℤ :=
  policy.bucketMaxTokens.getD bucket 8000

def baseBudgets : PyDict Bucket ℤ := PyDict.ofList
  [(.systemPolicy, 2000), (.currentTurn, 6000), (.recentTranscript, 10000),
    (.semanticSummary, 2500), (.workingMemory, 3500), (.retrievedMemory, 2500),
    (.retrievedKnowledge, 4000), (.toolObservations, 3000), (.fileContext, 4000),
    (.diagnostics, 3000)]

/-- `_POLICIES`. -/
def policies : Purpose → PromptContextPolicy
  | .planning => {
      purpose := .planning
      requiredBuckets := [.currentTurn, .semanticSummary, .workingMemory, .recentTranscript]
      bucketMaxTokens := baseBudgets.update (PyDict.ofList
        [(.retrievedKnowledge, 1200), (.toolObservations, 800), (.fileContext, 500)])
      compressibleBuckets := [.recentTranscript, .semanticSummary, .retrievedMemory,
        .retrievedKnowledge, .toolObservations]
      droppableBuckets := [.retrievedKnowledge, .toolObservations, .fileContext, .diagnostics,
        .retrievedMemory]
      degradeOrder := [.retrievedKnowledge, .toolObservations, .fileContext, .diagnostics,
        .retrievedMemory, .recentTranscript, .semanticSummary, .workingMemory]
      defaultTokenBudget := 24000
      minBucketTokens := PyDict.ofList
        [(.semanticSummary, 400), (.workingMemory, 600), (.recentTranscript, 800)]
      minimumRequiredItems := PyDict.ofList
        [(.semanticSummary, 1), (.workingMemory, 1), (.recentTranscript, 1)]
      allowSummarySubstitute := PyDict.ofList
        [(.semanticSummary, true), (.workingMemory, true)] }
  | .reasoning => {
      purpose := .reasoning
      requiredBuckets := [.currentTurn, .recentTranscript, .semanticSummary, .workingMemory]
      bucketMaxTokens := baseBudgets
      compressibleBuckets := [.recentTranscript, .semanticSummary, .retrievedMemory,
        .retrievedKnowledge, .toolObservations]
      droppableBuckets := [.fileContext, .diagnostics, .retrievedMemory]
      degradeOrder := [.fileContext, .diagnostics, .retrievedMemory, .retrievedKnowledge,
        .toolObservations, .recentTranscript, .semanticSummary]
      defaultTokenBudget := 32000
      minBucketTokens := PyDict.ofList
        [(.semanticSummary, 400), (.workingMemory, 600), (.recentTranscript, 800)]
      minimumRequiredItems := PyDict.ofList
        [(.semanticSummary, 1), (.workingMemory, 1), (.recentTranscript, 1)]
      allowSummarySubstitute := PyDict.ofList
        [(.semanticSummary, true), (.workingMemory, true)] }
  | .writing => {
      purpose := .writing
      requiredBuckets := [.currentTurn, .workingMemory, .fileContext, .retrievedKnowledge]
      bucketMaxTokens := baseBudgets.update (PyDict.ofList
        [(.recentTranscript, 4000), (.semanticSummary, 3000)])
      compressibleBuckets := [.recentTranscript, .semanticSummary, .retrievedMemory,
        .toolObservations]
      droppableBuckets := [.recentTranscript, .retrievedMemory, .toolObservations, .diagnostics]
      degradeOrder := [.recentTranscript, .toolObservations, .diagnostics, .retrievedMemory,
        .semanticSummary]
      defaultTokenBudget := 36000 }
  | .reviewing => {
      purpose := .reviewing
      requiredBuckets := [.currentTurn, .workingMemory, .fileContext, .retrievedKnowledge]
      bucketMaxTokens := baseBudgets
      compressibleBuckets := [.recentTranscript, .semanticSummary, .toolObservations]
      droppableBuckets := [.recentTranscript, .retrievedMemory, .toolObservations]
      degradeOrder := [.recentTranscript, .toolObservations, .retrievedMemory, .semanticSummary]
      defaultTokenBudget := 32000 }
  | .summarization => {
      purpose := .summarization
      requiredBuckets := [.currentTurn, .recentTranscript]
      bucketMaxTokens := PyDict.ofList
        [(.currentTurn, 4000), (.recentTranscript, 24000), (.semanticSummary, 0),
          (.workingMemory, 2000), (.retrievedMemory, 0), (.retrievedKnowledge, 0),
          (.toolObservations, 0), (.fileContext, 0), (.diagnostics, 0), (.systemPolicy, 0)]
      compressibleBuckets := [.recentTranscript]
      droppableBuckets := []
      degradeOrder := [.recentTranscript]
      defaultTokenBudget := 28000 }
  | .reflection => {
      purpose := .reflection
      requiredBuckets := [.currentTurn, .workingMemory, .semanticSummary]
      bucketMaxTokens := baseBudgets.update (PyDict.ofList
        [(.recentTranscript, 5000), (.retrievedKnowledge, 1500), (.toolObservations, 2000)])
      compressibleBuckets := [.recentTranscript, .semanticSummary, .retrievedMemory]
      droppableBuckets := [.retrievedKnowledge, .fileContext, .diagnostics]
      degradeOrder := [.retrievedKnowledge, .fileContext, .recentTranscript, .retrievedMemory]
      defaultTokenBudget := 20000 }
  | .routing => {
      purpose := .routing
      requiredBuckets := [.currentTurn, .workingMemory]
      bucketMaxTokens := PyDict.ofList
        [(.currentTurn, 4000), (.workingMemory, 2000), (.recentTranscript, 3000),
          (.semanticSummary, 1500), (.retrievedMemory, 1000), (.retrievedKnowledge, 500),
          (.toolObservations, 0), (.fileContext, 0), (.diagnostics, 0), (.systemPolicy, 0)]
      compressibleBuckets := [.recentTranscript, .semanticSummary, .retrievedMemory]
      droppableBuckets := [.retrievedKnowledge, .toolObservations, .fileContext, .diagnostics]
      degradeOrder := [.retrievedKnowledge, .toolObservations, .recentTranscript,
        .retrievedMemory]
      defaultTokenBudget := 12000 }
  | .intentObservation => {
      purpose := .intentObservation
      requiredBuckets := [.currentTurn, .semanticSummary, .workingMemory, .recentTranscript]
      bucketMaxTokens := PyDict.ofList
        [(.currentTurn, 4000), (.workingMemory, 2500), (.recentTranscript, 3000),
          (.semanticSummary, 1500), (.retrievedMemory, 800), (.retrievedKnowledge, 0),
          (.toolObservations, 0), (.fileContext, 0), (.diagnostics, 0), (.systemPolicy, 500)]
      compressibleBuckets := [.recentTranscript, .semanticSummary, .retrievedMemory]
      droppableBuckets := [.retrievedKnowledge, .toolObservations, .fileContext, .diagnostics]
      degradeOrder := [.retrievedKnowledge, .toolObservations, .recentTranscript,
        .retrievedMemory]
      defaultTokenBudget := 10000 }
  | .codeAgent => {
      purpose := .codeAgent
      requiredBuckets := [.currentTurn, .diagnostics, .fileContext, .workingMemory]
      bucketMaxTokens := baseBudgets.update (PyDict.ofList
        [(.diagnostics, 5000), (.fileContext, 6000), (.recentTranscript, 4000),
          (.retrievedKnowledge, 2000)])
      compressibleBuckets := [.recentTranscript, .semanticSummary, .retrievedMemory,
        .retrievedKnowledge, .toolObservations]
      droppableBuckets := [.retrievedKnowledge, .retrievedMemory, .semanticSummary,
        .recentTranscript, .toolObservations]
      degradeOrder := [.retrievedKnowledge, .retrievedMemory, .semanticSummary,
        .recentTranscript, .workingMemory, .toolObservations, .fileContext]
      defaultTokenBudget := 30000
      preserveFidelityBuckets := [.currentTurn, .diagnostics, .systemPolicy] }

/-- No registered policy lets a required bucket be dropped from. -/
theorem policies_droppable_not_required (p : Purpose) :
    ∀ b ∈ (policies p).droppableBuckets, b ∉ (policies p).requiredBuckets := by
  cases p <;> decide

/-- Every registered policy may compress the transcript. -/
theorem policies_transcript_compressible (p : Purpose) :
    Bucket.recentTranscript ∈ (policies p).compressibleBuckets := by
  cases p <;> decide

end AgentLangraph.Context
