import AgentLangraph.Lib.PyTree
import AgentLangraph.Run.Turn

/-! The channels that a turn leaves behind (`session_turn.py`, `state.py`). A new turn lists the
    channels it resets one by one; what is not in the list goes on with the value of the turn before.

        turn k ── stored ── _reset_execution_fields ──▶ turn k + 1
                               └─ planned_actions, turn_facts, … stay -/

namespace AgentLangraph.Run
open PyText Session

/-- The channels that the nodes of a turn write and that a new turn resets, or does not. -/
inductive Channel
  | plan | plannedActions | selectedTools | skipRetrieval | toolResults | retrievedKnowledge
  | memoryHits | reasoningResult | policyResult | reviewFeedback | finalAnswer
  | streamingAnswerText | streamingAnswerStatus | structuredOutput | errors | retryCount
  | tokenBudget | costBudget | nodeHistory | turnFacts | turnEventLog | observation | observations
  | evidencePackets | reflectionResult | reflectionCount | planningRevisionCount
  | outputGuardResult | verificationResult
  deriving DecidableEq

abbrev Channels := Channel → PyTree

/-- What `create_initial_state` puts into each channel; the revision count is no field of the schema,
    so it is not there. -/
def initialChannels : Channels
  | .errors | .nodeHistory => .list []
  | .retryCount | .reflectionCount => .leaf (.int 0)
  | _ => .nil

/-- One channel of `merge_state`: a shorter node history is dropped, an observation is merged. -/
def mergeChannel : Channel → PyTree → PyTree → PyTree
  | .nodeHistory, .list current, .list incoming =>
    .list (if current.length ≤ incoming.length then incoming else current)
  | .observation, .dict current, .dict incoming =>
    .dict ((PyDict.ofList current).update (PyDict.ofList incoming)).entries
  | _, _, incoming => incoming

/-- `merge_state(state, **updates)`. -/
def mergeChannels (channels : Channels) (updates : Channel → Option PyTree) : Channels := fun c =>
  match updates c with
  | none => channels c
  | some v => mergeChannel c (channels c) v

/-- The channels that `_reset_execution_fields` names, with the values it gives them. -/
def resetChannels : Channel → Option PyTree
  | .plan | .selectedTools | .skipRetrieval | .toolResults | .retrievedKnowledge | .memoryHits
  | .reasoningResult | .policyResult | .reviewFeedback | .finalAnswer | .streamingAnswerText
  | .streamingAnswerStatus | .structuredOutput | .tokenBudget | .costBudget => some .nil
  | .errors | .nodeHistory => some (.list [])
  | .retryCount => some (.leaf (.int 0))
  | _ => none

/-- A stored state with its channels. -/
structure StoredState where
  core : AgentState
  channels : Channels

/-- `_reset_execution_fields`. -/
def StoredState.reset (s : StoredState) (payload : Fields) : StoredState where
  core := resetExecutionFields s.core payload
  channels := mergeChannels s.channels resetChannels

/-- `prepare_session_turn` for a session. -/
def prepareStored (w : Surroundings) (row : Option StoredState) (sessionId : Text)
    (newSession : Bool) (inbound : Option AgentState → Fields) : StoredState × Bool :=
  match row.filter fun existing => !newSession && existing.core.sessionId == sessionId with
  | some existing =>
    let s := existing.reset (inbound (some existing.core))
    ({ s with core := syncFsmState w s.core }, false)
  | none =>
    ({ core := createInitialState sessionId (inbound none), channels := initialChannels }, true)

/-- What a turn computes while it runs. -/
def executionChannels : List Channel :=
  [.plan, .plannedActions, .selectedTools, .toolResults, .turnFacts, .turnEventLog, .observation,
    .observations, .evidencePackets, .reflectionResult, .reflectionCount, .planningRevisionCount,
    .outputGuardResult, .verificationResult]

/-- Nothing of an earlier turn is left in the channels. -/
def StoredState.Fresh (s : StoredState) : Prop := ∀ c ∈ executionChannels, s.channels c = initialChannels c

/-- The execution channels that no reset names. -/
def forgottenChannels : List Channel :=
  [.plannedActions, .turnFacts, .turnEventLog, .observation, .observations, .evidencePackets,
    .reflectionResult, .reflectionCount, .planningRevisionCount, .outputGuardResult,
    .verificationResult]

/-! ### What is reset and what is not -/

/-- Beside the channels it is the preparation of `Run.Turn`. -/
theorem core_prepareStored (w : Surroundings) (row : Option StoredState) (sessionId : Text)
    (newSession : Bool) (inbound : Option AgentState → Fields) :
    ((prepareStored w row sessionId newSession inbound).1.core,
      (prepareStored w row sessionId newSession inbound).2) =
      prepareSessionTurn w (row.map StoredState.core) sessionId newSession inbound := by
  cases row with
  | none => rfl
  | some existing =>
    by_cases h : (!newSession && existing.core.sessionId == sessionId) = true
    · simp only [prepareStored, prepareSessionTurn, Option.map_some, Option.filter, h, if_true]
      rfl
    · simp only [prepareStored, prepareSessionTurn, Option.map_some, Option.filter, if_neg h]

theorem prepareStored_of_session (w : Surroundings) (existing : StoredState)
    (inbound : Option AgentState → Fields) :
    (prepareStored w (some existing) existing.core.sessionId false inbound).1.channels =
      mergeChannels existing.channels resetChannels := by
  simp [prepareStored, Option.filter, StoredState.reset]

theorem mergeChannels_of_none {channels : Channels} {updates : Channel → Option PyTree} {c : Channel}
    (h : updates c = none) : mergeChannels channels updates c = channels c := by
  rw [mergeChannels, h]

/-- An execution channel is reset to its initial value, or it is one of the forgotten ones. -/
theorem executionChannel_cases {c : Channel} (h : c ∈ executionChannels) :
    c ∈ forgottenChannels ∨ c ∉ forgottenChannels ∧
      ∀ channels, mergeChannels channels resetChannels c = initialChannels c := by
  cases c
  case plan | selectedTools | toolResults => exact Or.inr ⟨by decide, fun _ => rfl⟩
  all_goals first
    | exact Or.inl (by decide)
    | exact absurd h (by decide)

theorem resetChannels_forgotten {c : Channel} (h : c ∈ forgottenChannels) : resetChannels c = none := by
  cases c
  all_goals first
    | rfl
    | exact absurd h (by decide)

theorem forgotten_subset {c : Channel} (h : c ∈ forgottenChannels) : c ∈ executionChannels := by
  cases c
  all_goals first
    | decide
    | exact absurd h (by decide)

/-- NOT CORRECT: a continued turn starts fresh exactly when the turn before it left each channel that
    the reset forgets at its initial value. -/
theorem fresh_iff (w : Surroundings) (existing : StoredState) (inbound : Option AgentState → Fields) :
    (prepareStored w (some existing) existing.core.sessionId false inbound).1.Fresh ↔
      ∀ c ∈ forgottenChannels, existing.channels c = initialChannels c := by
  rw [StoredState.Fresh, prepareStored_of_session]
  constructor
  · intro hfresh c hc
    rw [← hfresh c (forgotten_subset hc), mergeChannels_of_none (resetChannels_forgotten hc)]
  · intro hkept c hc
    rcases executionChannel_cases hc with hforgotten | ⟨-, hreset⟩
    · rw [mergeChannels_of_none (resetChannels_forgotten hforgotten)]
      exact hkept c hforgotten
    · exact hreset existing.channels

/-- A second turn that has ended, with the facts of an edit that replaced nothing. -/
def editedTurn : StoredState where
  core := secondTurn .completed
  channels := fun c =>
    if c = .turnFacts then .dict [PyTree.entry "edit_applied" (.leaf (.bool false))] else initialChannels c

/-- The third turn begins with the facts of the second. -/
theorem third_turn_has_old_facts :
    ¬ (prepareStored idleProcess (some editedTurn) editedTurn.core.sessionId false
      fun _ => PyDict.empty).1.Fresh := by
  intro hfresh
  have hfacts := hfresh .turnFacts (by decide)
  rw [prepareStored_of_session] at hfacts
  cases hfacts

end AgentLangraph.Run
