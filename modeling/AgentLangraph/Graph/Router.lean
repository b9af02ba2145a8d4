import AgentLangraph.Graph.Converge

/-! The edges of the agent graph that may plan a turn again (`router.py`, `planning_gate_router.py`,
    `reasoning_or_writing_node.py`, `planning_retry_signals.py`). A router reads the state of the
    graph and answers with the next node; what it writes, the retry signal and its counter, goes to
    the store only. The graph hands a node the channels of its schema, and the counter is none.

        node ── output ──▶ channels ── router ──▶ next node
                                        └─ signal, counter ──▶ store -/

namespace AgentLangraph.Graph
open PyText Session

inductive Node
  | eventClassification | acknowledge | interruptControl | incrementalPlanning
  | engineeringExecution | retrieval | toolExecution | contextGovernance | reasoningOrWriting
  | verification | policy | humanReview | rejected | deadLetter | output | finished
  deriving DecidableEq

structure Config where
  maxPlanningRevisions : ℤ
  maxRetryCount : ℕ
  /-- `str.lower`. -/
  lower : Text → Text

variable (cfg : Config)

/-! ### The retry signals -/

/-- `_route_audit_issues`. -/
def routeAuditIssues (s : GraphState) : List Text := if s.aligned then [] else s.issues.take 5

/-- `planning_replan_needed`. -/
def planningReplanNeeded (s : GraphState) : Bool := routeAuditIssues s != []

/-- `apply_planning_replan_signal`; the feedback for the planner is read by nothing modelled. -/
def applyPlanningReplanSignal (s : GraphState) (issues : List Text) : GraphState :=
  if issues = [] then s
  else if s.routeAuditReplan then s
  else
    { s with
      routeAuditReplan := true
      planningRevisionCount := some (s.planningRevisionCount.getD 0 + 1) }

/-- `apply_force_write_signal`, which does not count. -/
def applyForceWriteSignal (s : GraphState) : GraphState := { s with routeAuditReplan := false }

/-- `degrade_to_writing_playbook_state`, where it finds a playbook. -/
def degradeToWritingPlaybookState (s : GraphState) : GraphState := { s with status := .planned }

/-- `can_planning_replan_again`. -/
def canPlanningReplanAgain (s : GraphState) : Bool :=
  s.planningRevisionCount.getD 0 < cfg.maxPlanningRevisions

/-! ### The routers -/

/-- Where a router goes, and the state it saves when it sends the turn back to be planned again. -/
structure Route where
  next : Node
  saved : Option GraphState := none
  deriving DecidableEq

def planAgain (saved : GraphState) : Route := { next := .incrementalPlanning, saved := some saved }

/-- `graph_last_tool_failed`. -/
def graphLastToolFailed (s : GraphState) : Bool :=
  match s.toolResults.getLast? with
  | none => false
  | some r =>
    cfg.lower r.status ∈ ["error".toList, "failed".toList, "skipped".toList] || r.error ||
      match r.result with
      | none => false
      | some o => cfg.lower o.status ∈ ["error".toList, "failed".toList]

/-- `graph_turn_had_fatal_error`. -/
def graphTurnHadFatalError (s : GraphState) : Bool :=
  s.errors.any (fun e => strip e != []) ||
    s.lastAuditAction ∈ ["fatal_error".toList, "dead_letter".toList, "non_retryable_error".toList]

/-- `_is_non_retryable_tool_failure`. -/
def isNonRetryableToolFailure (s : GraphState) : Bool :=
  s.errors.any (fun e => contains e "tool_execution(non_retryable)".toList) ||
    s.lastAuditAction = "non_retryable_error".toList ||
      s.toolResults.any fun r =>
        (r.status ∈ ["error".toList, "skipped".toList] || r.error) && r.nonRetryable

/-- `_failed_route`. -/
def failedRoute (s : GraphState) (retry : Node) : Route :=
  if cfg.maxRetryCount ≤ s.retryCount then { next := .deadLetter } else { next := retry }

/-- `validate_turn_contract_execution(state) or [reason]`. -/
def issuesOr (s : GraphState) (reason : Text) : List Text :=
  if s.judgement.contractIssues = [] then [reason] else s.judgement.contractIssues

/-- The branches of `route_after_tool` that do not plan again. -/
def routeForward (s : GraphState) : Route :=
  let conv := evaluateConvergence s
  if graphLastToolFailed cfg s then
    if isNonRetryableToolFailure s then { next := .contextGovernance }
    else if cfg.maxRetryCount ≤ s.retryCount then { next := .deadLetter }
    else { next := .toolExecution }
  else if conv.done ∨ conv.next = .finalize then { next := .contextGovernance }
  else if s.judgement.writingRouteAllowed then { next := .contextGovernance }
  else if s.judgement.requiresSideEffects ∧ s.contractTools ≠ [] ∧ pendingPlannedActions s ≠ [] ∧
      ¬ s.judgement.contractFulfilled then { next := .toolExecution }
  else { next := .contextGovernance }

def routeAfterTool (s : GraphState) : Route :=
  let conv := evaluateConvergence s
  if ¬ graphLastToolFailed cfg s ∧ s.judgement.batchContinuationReady then
    { next := .toolExecution }
  else if ¬ graphLastToolFailed cfg s ∧ conv.next = .forceWrite then
    planAgain (applyForceWriteSignal s)
  else if ¬ graphLastToolFailed cfg s ∧ conv.next = .replan ∧ canPlanningReplanAgain cfg s then
    planAgain (applyPlanningReplanSignal s (issuesOr s ("converge:".toList ++ conv.reason)))
  else routeForward cfg s

/-- The convergence gate of `route_after_reasoning_or_writing`. -/
def routeConverged (s : GraphState) : Route :=
  let conv := evaluateConvergence s
  if conv.next = .forceWrite then planAgain (applyForceWriteSignal s)
  else if conv.next = .replan ∧ canPlanningReplanAgain cfg s then
    planAgain (applyPlanningReplanSignal s (issuesOr s ("converge:".toList ++ conv.reason)))
  else { next := .verification }

def routeAfterReasoningOrWriting (s : GraphState) : Route :=
  if s.status = .rejected ∨ ¬ s.guardPassed then { next := .rejected }
  else if s.status = .failed ∨ s.status = .reasonFailed then failedRoute cfg s .reasoningOrWriting
  else if s.status.endsFailed ∨ s.status = .deadLetter then { next := .deadLetter }
  else if s.judgement.narrateAnswerReady then { next := .verification }
  else
    match s.judgement.terminalBlocked with
    | some blocked =>
      if canPlanningReplanAgain cfg s then
        planAgain (applyPlanningReplanSignal s (issuesOr s blocked))
      else routeConverged cfg s
    | none => routeConverged cfg s

/-- Where `route_after_incremental_planning` may go once the plan is accepted. -/
def planningForks : List Node :=
  [.retrieval, .toolExecution, .contextGovernance, .engineeringExecution, .deadLetter]

/-- `route_after_incremental_planning`; which of the forks an accepted plan takes is the argument. -/
def routeAfterIncrementalPlanning (s : GraphState) (fork : Node) : Route :=
  if s.judgement.sourceInquiry then { next := .retrieval }
  else if planningReplanNeeded s ∧ canPlanningReplanAgain cfg s then
    planAgain (applyPlanningReplanSignal s (routeAuditIssues s))
  else if planningReplanNeeded s ∧ s.judgement.playbook then
    planAgain (degradeToWritingPlaybookState s)
  else if graphTurnHadFatalError s then failedRoute cfg s .incrementalPlanning
  else { next := fork }

/-- The edges of the other nodes (`graph.py`). -/
def successors : Node → List Node
  | .eventClassification => [.acknowledge]
  | .acknowledge => [.interruptControl]
  | .interruptControl => [.incrementalPlanning, .finished]
  | .engineeringExecution => [.policy, .engineeringExecution, .deadLetter]
  | .retrieval => [.toolExecution, .contextGovernance, .retrieval, .deadLetter]
  | .contextGovernance => [.reasoningOrWriting]
  | .verification => [.policy, .humanReview, .rejected]
  | .policy => [.output, .humanReview, .rejected]
  | .humanReview => [.verification]
  | .rejected | .deadLetter | .output => [.finished]
  | .incrementalPlanning | .toolExecution | .reasoningOrWriting | .finished => []

/-! ### Runs -/

/-- What the graph keeps of a node's output: the channels of the schema. -/
def keepChannels (s : GraphState) : GraphState := { s with planningRevisionCount := none }

/-- A node that has run: what it returned, and where its router went. -/
structure Visit where
  node : Node
  output : GraphState
  next : Node
  deriving DecidableEq

/-- The state that the router reads. -/
def Visit.state (v : Visit) : GraphState := keepChannels v.output

/-- The router of the node went where the graph went. -/
def Visit.Follows (v : Visit) : Prop :=
  match v.node with
  | .toolExecution => v.next = (routeAfterTool cfg v.state).next
  | .reasoningOrWriting => v.next = (routeAfterReasoningOrWriting cfg v.state).next
  | .incrementalPlanning =>
    ∃ fork ∈ planningForks, v.next = (routeAfterIncrementalPlanning cfg v.state fork).next
  | node => v.next ∈ successors node

instance (v : Visit) : Decidable (v.Follows cfg) := by
  unfold Visit.Follows
  split <;> infer_instance

/-- The router sent the turn back because of a routing audit or a retry. -/
def Visit.replans (v : Visit) : Bool :=
  match v.node with
  | .toolExecution => (routeAfterTool cfg v.state).saved.isSome
  | .reasoningOrWriting => (routeAfterReasoningOrWriting cfg v.state).saved.isSome
  | .incrementalPlanning => (routeAfterIncrementalPlanning cfg v.state .retrieval).saved.isSome
  | _ => false

/-- A run from a node; what the nodes return is whatever the tools and the model make of it. -/
def IsRun : Node → List Visit → Prop
  | _, [] => True
  | node, v :: run => v.node = node ∧ v.Follows cfg ∧ IsRun v.next run

instance decidableIsRun : (node : Node) → (run : List Visit) → Decidable (IsRun cfg node run)
  | _, [] => .isTrue trivial
  | node, v :: run =>
    have := decidableIsRun v.next run
    inferInstanceAs (Decidable (v.node = node ∧ v.Follows cfg ∧ IsRun cfg v.next run))

/-- The edge goes back to planning because of a routing audit or a retry. -/
def Visit.backEdge (v : Visit) : Bool := v.next = .incrementalPlanning && v.replans cfg

/-! ### What the budget bounds -/

/-- The gate asks for another plan, and a budget of `n` would allow the first one. -/
def wantsAgain (n : ℤ) (next : Next) : Bool := next = .forceWrite || next = .replan && 0 < n

/-- The state asks for the turn to be planned again. -/
def Visit.asks (v : Visit) : Bool :=
  let s := v.output
  let n := cfg.maxPlanningRevisions
  match v.node with
  | .toolExecution =>
    !graphLastToolFailed cfg s && !s.judgement.batchContinuationReady &&
      wantsAgain n (evaluateConvergence s).next
  | .reasoningOrWriting =>
    s.status ≠ .rejected && s.guardPassed && !s.status.endsFailed && s.status ≠ .deadLetter &&
      !s.judgement.narrateAnswerReady &&
        (s.judgement.terminalBlocked.isSome && 0 < n || wantsAgain n (evaluateConvergence s).next)
  | .incrementalPlanning =>
    !s.judgement.sourceInquiry && planningReplanNeeded s && (0 < n || s.judgement.playbook)
  | _ => false

/-! ### The counter never gets to the routers -/

variable {cfg}

/-- Whatever was counted, the routers read zero. -/
theorem canPlanningReplanAgain_keepChannels (s : GraphState) :
    canPlanningReplanAgain cfg (keepChannels s) = decide (0 < cfg.maxPlanningRevisions) := rfl

theorem graphLastToolFailed_keepChannels (s : GraphState) :
    graphLastToolFailed cfg (keepChannels s) = graphLastToolFailed cfg s := rfl

theorem evaluateConvergence_keepChannels (s : GraphState) :
    evaluateConvergence (keepChannels s) = evaluateConvergence s := rfl

theorem judgement_keepChannels (s : GraphState) : (keepChannels s).judgement = s.judgement := rfl

theorem planningReplanNeeded_keepChannels (s : GraphState) :
    planningReplanNeeded (keepChannels s) = planningReplanNeeded s := rfl

@[simp] theorem saved_planAgain (s : GraphState) : (planAgain s).saved = some s := rfl

@[simp] theorem saved_failedRoute (s : GraphState) (retry : Node) :
    (failedRoute cfg s retry).saved = none := by
  rw [failedRoute]
  split_ifs <;> rfl

@[simp] theorem saved_routeForward (s : GraphState) : (routeForward cfg s).saved = none := by
  rw [routeForward]
  split_ifs <;> rfl

/-- The gate plans again exactly when `wantsAgain` says so, whatever it would go on with. -/
theorem isSome_saved_gate (next : Next) (force again : GraphState) (forward : Route)
    (hforward : forward.saved = none) :
    (if next = .forceWrite then planAgain force
      else if next = .replan ∧ decide (0 < cfg.maxPlanningRevisions) then planAgain again
      else forward).saved.isSome = wantsAgain cfg.maxPlanningRevisions next := by
  rw [wantsAgain]
  by_cases hforce : next = .forceWrite
  · simp [hforce]
  · by_cases hagain : next = .replan ∧ 0 < cfg.maxPlanningRevisions
    · simp [hagain]
    · rw [if_neg hforce, if_neg (by simpa using hagain), hforward]
      simpa [hforce] using hagain

variable (cfg) in
theorem isSome_saved_routeConverged (s : GraphState) :
    (routeConverged cfg (keepChannels s)).saved.isSome =
      wantsAgain cfg.maxPlanningRevisions (evaluateConvergence s).next := by
  rw [routeConverged, evaluateConvergence_keepChannels, canPlanningReplanAgain_keepChannels]
  exact isSome_saved_gate _ _ _ _ rfl

theorem isSome_saved_routeAfterTool (s : GraphState) :
    (routeAfterTool cfg (keepChannels s)).saved.isSome =
      (!graphLastToolFailed cfg s && !s.judgement.batchContinuationReady &&
        wantsAgain cfg.maxPlanningRevisions (evaluateConvergence s).next) := by
  rw [routeAfterTool, graphLastToolFailed_keepChannels, evaluateConvergence_keepChannels,
    canPlanningReplanAgain_keepChannels, judgement_keepChannels]
  cases graphLastToolFailed cfg s with
  | true =>
    simp only [not_true_eq_false, false_and, if_false, saved_routeForward]
    rfl
  | false =>
    cases s.judgement.batchContinuationReady with
    | true => rfl
    | false =>
      simp only [not_false_eq_true, true_and, if_false, Bool.false_eq_true, Bool.not_false,
        Bool.true_and]
      exact isSome_saved_gate _ _ _ _ (saved_routeForward _)

theorem isSome_saved_routeAfterReasoningOrWriting (s : GraphState) :
    (routeAfterReasoningOrWriting cfg (keepChannels s)).saved.isSome =
      (s.status ≠ .rejected && s.guardPassed && !s.status.endsFailed && s.status ≠ .deadLetter &&
        !s.judgement.narrateAnswerReady && (s.judgement.terminalBlocked.isSome &&
          0 < cfg.maxPlanningRevisions ||
            wantsAgain cfg.maxPlanningRevisions (evaluateConvergence s).next)) := by
  rw [routeAfterReasoningOrWriting, judgement_keepChannels, canPlanningReplanAgain_keepChannels,
    show (keepChannels s).status = s.status from rfl,
    show (keepChannels s).guardPassed = s.guardPassed from rfl]
  by_cases hguard : s.status = .rejected ∨ ¬ s.guardPassed
  · rw [if_pos hguard]
    rcases hguard with hstatus | hpassed
    · simp [hstatus]
    · simp [hpassed]
  rw [if_neg hguard]
  obtain ⟨hrejected, hpassed⟩ := not_or.mp hguard
  by_cases hfailed : s.status = .failed ∨ s.status = .reasonFailed
  · rw [if_pos hfailed, saved_failedRoute]
    rcases hfailed with hstatus | hstatus <;> simp [hstatus, TaskStatus.endsFailed]
  rw [if_neg hfailed]
  by_cases hdead : s.status.endsFailed ∨ s.status = .deadLetter
  · rw [if_pos hdead]
    rcases hdead with hends | hstatus
    · simp [hends]
    · simp [hstatus]
  rw [if_neg hdead]
  obtain ⟨hends, hletter⟩ := not_or.mp hdead
  by_cases hready : s.judgement.narrateAnswerReady
  · simp [hready]
  rw [if_neg hready]
  have hconverged := isSome_saved_routeConverged cfg s
  cases hblocked : s.judgement.terminalBlocked with
  | none => simp [hconverged, hrejected, not_not.mp hpassed, hends, hletter, hready]
  | some blocked =>
    by_cases hn : 0 < cfg.maxPlanningRevisions
    · simp [hn, hrejected, not_not.mp hpassed, hends, hletter, hready]
    · simp [hn, hconverged, hrejected, not_not.mp hpassed, hends, hletter, hready]

theorem isSome_saved_routeAfterIncrementalPlanning (s : GraphState) (fork : Node) :
    (routeAfterIncrementalPlanning cfg (keepChannels s) fork).saved.isSome =
      (!s.judgement.sourceInquiry && planningReplanNeeded s &&
        (0 < cfg.maxPlanningRevisions || s.judgement.playbook)) := by
  rw [routeAfterIncrementalPlanning, judgement_keepChannels, canPlanningReplanAgain_keepChannels,
    planningReplanNeeded_keepChannels]
  cases s.judgement.sourceInquiry with
  | true => rfl
  | false =>
    cases planningReplanNeeded s with
    | false => simp [apply_ite Route.saved]
    | true =>
      by_cases hn : 0 < cfg.maxPlanningRevisions
      · simp [hn]
      · cases s.judgement.playbook <;> simp [hn, apply_ite Route.saved]

/-! ### Every request goes through -/

theorem replans_eq_asks (v : Visit) : v.replans cfg = v.asks cfg := by
  rw [Visit.replans, Visit.asks]
  cases v.node with
  | toolExecution => exact isSome_saved_routeAfterTool v.output
  | reasoningOrWriting => exact isSome_saved_routeAfterReasoningOrWriting v.output
  | incrementalPlanning => exact isSome_saved_routeAfterIncrementalPlanning v.output .retrieval
  | _ => rfl

/-- A router saves a state only when it plans again. -/
def Route.Back (r : Route) : Prop := r.saved.isSome → r.next = .incrementalPlanning

theorem back_planAgain (s : GraphState) : (planAgain s).Back := fun _ => rfl

theorem back_of_saved {r : Route} (h : r.saved = none) : r.Back := by
  intro hsaved
  rw [h] at hsaved
  cases hsaved

theorem back_routeConverged (s : GraphState) : (routeConverged cfg s).Back := by
  rw [routeConverged]
  split_ifs
  · exact back_planAgain _
  · exact back_planAgain _
  · exact back_of_saved rfl

variable (cfg) in
theorem back_routeAfterTool (s : GraphState) : (routeAfterTool cfg s).Back := by
  rw [routeAfterTool]
  split_ifs
  · exact back_of_saved rfl
  · exact back_planAgain _
  · exact back_planAgain _
  · exact back_of_saved (saved_routeForward s)

theorem back_routeAfterReasoningOrWriting (s : GraphState) :
    (routeAfterReasoningOrWriting cfg s).Back := by
  rw [routeAfterReasoningOrWriting]
  split_ifs
  · exact back_of_saved rfl
  · exact back_of_saved (saved_failedRoute s _)
  · exact back_of_saved rfl
  · exact back_of_saved rfl
  · cases s.judgement.terminalBlocked with
    | none => exact back_routeConverged s
    | some blocked => exact back_planAgain _
  · cases s.judgement.terminalBlocked with
    | none => exact back_routeConverged s
    | some blocked => exact back_routeConverged s

theorem back_routeAfterIncrementalPlanning (s : GraphState) (fork : Node) :
    (routeAfterIncrementalPlanning cfg s fork).Back := by
  rw [routeAfterIncrementalPlanning]
  split_ifs
  · exact back_of_saved rfl
  · exact back_planAgain _
  · exact back_planAgain _
  · exact back_of_saved (saved_failedRoute s _)
  · exact back_of_saved rfl

theorem next_of_replans {v : Visit} (hfollows : v.Follows cfg) (h : v.replans cfg) :
    v.next = .incrementalPlanning := by
  rw [Visit.Follows] at hfollows
  rw [Visit.replans] at h
  cases hnode : v.node with
  | toolExecution =>
    rw [hnode] at hfollows h
    rw [hfollows]
    exact back_routeAfterTool cfg _ h
  | reasoningOrWriting =>
    rw [hnode] at hfollows h
    rw [hfollows]
    exact back_routeAfterReasoningOrWriting _ h
  | incrementalPlanning =>
    rw [hnode] at hfollows h
    obtain ⟨fork, -, hnext⟩ := hfollows
    rw [hnext]
    apply back_routeAfterIncrementalPlanning
    -- Whether it plans again does not depend on the fork.
    exact (isSome_saved_routeAfterIncrementalPlanning v.output fork).trans
      (isSome_saved_routeAfterIncrementalPlanning v.output .retrieval).symm ▸ h
  | _ =>
    rw [hnode] at h
    cases h

/-- A visit takes the edge back exactly when its state asks for it: no budget is in the way. -/
theorem backEdge_eq_asks {v : Visit} (h : v.Follows cfg) : v.backEdge cfg = v.asks cfg := by
  rw [Visit.backEdge, ← replans_eq_asks]
  cases hreplans : v.replans cfg with
  | false => rw [Bool.and_false]
  | true => simp [next_of_replans h hreplans]

/-- The edges back of a run are the requests of a run. -/
theorem countP_backEdge : ∀ {node : Node} {run : List Visit}, IsRun cfg node run →
    run.countP (Visit.backEdge cfg) = run.countP (Visit.asks cfg)
  | _, [], _ => rfl
  | _, v :: run, ⟨_, hfollows, hrun⟩ => by
    rw [List.countP_cons, List.countP_cons, backEdge_eq_asks hfollows, countP_backEdge hrun]

/-! ### A turn that never stops planning -/

def Visit.pass (node next : Node) : Visit := { node := node, output := {}, next := next }

/-- How every turn gets to its first plan. -/
def opening : List Visit :=
  [.pass .eventClassification .acknowledge, .pass .acknowledge .interruptControl,
    .pass .interruptControl .incrementalPlanning]

theorem isRun_opening {run : List Visit} (h : IsRun cfg .incrementalPlanning run) :
    IsRun cfg .eventClassification (opening ++ run) :=
  ⟨rfl, .head _, rfl, .head _, rfl, .head _, h⟩

/-- The tools return without having run the action of the plan. -/
def idleTools : GraphState := { plannedActions := [{ type := "write_artifact".toList }] }

/-- One more plan whose action is not run. -/
def idleRound : List Visit :=
  [.pass .incrementalPlanning .toolExecution,
    { node := .toolExecution, output := idleTools, next := .incrementalPlanning }]

theorem asks_idleTools (h : 0 < cfg.maxPlanningRevisions) (next : Node) :
    Visit.asks cfg { node := .toolExecution, output := idleTools, next := next } = true := by
  have hnext : (evaluateConvergence idleTools).next = .replan := rfl
  simp only [Visit.asks, hnext, wantsAgain, h, decide_true]
  rfl

theorem isRun_idleRound (h : 0 < cfg.maxPlanningRevisions) {run : List Visit}
    (hrun : IsRun cfg .incrementalPlanning run) :
    IsRun cfg .incrementalPlanning (idleRound ++ run) := by
  refine ⟨rfl, ⟨.toolExecution, by simp [planningForks], ?_⟩, rfl, ?_, hrun⟩
  · rfl
  · refine (back_routeAfterTool cfg (keepChannels idleTools) ?_).symm
    rw [isSome_saved_routeAfterTool]
    exact asks_idleTools h .incrementalPlanning

/-- With any budget at all, a turn may be planned again as often as the tools let it. -/
theorem replans_unbounded (h : 0 < cfg.maxPlanningRevisions) (k : ℕ) :
    ∃ run, IsRun cfg .eventClassification run ∧ run.countP (Visit.backEdge cfg) = k := by
  have hrounds : ∃ run, IsRun cfg .incrementalPlanning run ∧ run.countP (Visit.asks cfg) = k := by
    induction k with
    | zero => exact ⟨[], trivial, rfl⟩
    | succ k ih =>
      obtain ⟨run, hrun, hcount⟩ := ih
      refine ⟨idleRound ++ run, isRun_idleRound h hrun, ?_⟩
      rw [List.countP_append, hcount, idleRound, List.countP_cons, List.countP_cons,
        asks_idleTools h, if_pos rfl]
      have hpass : Visit.asks cfg (.pass .incrementalPlanning .toolExecution) = false := rfl
      rw [hpass, List.countP_nil]
      simp [Nat.add_comm]
  obtain ⟨run, hrun, hcount⟩ := hrounds
  refine ⟨opening ++ run, isRun_opening hrun, ?_⟩
  rw [countP_backEdge (isRun_opening hrun), List.countP_append, hcount]
  exact Nat.zero_add k

/-- One retry, and lower case as far as the statuses go. -/
def oneRetry : Config :=
  { maxPlanningRevisions := 1, maxRetryCount := 3, lower := fun t => t.map Char.toLower }

def readOk : ToolResult := { tool := "read_text_artifact".toList, status := "ok".toList }

/-- A plan that only looks around, after some reads. -/
def exploring (reads : ℕ) : GraphState :=
  { plannedActions := [{ type := "read_artifact".toList }],
    toolResults := List.replicate reads readOk }

def exploreRound (reads : ℕ) (next : Node) : List Visit :=
  [.pass .incrementalPlanning .toolExecution,
    { node := .toolExecution, output := exploring reads, next := next }]

/-- The plan after the first retry goes on to an answer. -/
def oneReplan : List Visit :=
  opening ++ exploreRound 1 .incrementalPlanning ++
    [Visit.pass .incrementalPlanning .contextGovernance]

/-- The second plan only reads too. -/
def twoReplans : List Visit :=
  opening ++ exploreRound 1 .incrementalPlanning ++ exploreRound 2 .incrementalPlanning

/-- A run stays within the budget exactly when it asks no more than that: the counter bounds
    nothing. -/
theorem replans_le_iff (cfg : Config) (run : List Visit) (h : IsRun cfg .eventClassification run) :
    (run.countP (Visit.backEdge cfg) : ℤ) ≤ cfg.maxPlanningRevisions ↔
      (run.countP (Visit.asks cfg) : ℤ) ≤ cfg.maxPlanningRevisions := by
  rw [countP_backEdge h]

theorem replans_le_one_replan :
    (oneReplan.countP (Visit.backEdge oneRetry) : ℤ) ≤ oneRetry.maxPlanningRevisions :=
  (replans_le_iff oneRetry oneReplan (by decide +kernel)).mpr (by decide +kernel)

/-- With one retry a turn is planned again twice. -/
theorem replans_twice :
    ¬ ∀ run, IsRun oneRetry .eventClassification run →
      (run.countP (Visit.backEdge oneRetry) : ℤ) ≤ oneRetry.maxPlanningRevisions := fun h =>
  absurd (h twoReplans (by decide +kernel)) (by decide +kernel)

end AgentLangraph.Graph
