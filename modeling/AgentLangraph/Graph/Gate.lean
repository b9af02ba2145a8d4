import AgentLangraph.Graph.Router
import AgentLangraph.Guard.Policy
import AgentLangraph.Lib.Trace

/-! The end of a turn: verification, policy and human review (`verification_node.py`, `policy_node.py`,
    `human_review_node.py`), with the routers between them (`runtime_router.py`, `router.py`). What a reviewer
    approves goes to the policy engine again.

        verification ──▶ policy ──▶ output
           ▲  │             │
           │  ▼             │
        human_review ◀──────┘         both ──▶ rejected -/

namespace AgentLangraph.Graph
open PyText PyTree Session Trace Guard

inductive Submission
  | reject | humanReview | degrade | submit
  deriving DecidableEq

structure ReviewFeedback where
  action : Text
  comment : Text := []
  deriving DecidableEq

/-- The state at the end of a turn, as far as these nodes read it; the details of the audit log are left out. -/
structure GateState where
  status : TaskStatus := .reasoned
  currentNode : Text := []
  /-- `policy_result`; a new turn has none. -/
  policyResult : Option Policy.Result := none
  reviewRequired : Bool := false
  reviewFeedback : Option ReviewFeedback := none
  /-- `passed` of the `output_guard_result`, where there is one. -/
  guardPassed : Option Bool := none
  submissionDecision : Option Submission := none
  reasoningResult : Option PyRecord := none
  toolResults : Option (List PyRecord) := none
  userRole : Text := "user".toList
  errors : List Text := []
  retryCount : ℕ := 0
  auditLog : List (Text × Text) := []

variable (cfg : Policy.Settings)

/-! ### The nodes -/

/-- `merge_state` of a node that is through, with what it notes in the audit log. -/
def GateState.leave (s : GateState) (node action : String) : GateState :=
  { s with currentNode := node.toList, auditLog := s.auditLog ++ [(node.toList, action.toList)] }

/-- What a node makes of an exception. -/
def GateState.fail (s : GateState) (node : String) (exc : Text) : GateState :=
  { s.leave node "error" with
    errors := s.errors ++ [node.toList ++ ": ".toList ++ exc]
    retryCount := s.retryCount + 1
    status := .failed }

/-- `_submission_decision`. -/
def submissionDecision (s : GateState) : Submission :=
  if s.status = .rejected ∨ s.policyResult = some .reject then .reject
  else if s.reviewRequired ∨ s.policyResult = some .review then .humanReview
  else if s.guardPassed = some false then .degrade
  else .submit

def verificationNode (s : GateState) : GateState :=
  { s.leave "verification" (match submissionDecision s with
      | .reject => "reject"
      | .humanReview => "human_review"
      | .degrade => "degrade"
      | .submit => "submit") with
    submissionDecision := some (submissionDecision s) }

/-- `risk_level or …` of what the reasoning says; `none` where `upper` raises on it. -/
def riskLevelOf (v : PyTree) : Option (Option Text) :=
  match v with
  | leaf (.str level) => some (some level)
  | v => if v.truthy then none else some none

/-- What the engine is asked, and its answer; `none` where it raises. -/
def engine (s : GateState) : Option Policy.PolicyDecision :=
  let reasoning := s.reasoningResult.getD PyDict.empty
  (riskLevelOf (Policy.value reasoning "risk_level")).bind fun level =>
    Policy.evaluate cfg
      { reasoningResult := some reasoning, toolResults := s.toolResults, riskLevel := level, userRole := s.userRole,
        reviewRequired := s.reviewRequired }

/-- `policy_node`; `raised` is something else in it that raises, such as the store. -/
def policyNode (raised : Bool) (exc : Text) (s : GateState) : GateState :=
  match raised, engine cfg s with
  | false, some decision =>
    { s.leave "policy" "success" with
      policyResult := some decision.result
      reviewRequired := decision.result = .review ∨ decision.result = .escalate
      status := .policyChecked }
  | _, _ => s.fail "policy" exc

def humanReviewNode (raised : Bool) (exc : Text) (s : GateState) : GateState :=
  if raised then s.fail "human_review" exc
  else match s.reviewFeedback with
    | some feedback =>
      if cfg.upper feedback.action = "REJECT".toList then
        { s.leave "human_review" "rejected" with
          policyResult := some .reject, reviewRequired := false, status := .rejected }
      else
        { s.leave "human_review" "approved" with
          policyResult := some .continue, reviewRequired := false, status := .reviewResolved }
    | none => { s.leave "human_review" "waiting" with reviewRequired := true, status := .waitingReview }

/-! ### The routers -/

def routeAfterVerification (s : GateState) : Node :=
  match s.submissionDecision with
  | some .reject => .rejected
  | some .humanReview => .humanReview
  | _ => .policy

def routeAfterPolicy (s : GateState) : Node :=
  match s.policyResult.getD .continue with
  | .continue => .output
  | .review | .escalate => .humanReview
  | .reject => .rejected

/-! ### Runs -/

/-- The next node to run: the feedback that `submit_review` has put into the state by then, and whether something
    raises in the node. -/
structure Move where
  feedback : Option ReviewFeedback := none
  raised : Bool := false
  exc : Text := []

def GateState.submitReview (s : GateState) (feedback : Option ReviewFeedback) : GateState :=
  { s with reviewFeedback := feedback.orElse fun _ => s.reviewFeedback }

/-- One node and its router; behind these nodes the turn is decided. -/
def gateStep (p : Node × GateState) (m : Move) : Node × GateState :=
  let s := p.2.submitReview m.feedback
  match p.1 with
  | .verification => (routeAfterVerification (verificationNode s), verificationNode s)
  | .policy => (routeAfterPolicy (policyNode cfg m.raised m.exc s), policyNode cfg m.raised m.exc s)
  | .humanReview => (.verification, humanReviewNode cfg m.raised m.exc s)
  | _ => p

/-- The moves of a run that run the policy node. -/
def policyVisits : Node × GateState → List Move → List Move
  | _, [] => []
  | p, m :: moves => (if p.1 = .policy then [m] else []) ++ policyVisits (gateStep cfg p m) moves

/-- What the engine says without the flag for a review. -/
def judged (s : GateState) : Option Policy.Result :=
  (engine cfg { s with reviewRequired := false }).map Policy.PolicyDecision.result

/-- The policy node lets the answer out: the engine does, or something raises. -/
def Move.Releases (m : Move) (judged : Option Policy.Result) : Prop :=
  m.raised = true ∨ judged = none ∨ judged = some .continue

/-- An escalation stands with the flag for a review, and the policy node runs only where nothing is against it. -/
structure Gated (p : Node × GateState) : Prop where
  flagged : p.2.policyResult = some .escalate → p.2.reviewRequired = true
  clear : p.1 = .policy →
    p.2.reviewRequired = false ∧ p.2.policyResult ≠ some .reject ∧ p.2.policyResult ≠ some .review

variable {cfg}

/-! ### What a node does -/

/-- The gate takes the edges of the graph. -/
theorem mem_successors_gateStep {p : Node × GateState} (m : Move)
    (h : p.1 ∈ [Node.verification, Node.policy, Node.humanReview]) : (gateStep cfg p m).1 ∈ successors p.1 := by
  obtain ⟨node, s⟩ := p
  simp only [List.mem_cons, List.not_mem_nil, or_false] at h
  rcases h with rfl | rfl | rfl
  · simp only [gateStep, routeAfterVerification, successors]
    split <;> simp
  · simp only [gateStep, routeAfterPolicy, successors]
    split <;> simp
  · simp [gateStep, successors]

/-- What the engine is asked about stays as it is. -/
theorem judged_gateStep (p : Node × GateState) (m : Move) : judged cfg (gateStep cfg p m).2 = judged cfg p.2 := by
  obtain ⟨node, s⟩ := p
  cases node with
  | verification => rfl
  | policy =>
    simp only [gateStep, policyNode]
    split <;> rfl
  | humanReview =>
    simp only [gateStep, humanReviewNode]
    split_ifs
    · rfl
    · split
      · split_ifs <;> rfl
      · rfl
  | _ => rfl

theorem gated_gateStep {p : Node × GateState} (h : Gated p) (m : Move) : Gated (gateStep cfg p m) := by
  obtain ⟨node, s⟩ := p
  cases node with
  | verification =>
    refine ⟨h.flagged, fun hnext => ?_⟩
    simp only [gateStep, routeAfterVerification, verificationNode] at hnext ⊢
    generalize hdecision : submissionDecision (s.submitReview m.feedback) = decision at hnext
    rw [submissionDecision] at hdecision
    split_ifs at hdecision with hrejected hreview <;> subst hdecision
    · cases hnext
    · cases hnext
    all_goals exact ⟨Bool.not_eq_true _ ▸ fun hflag => hreview (.inl hflag), fun hpolicy => hrejected (.inr hpolicy),
      fun hpolicy => hreview (.inr hpolicy)⟩
  | policy =>
    constructor
    · simp only [gateStep, policyNode]
      split
      · intro hescalate
        simpa using Or.inr (Option.some.inj hescalate)
      · exact h.flagged
    · simp only [gateStep, routeAfterPolicy]
      split <;> nofun
  | humanReview =>
    refine ⟨?_, nofun⟩
    simp only [gateStep, humanReviewNode]
    split_ifs
    · exact h.flagged
    · split
      · split_ifs <;> nofun
      · exact fun _ => rfl
  | _ => exact h

/-- Where the policy node runs, it lets the answer out exactly when the engine does, without the flag, or something
    raises. -/
theorem output_iff_of_policy {s : GateState} (h : Gated (.policy, s)) (m : Move) :
    (gateStep cfg (.policy, s) m).1 = .output ↔ m.Releases (judged cfg s) := by
  obtain ⟨hflag, hreject, hreview⟩ := h.clear rfl
  have hescalate : s.policyResult ≠ some .escalate := fun he => by
    rw [show s.reviewRequired = true from h.flagged he] at hflag
    cases hflag
  have hengine : engine cfg (s.submitReview m.feedback) = engine cfg { s with reviewRequired := false } := by
    rw [← show s.reviewRequired = false from hflag]
    rfl
  have hfailed : routeAfterPolicy ((s.submitReview m.feedback).fail "policy" m.exc) = .output := by
    change (match s.policyResult.getD .continue with
      | .continue => Node.output
      | .review | .escalate => .humanReview
      | .reject => .rejected) = .output
    cases hresult : s.policyResult with
    | none => rfl
    | some result =>
      cases result with
      | «continue» => rfl
      | review => exact absurd hresult hreview
      | escalate => exact absurd hresult hescalate
      | reject => exact absurd hresult hreject
  simp only [gateStep, policyNode, hengine, Move.Releases, judged]
  cases m.raised with
  | true => simp [hfailed]
  | false =>
    cases engine cfg { s with reviewRequired := false } with
    | none => simp [hfailed]
    | some decision => cases hresult : decision.result <;> simp [routeAfterPolicy, hresult]

/-! ### Whole runs -/

theorem run_gateStep_of_done {p : Node × GateState} (h : p.1 = .output ∨ p.1 = .rejected) (moves : List Move) :
    run (gateStep cfg) p moves = p ∧ policyVisits cfg p moves = [] := by
  obtain ⟨node, s⟩ := p
  induction moves with
  | nil => exact ⟨rfl, rfl⟩
  | cons m moves ih => rcases h with h | h <;> cases h <;> exact ⟨ih.1, ih.2⟩

theorem output_iff_of_gated (moves : List Move) : ∀ {p : Node × GateState}, Gated p →
    p.1 ∈ [Node.verification, Node.policy, Node.humanReview] →
    ((run (gateStep cfg) p moves).1 = .output ↔
      ∃ m ∈ policyVisits cfg p moves, m.Releases (judged cfg p.2)) := by
  induction moves with
  | nil =>
    rintro ⟨node, s⟩ - hnode
    simp only [run_nil, policyVisits, List.not_mem_nil, false_and, exists_false, iff_false]
    rintro rfl
    simp at hnode
  | cons m moves ih =>
    rintro ⟨node, s⟩ hgated hnode
    have hnext := @mem_successors_gateStep cfg _ m hnode
    -- behind the node the turn goes on, or it is decided
    have hrest : ¬ (gateStep cfg (node, s) m).1 = .output →
        ((run (gateStep cfg) (gateStep cfg (node, s) m) moves).1 = .output ↔
          ∃ m' ∈ policyVisits cfg (gateStep cfg (node, s) m) moves, m'.Releases (judged cfg s)) := by
      intro hout
      by_cases hrejected : (gateStep cfg (node, s) m).1 = .rejected
      · obtain ⟨hrun, hvisits⟩ := @run_gateStep_of_done cfg _ (.inr hrejected) moves
        simp [hrun, hvisits, hrejected]
      · have := ih (@gated_gateStep cfg _ hgated m) ?_
        · rwa [judged_gateStep] at this
        · revert hnext
          simp only [List.mem_cons, List.not_mem_nil, or_false] at hnode
          rcases hnode with rfl | rfl | rfl <;> simp [successors] <;> tauto
    rw [run_cons, policyVisits]
    by_cases hpolicy : node = .policy
    · subst hpolicy
      have hout := @output_iff_of_policy cfg _ hgated m
      by_cases hreleases : m.Releases (judged cfg s)
      · have := (@run_gateStep_of_done cfg _ (.inl (hout.2 hreleases)) moves).1
        simp [this, hout.2 hreleases, hreleases]
      · simp [hrest (fun h => hreleases (hout.1 h)), hreleases]
    · have hout : ¬ (gateStep cfg (node, s) m).1 = .output := by
        intro h
        rw [h] at hnext
        simp only [List.mem_cons, List.not_mem_nil, or_false] at hnode
        rcases hnode with rfl | rfl | rfl <;> simp [successors] at hnext hpolicy
      simp [hrest hout, hpolicy]

/-- Whatever the reviewers say and however often, a turn lets its answer out exactly when the policy node has run and
    the engine had nothing against it, or something raised. -/
theorem released_iff {s : GateState} (hflagged : s.policyResult = some .escalate → s.reviewRequired = true)
    (moves : List Move) : (run (gateStep cfg) (.verification, s) moves).1 = .output ↔
      ∃ m ∈ policyVisits cfg (.verification, s) moves,
        m.raised = true ∨ judged cfg s = none ∨ judged cfg s = some .continue :=
  output_iff_of_gated moves ⟨hflagged, nofun⟩ (by simp)

/-- High risks are for a review. -/
def cautious : Policy.Settings where
  autoRejectRiskLevel := "CRITICAL".toList
  requireReviewRiskLevel := "HIGH".toList
  upper := fun t => t.map Char.toUpper
  str := fun _ => []
  float := fun _ => some (Policy.number (4 / 5))
  repr := fun _ => []

def risky : GateState := { reasoningResult := some (.ofList [entry "risk_level" (leaf (.str "high".toList))]) }

def approval : Move := { feedback := some { action := "APPROVE".toList } }

/-- Approved, the answer comes back to the engine, which has not changed its mind. -/
theorem released_iff_approved :
    (run (gateStep cautious) (.verification, risky) (List.replicate 6 approval)).1 ≠ .output ∧
    (run (gateStep cautious) (.verification, risky) (List.replicate 6 approval)).1 = .verification :=
  ⟨fun h => by
    obtain ⟨m, hm, hreleases⟩ := (@released_iff cautious risky nofun _).1 h
    have hjudged : judged cautious risky = some .review := by decide +kernel
    have hraised : m.raised = false := by
      have : ∀ m ∈ policyVisits cautious (.verification, risky) (List.replicate 6 approval), m.raised = false := by
        decide +kernel
      exact this m hm
    simp [hjudged, hraised] at hreleases, by decide +kernel⟩

/-! ### How long a turn can be -/

/-- The edges of the graph (`build_agent_graph`). -/
def edges : Node → List Node
  | .incrementalPlanning => .incrementalPlanning :: planningForks
  | .toolExecution => [.toolExecution, .contextGovernance, .incrementalPlanning, .deadLetter]
  | .reasoningOrWriting => [.reasoningOrWriting, .incrementalPlanning, .verification, .rejected, .deadLetter]
  | node => successors node

/-- How many nodes are before the end, at most. -/
def Node.rank : Node → ℕ
  | .finished => 0
  | .output | .rejected | .deadLetter => 1
  | .humanReview => 2
  | .policy => 3
  | .verification => 4
  | .reasoningOrWriting => 5
  | .contextGovernance => 6
  | .toolExecution => 7
  | .retrieval | .engineeringExecution => 8
  | .incrementalPlanning => 9
  | .interruptControl => 10
  | .acknowledge => 11
  | .eventClassification => 12

section
variable {cfg : Config}

/-- The turn is planned again, the node runs again, or it comes from a review. -/
def Visit.loops (cfg : Config) (v : Visit) : Bool :=
  v.backEdge cfg || decide (v.next = v.node) || decide (v.node = .humanReview)

theorem next_failedRoute (s : GraphState) (retry : Node) :
    (failedRoute cfg s retry).next = .deadLetter ∨ (failedRoute cfg s retry).next = retry := by
  rw [failedRoute]
  split_ifs
  · exact .inl rfl
  · exact .inr rfl

theorem next_routeAfterTool (s : GraphState) : (routeAfterTool cfg s).next ∈ edges .toolExecution ∧
    ((routeAfterTool cfg s).next = .incrementalPlanning → (routeAfterTool cfg s).saved.isSome) := by
  rw [routeAfterTool, routeForward]
  split_ifs <;> simp [edges, planAgain]

theorem next_routeAfterReasoningOrWriting (s : GraphState) :
    (routeAfterReasoningOrWriting cfg s).next ∈ edges .reasoningOrWriting ∧
      ((routeAfterReasoningOrWriting cfg s).next = .incrementalPlanning →
        (routeAfterReasoningOrWriting cfg s).saved.isSome) := by
  have hconverged : (routeConverged cfg s).next ∈ edges .reasoningOrWriting ∧
      ((routeConverged cfg s).next = .incrementalPlanning → (routeConverged cfg s).saved.isSome) := by
    rw [routeConverged]
    split_ifs <;> simp [edges, planAgain]
  rw [routeAfterReasoningOrWriting]
  split_ifs
  · simp [edges]
  · rcases @next_failedRoute cfg s .reasoningOrWriting with h | h <;> simp [h, edges]
  · simp [edges]
  · simp [edges]
  all_goals
    cases s.judgement.terminalBlocked with
    | none => exact hconverged
    | some blocked => first | exact hconverged | simp [edges, planAgain]

theorem next_routeAfterIncrementalPlanning (s : GraphState) {fork : Node} (hfork : fork ∈ planningForks) :
    (routeAfterIncrementalPlanning cfg s fork).next ∈ edges .incrementalPlanning := by
  rw [routeAfterIncrementalPlanning]
  split_ifs
  · simp [edges, planningForks]
  · simp [edges, planAgain]
  · simp [edges, planAgain]
  · rcases @next_failedRoute cfg s .incrementalPlanning with h | h <;> simp [h, edges, planningForks]
  · exact List.mem_cons_of_mem _ hfork

/-- A router answers with an edge of its node, and with an edge back to planning only to plan again. -/
theorem mem_edges_of_follows {v : Visit} (h : v.Follows cfg) :
    v.next ∈ edges v.node ∧ (v.next = .incrementalPlanning →
      v.node = .interruptControl ∨ v.node = .incrementalPlanning ∨ v.replans cfg = true) := by
  rw [Visit.Follows] at h
  rw [Visit.replans]
  cases hnode : v.node with
  | toolExecution =>
    rw [hnode] at h
    rw [h]
    exact ⟨(next_routeAfterTool _).1, fun hback => .inr (.inr ((next_routeAfterTool _).2 hback))⟩
  | reasoningOrWriting =>
    rw [hnode] at h
    rw [h]
    exact ⟨(next_routeAfterReasoningOrWriting _).1,
      fun hback => .inr (.inr ((next_routeAfterReasoningOrWriting _).2 hback))⟩
  | incrementalPlanning =>
    rw [hnode] at h
    obtain ⟨fork, hfork, hnext⟩ := h
    rw [hnext]
    exact ⟨next_routeAfterIncrementalPlanning _ hfork, fun _ => .inr (.inl rfl)⟩
  | _ =>
    rw [hnode] at h
    refine ⟨h, fun hback => ?_⟩
    rw [hback] at h
    simp [successors] at h ⊢

/-- An edge that does not lead nearer to the end is one of three kinds, and leads no further back than a plan. -/
theorem rank_edge (node : Node) : ∀ next ∈ edges node, next.rank ≤ node.rank + 9 ∧
    (next.rank < node.rank ∨ next = node ∨ node = .humanReview ∨
      next = .incrementalPlanning ∧ node ≠ .interruptControl) := by
  cases node <;> simp [edges, successors, planningForks, Node.rank]

theorem rank_next_lt {v : Visit} (h : v.Follows cfg) (hloops : v.loops cfg = false) : v.next.rank < v.node.rank := by
  obtain ⟨hedge, hback⟩ := mem_edges_of_follows h
  simp only [Visit.loops, Visit.backEdge, Bool.or_eq_false_iff, Bool.and_eq_false_iff, decide_eq_false_iff_not]
    at hloops
  obtain ⟨⟨hplan, hself⟩, hreview⟩ := hloops
  rcases (rank_edge v.node v.next hedge).2 with hlt | hnode | hnode | ⟨hnext, hcontrol⟩
  · exact hlt
  · exact absurd hnode hself
  · exact absurd hnode hreview
  · rcases hback hnext with hnode | hnode | hreplans
    · exact absurd hnode hcontrol
    · exact absurd (hnext.trans hnode.symm) hself
    · rcases hplan with hplan | hplan
      · exact absurd hnext hplan
      · rw [hreplans] at hplan
        cases hplan

theorem length_le_of_isRun : ∀ {node : Node} {run : List Visit}, IsRun cfg node run →
    run.length ≤ node.rank + 10 * run.countP (Visit.loops cfg)
  | _, [], _ => Nat.zero_le _
  | _, v :: run, ⟨hnode, hfollows, hrun⟩ => by
    have hrest := length_le_of_isRun hrun
    rw [List.length_cons, List.countP_cons, ← hnode]
    cases hloops : v.loops cfg with
    | true =>
      have hback := (rank_edge v.node v.next (mem_edges_of_follows hfollows).1).1
      rw [if_pos rfl]
      omega
    | false =>
      have hnearer := rank_next_lt hfollows hloops
      rw [if_neg Bool.false_ne_true]
      omega

theorem policy_of_output : ∀ {node : Node} {run : List Visit}, IsRun cfg node run →
    ∀ v ∈ run, v.next = .output → v.node = .policy
  | _, [], _ => fun _ hv => absurd hv List.not_mem_nil
  | _, v :: run, ⟨_, hfollows, hrun⟩ => by
    rw [List.forall_mem_cons]
    refine ⟨fun hnext => ?_, policy_of_output hrun⟩
    have hedge := (mem_edges_of_follows hfollows).1
    rw [hnext] at hedge
    revert hedge
    cases v.node <;> simp [edges, successors, planningForks]

/-- A turn is as long as it is planned again, as nodes run again and as it is reviewed: between two of these it comes
    nearer to its end with each node. Nothing but the policy node leads to the output. -/
theorem length_le_loops {node : Node} {run : List Visit} (h : IsRun cfg node run) :
    run.length ≤ node.rank + 10 * run.countP (Visit.loops cfg) ∧ ∀ v ∈ run, v.next = .output → v.node = .policy :=
  ⟨length_le_of_isRun h, policy_of_output h⟩

theorem length_le_loops_one_replan : oneReplan.length ≤ 12 + 10 * oneReplan.countP (Visit.loops oneRetry) :=
  (@length_le_loops oneRetry .eventClassification _ (by decide +kernel)).1

end

end AgentLangraph.Graph
