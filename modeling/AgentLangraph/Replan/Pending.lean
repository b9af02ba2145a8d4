import AgentLangraph.Replan.Node
import AgentLangraph.Session.Settled

/-! Whether a replan gate is discharged by planning. The gate marks the payload with
    `require_planning_after_contract_invalidation`; no path of planning writes that key, and what a merge
    does not overwrite stays. So the replan is still pending behind every plan, and the next save turns a
    running session back. -/

namespace AgentLangraph.Replan
open PyText AgentLangraph.Session AgentLangraph.Plan
open AgentLangraph.Tool (Action)

/-! ### The node as its own equation -/

section
variable {p : Planner} {s : PlanState}

@[simp] theorem planningRevisionCount_enter (s : PlanState) :
    (enter s).planningRevisionCount = s.planningRevisionCount := by
  rw [enter, merge_planningRevisionCount, recordModeEntry]
  split_ifs <;> rfl

theorem le_planningRevisionCount_revise (p : Planner) (s : PlanState) :
    s.planningRevisionCount ≤ (revise p s).planningRevisionCount := by
  rw [revise]
  split_ifs
  · exact Nat.le_succ _
  · exact le_rfl

@[simp] theorem planningRevisionCount_applyResolution (q : Passes) (r : Resolution) (s : PlanState) :
    (applyResolution q r s).planningRevisionCount = s.planningRevisionCount := by
  have hisolated : (applyModeIsolationIfNeeded q r s).planningRevisionCount = s.planningRevisionCount := by
    rw [applyModeIsolationIfNeeded]
    split_ifs <;> rfl
  rw [applyResolution, applyModeContractToState]
  split <;> exact hisolated

@[simp] theorem planningRevisionCount_runPrePlanning (q : Passes) (s : PlanState) :
    (runPrePlanningPipeline q s).planningRevisionCount = s.planningRevisionCount :=
  planningRevisionCount_applyResolution q _
    (applyIntentObservationToState q (q.observe (mergeAudit q s)) (mergeAudit q s))

/-- Only a first plan is planned again, and then the second one counts. -/
theorem llmPlan_congr {again again' : PlanState → Except Failure PlanState}
    (h : s.planningRevisionCount < maxRevisions → ∀ t : PlanState, maxRevisions ≤ t.planningRevisionCount →
      again t = again' t) : llmPlan p again s = llmPlan p again' s := by
  rw [llmPlan, llmPlan]
  refine bind_congr fun d => bind_congr fun payload => ?_
  dsimp only
  split_ifs with hagain
  · exact h hagain.2 _ (Nat.le_add_left 1 _)
  · rfl
  · rfl

theorem planOnce_congr {again again' : PlanState → Except Failure PlanState}
    (h : s.planningRevisionCount < maxRevisions → ∀ t : PlanState, maxRevisions ≤ t.planningRevisionCount →
      again t = again' t) : planOnce p again s = planOnce p again' s := by
  have hroute : route p again (runPrePlanningPipeline p.toPasses (enter (revise p s))) =
      route p again' (runPrePlanningPipeline p.toPasses (enter (revise p s))) := by
    have hplan : llmPlan p again (runPrePlanningPipeline p.toPasses (enter (revise p s))) =
        llmPlan p again' (runPrePlanningPipeline p.toPasses (enter (revise p s))) := by
      refine llmPlan_congr fun hlt => h ?_
      simp only [planningRevisionCount_runPrePlanning, planningRevisionCount_enter] at hlt
      exact (le_planningRevisionCount_revise p s).trans_lt hlt
    rw [route, route, hplan]
  rw [planOnce, planOnce, finish, finish, hroute]

/-- The revisions that are left are enough for the node to call itself. -/
theorem planningNode_eq (p : Planner) (s : PlanState) :
    planningNode p s = planOnce p (planningNode p) s := by
  have hlast : ∀ t : PlanState, maxRevisions ≤ t.planningRevisionCount →
      planningNode p t = planWithin p 0 t := by
    intro t ht
    rw [planningNode, Nat.sub_eq_zero_of_le ht]
  by_cases hlt : s.planningRevisionCount < maxRevisions
  · have hleft : maxRevisions - s.planningRevisionCount = 1 := by
      rw [maxRevisions] at hlt ⊢
      omega
    rw [planningNode, hleft, planWithin]
    exact planOnce_congr fun _ t ht => (hlast t ht).symm
  · rw [hlast s (not_lt.1 hlt), planWithin]
    exact planOnce_congr fun h => absurd h hlt

end

/-! ### The mark stays -/

/-- The key that the gate marks a payload with. -/
abbrev mark : String := "require_planning_after_contract_invalidation"

section
variable {p : Passes} {s : PlanState} {payload : Fields}

theorem marked_put {key : String} (h : key ≠ mark) (v : PyVal) :
    contractReplanRequired (payload.put key v) = contractReplanRequired payload :=
  congrArg PyVal.truthy (PyDict.field_put_ne payload h v)

theorem marked_pop {key : String} (h : key ≠ mark) :
    contractReplanRequired (payload.pop key) = contractReplanRequired payload :=
  congrArg PyVal.truthy (PyDict.field_pop_ne payload h)

theorem marked_box {key : String} (h : key ≠ mark) :
    contractReplanRequired (p.box s payload key) = contractReplanRequired payload := marked_put h _

/-- What is merged back marked leaves the mark. -/
theorem marked_merge (hs : contractReplanRequired s.inputPayload)
    (h : contractReplanRequired payload) : contractReplanRequired (s.merge payload).inputPayload := by
  rw [contractReplanRequired] at hs h ⊢
  rw [merge_inputPayload, PyDict.field_update]
  split_ifs
  · exact h
  · exact hs

theorem marked_ite {c : Prop} [Decidable c] {payload' : Fields} {b : Bool}
    (h : contractReplanRequired payload = b) (h' : contractReplanRequired payload' = b) :
    contractReplanRequired (if c then payload else payload') = b := by
  split_ifs
  · exact h
  · exact h'

/-! ### Through the passes -/

theorem marked_modePayload (r : Resolution) (c : ModeContract) :
    contractReplanRequired (modePayload r c payload) = contractReplanRequired payload := by
  rw [modePayload]
  split_ifs <;> simp (disch := decide) only [marked_put]

theorem marked_contractPayload (r : Resolution) (c : ModeContract) :
    contractReplanRequired (contractPayload p r c s) = contractReplanRequired s.inputPayload := by
  unfold contractPayload
  extract_lets written resolved effective delivered blocked stripped left
  have hdelivered : contractReplanRequired delivered = contractReplanRequired s.inputPayload := by
    simp (disch := decide) only [delivered, effective, resolved, written, marked_box, marked_modePayload]
  have hblocked : contractReplanRequired blocked = contractReplanRequired s.inputPayload :=
    marked_ite ((marked_box (by decide)).trans hdelivered) hdelivered
  have hstripped : contractReplanRequired stripped = contractReplanRequired s.inputPayload :=
    marked_ite ((marked_box (by decide)).trans hblocked) hblocked
  have hleft : contractReplanRequired left = contractReplanRequired s.inputPayload :=
    marked_ite ((marked_pop (by decide)).trans hstripped) hstripped
  exact (marked_box (by decide)).trans hleft

theorem marked_applyModeContract {r : Resolution} (h : contractReplanRequired s.inputPayload) :
    contractReplanRequired (applyModeContractToState p r s).inputPayload := by
  rw [applyModeContractToState]
  cases r.contract with
  | none => exact h
  | some c => exact marked_merge h ((marked_contractPayload r c).trans h)

theorem marked_applyModeIsolation {r : Resolution} (h : contractReplanRequired s.inputPayload) :
    contractReplanRequired (applyModeIsolationIfNeeded p r s).inputPayload := by
  have hisolated : contractReplanRequired ((s.inputPayload.put "engineering_turn" (.bool true)).put
      "mode_isolated" (.bool true)) = true := by
    rw [marked_put (by decide), marked_put (by decide)]
    exact h
  rw [applyModeIsolationIfNeeded]
  split_ifs
  · exact marked_merge h ((marked_box (by decide)).trans hisolated)
  · exact marked_merge h hisolated
  · exact h

theorem marked_applyResolution {r : Resolution} (h : contractReplanRequired s.inputPayload) :
    contractReplanRequired (applyResolution p r s).inputPayload :=
  marked_applyModeContract (marked_applyModeIsolation h)

theorem marked_mergeAudit (h : contractReplanRequired s.inputPayload) :
    contractReplanRequired (mergeAudit p s).inputPayload :=
  marked_merge h ((marked_box (by decide)).trans h)

theorem marked_observedPayload (o : Observation) :
    contractReplanRequired (observedPayload p o s) = contractReplanRequired s.inputPayload := by
  unfold observedPayload
  extract_lets frozen audited asked
  have hfrozen : contractReplanRequired frozen = contractReplanRequired s.inputPayload := by
    refine marked_ite ?_ ?_ <;> simp (disch := decide) only [marked_put, marked_box]
  have haudited : contractReplanRequired audited = contractReplanRequired s.inputPayload :=
    (marked_box (by decide)).trans hfrozen
  have hasked : contractReplanRequired asked = contractReplanRequired s.inputPayload := by
    simp (disch := decide) only [asked, marked_put, haudited]
  have hhints : contractReplanRequired (sourceInquiryHints p s asked) =
      contractReplanRequired s.inputPayload := by
    simp (disch := decide) only [sourceInquiryHints, marked_put, marked_pop, marked_box, hasked]
  exact marked_ite haudited (marked_ite hhints hasked)

theorem marked_prePlanning (h : contractReplanRequired s.inputPayload) :
    contractReplanRequired (runPrePlanningPipeline p s).inputPayload := by
  have hobserved : contractReplanRequired (applyIntentObservationToState p (p.observe (mergeAudit p s))
      (mergeAudit p s)).inputPayload :=
    marked_merge (marked_mergeAudit h) ((marked_observedPayload _).trans (marked_mergeAudit h))
  have hresolved := marked_applyResolution (p := p) (r := p.resolve (applyIntentObservationToState p
    (p.observe (mergeAudit p s)) (mergeAudit p s))) hobserved
  exact marked_merge hresolved ((marked_put (by decide) _).trans hresolved)

theorem marked_attachMetadata (a : Audit) :
    contractReplanRequired (attachMetadata p a s payload) = contractReplanRequired payload := by
  simp (disch := decide) only [attachMetadata, marked_put, marked_box]

theorem marked_correctedPayload (a : Audit) :
    contractReplanRequired (correctedPayload p a s) = contractReplanRequired s.inputPayload := by
  unfold correctedPayload
  extract_lets given disabled stripped renamed
  have hdisabled : contractReplanRequired disabled = contractReplanRequired s.inputPayload :=
    marked_ite (marked_box (by decide)) rfl
  have hstripped : contractReplanRequired stripped = contractReplanRequired s.inputPayload :=
    marked_ite ((marked_box (by decide)).trans hdisabled) hdisabled
  have hrenamed : contractReplanRequired renamed = contractReplanRequired s.inputPayload :=
    marked_ite ((marked_box (by decide)).trans hstripped) hstripped
  refine marked_ite ?_ hrenamed
  simp (disch := decide) only [marked_put, hrenamed]

theorem marked_applyCorrections {a : Audit} (h : contractReplanRequired s.inputPayload) :
    contractReplanRequired (applyCorrections p a s).inputPayload := by
  rw [applyCorrections]
  split_ifs
  · exact marked_merge h ((marked_attachMetadata a).trans h)
  all_goals exact marked_merge h ((marked_attachMetadata a).trans ((marked_correctedPayload a).trans h))

theorem marked_normalizeReasoningPolicy (h : contractReplanRequired s.inputPayload) :
    contractReplanRequired (normalizeReasoningPolicy p s).inputPayload :=
  marked_merge h (marked_ite ((marked_put (by decide) _).trans h) h)

theorem marked_auditRoute (h : contractReplanRequired s.inputPayload) :
    contractReplanRequired (auditRoute p s).inputPayload := by
  have hbehind : ∀ {s : PlanState}, contractReplanRequired s.inputPayload →
      contractReplanRequired (runModeResolutionPipeline p s).inputPayload := marked_applyResolution
  have haudited : contractReplanRequired (mergeAudit p s).inputPayload := marked_mergeAudit h
  have hcorrected : contractReplanRequired (applyCorrections p (auditPlannedRoute (p.judge s))
      (mergeAudit p s)).inputPayload := marked_applyCorrections haudited
  have hbound := hbehind (marked_normalizeReasoningPolicy (p := p) hcorrected)
  rw [auditRoute]
  split
  · dsimp only
    split_ifs
    · exact hbound
    · exact marked_normalizeReasoningPolicy (marked_mergeAudit hbound)
  · exact hbehind h

end

/-! ### Through the node -/

section
variable {p : Planner} {s : PlanState}

/-- Whatever state comes out of a planning is marked. -/
def Marks (x : Except Failure PlanState) : Prop := ∀ out, x = .ok out → contractReplanRequired out.inputPayload

theorem marks_ok {out : PlanState} (h : contractReplanRequired out.inputPayload) : Marks (.ok out) := by
  rintro _ ⟨⟩
  exact h

theorem marks_error (e : Failure) : Marks (.error e) := by
  intro out h
  cases h

theorem marks_bind {α : Type} {x : Except Failure α} {f : α → Except Failure PlanState}
    (h : ∀ a, x = .ok a → Marks (f a)) : Marks (x >>= f) := by
  cases x with
  | ok a => exact h a rfl
  | error e => exact marks_error e

theorem marked_finishThin {payload : Fields} {plan tools : List Text} {actions : List Action} {pin skip : Bool}
    (hs : contractReplanRequired s.inputPayload) (h : contractReplanRequired payload) :
    contractReplanRequired (finishThin p s payload plan tools actions pin skip).inputPayload := by
  have hmerged : contractReplanRequired
      { s.merge payload with
        plan := plan, plannedActions := actions, selectedTools := tools, skipRetrieval := .bool skip,
        reviewRequired := false, status := .planned,
        currentNode := "planning".toList : PlanState }.inputPayload := marked_merge hs h
  have haudited := marked_auditRoute (p := p.toPasses) hmerged
  rw [finishThin]
  split_ifs
  · refine marked_merge haudited ?_
    rw [marked_put (by decide), marked_put (by decide)]
    exact haudited
  · exact haudited

theorem marked_putTransport {payload payload' : Fields} (h : putTransport p s payload = .ok payload') :
    contractReplanRequired payload' = contractReplanRequired payload := by
  rw [putTransport] at h
  split_ifs at h
  rw [← Except.ok.inj h]
  simp (disch := decide) only [marked_box]

theorem marked_playbookPayload {operator : Text} {payload : Fields}
    (h : playbookPayload p s operator = .ok payload) :
    contractReplanRequired payload = contractReplanRequired s.inputPayload := by
  rw [playbookPayload] at h
  cases hput : putTransport p s s.inputPayload with
  | error e => rw [hput] at h; cases h
  | ok payload₀ =>
    rw [hput] at h
    rw [← Except.ok.inj h, marked_box (by decide), marked_put (by decide), marked_putTransport hput]

theorem marked_sourceInquiryThin (h : contractReplanRequired s.inputPayload) :
    contractReplanRequired (sourceInquiryThin p s).inputPayload := by
  refine marked_finishThin h ?_
  rw [marked_pop (by decide), marked_put (by decide), marked_put (by decide), marked_box (by decide)]
  exact h

theorem marks_artifactEditThin (h : contractReplanRequired s.inputPayload) : Marks (artifactEditThin p s) := by
  refine marks_bind fun payload hput => marks_ok (marked_finishThin h ?_)
  rw [marked_box (by decide), marked_put (by decide), marked_putTransport hput]
  exact h

theorem marked_qaThin (h : contractReplanRequired s.inputPayload) :
    contractReplanRequired (qaThin p s).inputPayload := by
  refine marked_finishThin h ?_
  rw [marked_put (by decide), marked_box (by decide)]
  exact h

theorem marked_engineeringThin (h : contractReplanRequired s.inputPayload) :
    contractReplanRequired (engineeringThin p s).inputPayload :=
  marked_finishThin h ((marked_box (by decide)).trans h)

theorem marks_playbookThin {operator : Text} {found : Playbook} (h : contractReplanRequired s.inputPayload) :
    Marks (playbookThin p s operator found) := by
  refine marks_bind fun payload hpayload => marks_ok (marked_finishThin h ?_)
  rw [marked_put (by decide), marked_playbookPayload hpayload]
  exact h

theorem marked_draftPayload {d : Draft} {payload : Fields} (h : draftPayload p d s = .ok payload) :
    contractReplanRequired payload = contractReplanRequired s.inputPayload := by
  unfold draftPayload at h
  extract_lets given operated played profile written intended withParams staged dagged at h
  have hoperated : contractReplanRequired operated = contractReplanRequired s.inputPayload :=
    marked_ite rfl (marked_put (by decide) _)
  have hplayed : contractReplanRequired played = contractReplanRequired s.inputPayload :=
    marked_ite ((marked_box (by decide)).trans hoperated) hoperated
  have hwritten : contractReplanRequired written = contractReplanRequired s.inputPayload :=
    marked_ite (((marked_box (by decide)).trans (marked_put (by decide) _)).trans hplayed) hplayed
  have hparams : contractReplanRequired withParams = contractReplanRequired s.inputPayload :=
    ((marked_box (by decide)).trans (marked_box (by decide))).trans hwritten
  have hstaged : contractReplanRequired staged = contractReplanRequired s.inputPayload :=
    marked_ite ((marked_box (by decide)).trans hparams) hparams
  have hdagged : contractReplanRequired dagged = contractReplanRequired s.inputPayload :=
    marked_ite ((marked_box (by decide)).trans hstaged) hstaged
  rw [Run.bumpIntentRevision] at h
  cases hrev : intField p.reading.surroundings dagged "intent_revision" with
  | none => rw [hrev] at h; cases h
  | some n =>
    rw [hrev] at h
    rw [← Except.ok.inj h]
    exact (marked_put (by decide) _).trans hdagged

theorem marked_rejected (h : contractReplanRequired s.inputPayload) :
    contractReplanRequired (rejected p s).inputPayload := by
  refine marked_merge h ?_
  rw [marked_pop (by decide), marked_box (by decide)]
  exact h

theorem marked_degrade {out : PlanState} (h : contractReplanRequired s.inputPayload)
    (hout : degradeToWritingPlaybook p s = .ok (some out)) : contractReplanRequired out.inputPayload := by
  unfold degradeToWritingPlaybook at hout
  extract_lets operator found at hout
  split_ifs at hout
  · cases hout
  · cases hpayload : playbookPayload p s operator with
    | error e => rw [hpayload] at hout; cases hout
    | ok payload =>
      rw [hpayload] at hout
      rw [← Option.some.inj (Except.ok.inj hout)]
      refine marked_merge h ?_
      rw [marked_put (by decide), marked_playbookPayload hpayload]
      exact h

variable {again : PlanState → Except Failure PlanState}

theorem marks_llmPlan (hagain : ∀ t : PlanState, contractReplanRequired t.inputPayload → Marks (again t))
    (h : contractReplanRequired s.inputPayload) : Marks (llmPlan p again s) := by
  refine marks_bind fun d _ => marks_bind fun payload hpayload => ?_
  have hupdated : contractReplanRequired (withDraft d s payload).inputPayload :=
    marked_merge h ((marked_draftPayload hpayload).trans h)
  dsimp only
  split_ifs
  · exact hagain _ (marked_rejected hupdated)
  · refine marks_bind fun degraded hdegraded => marks_ok (marked_auditRoute ?_)
    cases degraded with
    | none => exact hupdated
    | some out => exact marked_degrade hupdated hdegraded
  · exact marks_ok (marked_auditRoute hupdated)

theorem marks_route (hagain : ∀ t : PlanState, contractReplanRequired t.inputPayload → Marks (again t))
    (h : contractReplanRequired s.inputPayload) : Marks (route p again s) := by
  rw [route]
  split
  · exact marks_error _
  · split_ifs
    · exact marks_ok (marked_sourceInquiryThin h)
    · exact marks_artifactEditThin h
    · exact marks_ok (marked_qaThin h)
    · exact marks_ok (marked_engineeringThin h)
    · split
      · exact marks_playbookThin h
      · exact marks_llmPlan hagain h

theorem marks_fallback (h : contractReplanRequired s.inputPayload) : Marks (fallback p s) := by
  rw [fallback]
  split
  · refine marks_bind fun payload hpayload => marks_ok (marked_finishThin h ?_)
    rw [marked_playbookPayload hpayload]
    exact h
  · refine marks_ok (marked_finishThin h ?_)
    exact marked_ite h ((marked_box (by decide)).trans h)

theorem marks_handle (h : contractReplanRequired s.inputPayload) (e : Failure) : Marks (handle p s e) := by
  cases e with
  | budget detail => exact marks_ok h
  | retryable detail =>
    rw [handle]
    split
    · exact marks_error _
    · exact marks_fallback h
  | other detail =>
    rw [handle]
    split
    · exact marks_error _
    · exact marks_ok h

theorem marks_guarded {stage : Stage} {next : Except Failure PlanState}
    (h : contractReplanRequired s.inputPayload) (hnext : Marks next) : Marks (guarded p stage s next) := by
  rw [guarded]
  split
  · exact marks_handle h _
  · exact hnext

theorem marks_finish (hagain : ∀ t : PlanState, contractReplanRequired t.inputPayload → Marks (again t))
    (h : contractReplanRequired s.inputPayload) : Marks (finish p again s) := by
  have hroute := marks_route (p := p) hagain h
  rw [finish]
  split
  · next out hout => exact marks_ok (hroute out hout)
  · exact marks_handle h _

theorem marked_revise (h : contractReplanRequired s.inputPayload) :
    contractReplanRequired (revise p s).inputPayload := by
  rw [revise]
  split_ifs
  · exact marked_merge h ((marked_box (by decide)).trans h)
  · exact h

theorem marked_enter (h : contractReplanRequired s.inputPayload) :
    contractReplanRequired (enter s).inputPayload := by
  have hrecorded : contractReplanRequired (recordModeEntry s).inputPayload := by
    rw [recordModeEntry]
    split_ifs
    · exact h
    · exact (marked_put (by decide) _).trans h
  exact marked_merge hrecorded ((marked_pop (by decide)).trans hrecorded)

/-- One pass of the node keeps the mark if its revisions do. -/
theorem marks_planOnce (hagain : ∀ t : PlanState, contractReplanRequired t.inputPayload → Marks (again t))
    (h : contractReplanRequired s.inputPayload) : Marks (planOnce p again s) := by
  have hrevised : contractReplanRequired (revise p s).inputPayload := marked_revise h
  have hentered := marked_enter hrevised
  rw [planOnce]
  split_ifs
  · exact marks_ok h
  · exact marks_guarded h (marks_guarded hrevised (marks_guarded hentered
      (marks_finish hagain (marked_prePlanning hentered))))

/-- No planning takes the mark away. -/
theorem marks_planningNode (p : Planner) {s : PlanState} (h : contractReplanRequired s.inputPayload) :
    Marks (planningNode p s) := by
  have hwithin : ∀ (n : ℕ) (t : PlanState), contractReplanRequired t.inputPayload →
      Marks (planWithin p n t) := by
    intro n
    induction n with
    | zero => exact fun t ht => marks_planOnce (fun _ _ => marks_error _) ht
    | succ n ih => exact fun t ht => marks_planOnce ih ht
  exact hwithin _ s h

end

/-! ### The gate -/

/-- The replan gate was applied to this state. -/
def Gated (s : AgentState) : Prop :=
  ∃ (now : Text) (before : AgentState), s = before.mergePayload (applyReplanGate now before.inputPayload)

theorem get?_mark_applyReplanGate (now : Text) (payload : Fields) :
    (applyReplanGate now payload).get? mark.toList = some (.bool true) := by
  rw [applyReplanGate, PyDict.get?_pop_ne _ (by decide), PyDict.get?_put_ne _ (by decide),
    PyDict.get?_put_ne _ (by decide), PyDict.get?_put_ne _ (by decide), PyDict.put, PyDict.get?_set_self]

theorem marked_of_gated {s : AgentState} (h : Gated s) : contractReplanRequired s.inputPayload := by
  obtain ⟨now, before, rfl⟩ := h
  rw [contractReplanRequired, mergePayload_inputPayload, PyDict.field_update,
    get?_mark_applyReplanGate, if_pos (Option.isSome_some), PyDict.field, PyDict.getD,
    get?_mark_applyReplanGate]
  rfl

/-- A cancel applies the gate, unless a steer has set its flag before, and leaves the session REPLANNING. -/
theorem gated_of_cancelled {w : Surroundings} {s out : AgentState} {bump : Bool}
    (hsteer : (s.inputPayload.field "require_planning_after_steer").truthy = false)
    (h : Run.cancelledState w s bump = some out) : Gated out ∧ getFsmState w out = .replanning := by
  rw [Run.cancelledState, Option.map_eq_some_iff] at h
  obtain ⟨payload, hpayload, rfl⟩ := h
  have hkept : payload.field "require_planning_after_steer" =
      s.inputPayload.field "require_planning_after_steer" := by
    cases bump with
    | false => rw [Option.some.inj hpayload]
    | true =>
      obtain ⟨n, -, rfl⟩ := Option.map_eq_some_iff.1 hpayload
      exact PyDict.field_put_ne _ (by decide) _
  set cancelled : AgentState := { s.mergePayload payload with
    executionRun := some (if Run.runIdOf s = [] then (recordOr s.executionRun).put "cancelled" (.bool true)
      else ((recordOr s.executionRun).put "cancelled" (.bool true)).put "run_id" (.str (Run.runIdOf s))) }
    with hcancelled
  have hsteer' : ((setFsmState cancelled .replanning).inputPayload.field
      "require_planning_after_steer").truthy = false := by
    rw [← hsteer, ← PyDict.field_update_of_eq hkept]
    exact congrArg PyVal.truthy (PyDict.field_update_of_eq (PyDict.field_put_ne _ (by decide) _))
  have hgate : transitionFsm w cancelled .replanning = (setFsmState cancelled .replanning).mergePayload
      (applyReplanGate w.now (setFsmState cancelled .replanning).inputPayload) := by
    simp only [transitionFsm, hsteer']
    rfl
  refine ⟨⟨w.now, setFsmState cancelled .replanning, hgate⟩, ?_⟩
  change getFsmState w (transitionFsm w cancelled .replanning) = .replanning
  rw [hgate]
  refine getFsmState_of_field ?_
  rw [mergePayload_inputPayload, PyDict.field_update_of_eq (field_applyReplanGate _ _ (by decide))]
  exact PyDict.field_update_put_self _ _ _

/-- The save behind a transition to RUNNING turns the session back to REPLANNING. -/
def TurnedBack (w : Surroundings) (s : AgentState) : Prop :=
  ∃ saved, validate w (transitionFsm w s .running) = .ok saved ∧ getFsmState w saved = .replanning

theorem turnedBack_of_marked {w : Surroundings} {s : AgentState} (hstatus : s.status ≠ .running)
    (hreview : s.reviewRequired = false) (h : contractReplanRequired s.inputPayload) : TurnedBack w s := by
  have hfield : (transitionFsm w s .running).inputPayload.field mark = s.inputPayload.field mark :=
    (PyDict.field_congr ((PyDict.pop_sub _ _).get?_update _)).trans
      (PyDict.field_update_of_eq (PyDict.field_put_ne _ (by decide) _))
  have hmoved : contractReplanRequired (transitionFsm w s .running).inputPayload :=
    (congrArg PyVal.truthy hfield).trans h
  have hderived : deriveFsmFromLegacy w (transitionFsm w s .running) = .replanning := by
    have hno : ¬ (transitionFsm w s .running).reviewRequired := by
      change ¬ s.reviewRequired
      rw [hreview]
      exact Bool.false_ne_true
    rw [deriveFsmFromLegacy, if_neg hno, legacyReplanPending, hmoved]
    rfl
  refine ⟨_, validate_of_ne_running ?_, ?_⟩
  · rwa [(untouched_transitionFsm w s .running).status]
  · rw [getFsmState_syncFsmState, syncedFsmState_of_derived (.inl hderived), hderived]

/-! ### No plan discharges it -/

/-- The state that planning is entered with, under the status and the node that the caller sets. -/
def prepared (p : Planner) (s : PlanState) (status : TaskStatus) (node : Text) : PlanState :=
  { prepareIncrementalPlanningState p.reading s with status := status, currentNode := node }

/-- Once planning has come to a plan that needs no review, no replan is pending and RUNNING stays. -/
def DischargedByReplanning (w : Surroundings) (p : Planner) (s : PlanState) (status : TaskStatus)
    (node : Text) : Prop :=
  ∀ out, planningNode p (prepared p s status node) = .ok out → out.status = .planned →
    out.reviewRequired = false →
    legacyReplanPending out.toAgentState = false ∧ ¬ TurnedBack w out.toAgentState

theorem marked_prepared {p : Planner} {s : PlanState} {status : TaskStatus} {node : Text}
    (h : contractReplanRequired s.inputPayload) : contractReplanRequired (prepared p s status node).inputPayload := by
  refine marked_merge h (marked_ite ?_ h)
  rw [marked_put (by decide), marked_pop (by decide)]
  exact h

/-- Behind every plan that follows a replan gate the replan is still pending, and the save of a running
    session turns it back. -/
theorem replan_still_pending (w : Surroundings) (p : Planner) {s : PlanState} (status : TaskStatus)
    (node : Text) (hgated : Gated s.toAgentState) {out : PlanState}
    (hout : planningNode p (prepared p s status node) = .ok out) (hplanned : out.status = .planned)
    (hreview : out.reviewRequired = false) :
    legacyReplanPending out.toAgentState = true ∧ TurnedBack w out.toAgentState := by
  have hmarked : contractReplanRequired out.inputPayload :=
    marks_planningNode p (marked_prepared (marked_of_gated hgated)) out hout
  refine ⟨?_, turnedBack_of_marked ?_ hreview hmarked⟩
  · rw [legacyReplanPending, hmarked]
    rfl
  · rw [hplanned]
    decide

/-- Planning by a model that answers with one step. -/
def onePlanner : Planner where
  config := { keepsName := fun _ => true, codeName := fun _ => [] }
  container := fun _ _ _ => .other "\x7b\x7d".toList false
  isDict := fun _ => true
  observe := fun _ => {}
  resolve := fun _ => { intentKind := "qa".toList, targetMode := "qa_mode".toList }
  resolveBehind := fun _ => { intentKind := "qa".toList, targetMode := "qa_mode".toList }
  judge := fun _ => { kind := "qa".toList, plannedRoute := "reasoning".toList }
  reading := { surroundings := idleProcess, letters := Tool.asciiLetters, items := fun _ => none }
  draft := fun _ => .ok { actions := [answerAction], plan := ["answer the question".toList] }

/-- A session whose run was cancelled for a steer. -/
def steeredSession : PlanState :=
  { taskId := "s1".toList, sessionId := "s1".toList
    inputPayload := PyDict.empty.update (applyReplanGate [] PyDict.empty) }

theorem gated_steeredSession : Gated steeredSession.toAgentState :=
  ⟨[], { taskId := "s1".toList, sessionId := "s1".toList }, rfl⟩

/-- The session is planned again, without a review. -/
theorem steeredSession_planned :
    ∃ out, planningNode onePlanner (prepared onePlanner steeredSession .running "incremental_planning".toList) =
      .ok out ∧ out.status = .planned ∧ out.reviewRequired = false := by
  have hplanned : (planningNode onePlanner (prepared onePlanner steeredSession .running
      "incremental_planning".toList)).toOption.any (fun out => out.status = .planned && !out.reviewRequired) =
        true := by decide +kernel
  cases hout : planningNode onePlanner (prepared onePlanner steeredSession .running
      "incremental_planning".toList) with
  | ok out =>
    rw [hout] at hplanned
    exact ⟨out, rfl, by simpa [Except.toOption] using hplanned⟩
  | error e =>
    rw [hout] at hplanned
    cases hplanned

theorem steeredSession_still_pending :
    ∃ out, planningNode onePlanner (prepared onePlanner steeredSession .running "incremental_planning".toList) =
      .ok out ∧ legacyReplanPending out.toAgentState = true ∧ TurnedBack idleProcess out.toAgentState := by
  obtain ⟨out, hout, hplanned, hreview⟩ := steeredSession_planned
  exact ⟨out, hout, replan_still_pending idleProcess onePlanner .running _ gated_steeredSession hout hplanned
    hreview⟩

theorem steeredSession_not_discharged :
    ¬ DischargedByReplanning idleProcess onePlanner steeredSession .running "incremental_planning".toList := by
  intro h
  obtain ⟨out, hout, hplanned, hreview⟩ := steeredSession_planned
  have hpending : legacyReplanPending out.toAgentState = true := by
    rw [legacyReplanPending, marks_planningNode onePlanner (marked_prepared (marked_of_gated
      gated_steeredSession)) out hout]
    rfl
  rw [(h out hout hplanned hreview).1] at hpending
  cases hpending

end AgentLangraph.Replan
