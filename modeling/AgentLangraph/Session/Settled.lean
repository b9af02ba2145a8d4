import AgentLangraph.Session.Fsm

/-! Synchronising a state once settles it (`sync_fsm_state`). The derived phase wins over the stored one
    where somebody waits or the plan is stale; the flags are then brought in line with the phase. Keys
    that are only popped come back when the payload is merged, so beside the replan gate the flags stay
    as they were, and what a second synchronisation derives from them is what the first one did. -/

namespace AgentLangraph.Session
open PyText

/-- What synchronising promises, whatever the state was. -/
structure Settles (w : Surroundings) (s : AgentState) : Prop where
  /-- Done again, at any later time, it changes nothing. -/
  stable : ∀ later, syncFsmState { w with now := later } (syncFsmState w s) = syncFsmState w s
  waiting : (syncFsmState w s).reviewRequired →
    getFsmState w (syncFsmState w s) = .waitingUser
  pending : legacyReplanPending (syncFsmState w s) →
    getFsmState w (syncFsmState w s) = .replanning ∨ getFsmState w (syncFsmState w s) = .waitingUser
  no_issue : ∀ message, ("I1".toList, message) ∉ issues w (syncFsmState w s)
  no_violation : ∀ message, validate w s ≠ .error (.invariantViolation "I1".toList message)

/-! ### Merging back -/

/-- A copy from which keys were popped changes nothing, the flags of a phase that is not REPLANNING. -/
theorem legacyFlagsOf_sub (now : Text) (payload : Fields) {f : FsmState}
    (h : f = .replanning → (payload.field "require_planning_after_steer").truthy) :
    (legacyFlagsOf now payload f).Sub payload := by
  cases f with
  | replanning =>
    rw [legacyFlagsOf, if_pos (h rfl)]
    exact .refl _
  | running => exact PyDict.pop_sub _ _
  | idle =>
    rw [legacyFlagsOf]
    split_ifs
    · exact ((PyDict.pop_sub _ _).trans (PyDict.pop_sub _ _)).trans (PyDict.pop_sub _ _)
    · exact .refl _
  | waitingUser => exact .refl _

/-- Outside the replan gate the flags of a phase come back unchanged. -/
theorem syncLegacyFlagsFromFsm_of_settled {w : Surroundings} {s : AgentState}
    (h : getFsmState w s = .replanning →
      (s.inputPayload.field "require_planning_after_steer").truthy) :
    syncLegacyFlagsFromFsm w s = s := by
  rw [syncLegacyFlagsFromFsm]
  split_ifs
  · have hsame : s.inputPayload.update (legacyFlagsOf w.now s.inputPayload (getFsmState w s)) =
        s.inputPayload := (legacyFlagsOf_sub w.now s.inputPayload h).update_eq_self
    rw [AgentState.mergePayload, hsame]
  · rfl

/-- A phase that is already stored is stamped again for nothing. -/
theorem stampFsmState_of_stored {s : AgentState} {f : FsmState}
    (hpayload : s.inputPayload.field "fsm_state" = .str f.name)
    (hextras : s.extras.get? "fsm_state".toList = some (.str f.name)) : stampFsmState s f = s := by
  rw [stampFsmState, if_neg (not_not.2 hpayload), AgentState.mergeExtra, PyDict.put,
    PyDict.set_eq_self hextras]

/-! ### The phase of a synchronised state -/

theorem reviewRequired_syncFsmState (w : Surroundings) (s : AgentState) :
    (syncFsmState w s).reviewRequired = s.reviewRequired := by
  rw [syncFsmState, syncLegacyFlagsFromFsm, stampFsmState]
  split_ifs <;> rfl

theorem taskId_syncFsmState (w : Surroundings) (s : AgentState) :
    (syncFsmState w s).taskId = s.taskId := by
  rw [syncFsmState, syncLegacyFlagsFromFsm, stampFsmState]
  split_ifs <;> rfl

/-- The run of the task is asked for the same way before and after. -/
theorem activeGraphRun_syncFsmState (w : Surroundings) (later : Text) (s : AgentState) :
    activeGraphRun { w with now := later } (syncFsmState w s) = activeGraphRun w s := by
  rw [activeGraphRun, activeGraphRun, (untouched_syncFsmState w s).executionRun,
    taskId_syncFsmState]
  rfl

theorem field_fsmState_syncFsmState (w : Surroundings) (s : AgentState) :
    (syncFsmState w s).inputPayload.field "fsm_state" = .str (syncedFsmState w s).name := by
  rw [syncFsmState, field_syncLegacyFlagsFromFsm w _ fun _ => by decide]
  exact field_stampFsmState _ _

/-- The gate of a state that was synchronised to REPLANNING is set. -/
theorem steer_syncFsmState {w : Surroundings} {s : AgentState}
    (h : syncedFsmState w s = .replanning) :
    ((syncFsmState w s).inputPayload.field "require_planning_after_steer").truthy := by
  have hget : getFsmState w (stampFsmState s (syncedFsmState w s)) = .replanning :=
    (getFsmState_of_field (field_stampFsmState s _)).trans h
  rw [syncFsmState]
  by_cases hsteer : ((stampFsmState s (syncedFsmState w s)).inputPayload.field
      "require_planning_after_steer").truthy
  · rwa [syncLegacyFlagsFromFsm_of_settled fun _ => hsteer]
  · have hgate : (applyReplanGate w.now
        (stampFsmState s (syncedFsmState w s)).inputPayload).get?
          "require_planning_after_steer".toList = some (.bool true) := by
      rw [applyReplanGate, PyDict.get?_pop_ne _ (by decide), PyDict.get?_put_ne _ (by decide),
        PyDict.put, PyDict.get?_set_self]
    have hne : applyReplanGate w.now (stampFsmState s (syncedFsmState w s)).inputPayload ≠
        (stampFsmState s (syncedFsmState w s)).inputPayload := by
      intro heq
      rw [heq] at hgate
      rw [PyDict.field, PyDict.getD, hgate] at hsteer
      exact hsteer rfl
    rw [syncLegacyFlagsFromFsm, hget, legacyFlagsOf, if_neg hsteer, if_pos hne, mergePayload_inputPayload,
      PyDict.field_update, hgate]
    rw [PyDict.field, PyDict.getD, hgate]
    rfl

/-- Where the phase is not REPLANNING, the flags say after it what they said before. -/
theorem legacyReplanPending_of_ne_replanning {w : Surroundings} {s : AgentState}
    (h : syncedFsmState w s ≠ .replanning) :
    legacyReplanPending (syncFsmState w s) = legacyReplanPending s := by
  have hget : getFsmState w (stampFsmState s (syncedFsmState w s)) ≠ .replanning := by
    rwa [getFsmState_of_field (field_stampFsmState s _)]
  refine legacyReplanPending_congr fun key hkey => ?_
  have hne : "fsm_state" ≠ key := by
    rintro rfl
    simp at hkey
  rw [syncFsmState, field_syncLegacyFlagsFromFsm w _ fun hr => absurd hr hget,
    field_stampFsmState_ne s _ hne]

theorem syncedFsmState_of_derived {w : Surroundings} {s : AgentState}
    (h : deriveFsmFromLegacy w s = .replanning ∨ deriveFsmFromLegacy w s = .waitingUser) :
    syncedFsmState w s = deriveFsmFromLegacy w s := by
  rw [syncedFsmState]
  exact if_pos h

/-- Who waits for a review is synchronised to waiting. -/
theorem syncedFsmState_of_review {w : Surroundings} {s : AgentState} (h : s.reviewRequired) :
    syncedFsmState w s = .waitingUser := by
  have hderived : deriveFsmFromLegacy w s = .waitingUser := by
    rw [deriveFsmFromLegacy, if_pos h]
  rw [syncedFsmState_of_derived (Or.inr hderived), hderived]

/-- What is derived from a synchronised state: the same again, or the phase REPLANNING that it is in. -/
theorem deriveFsmFromLegacy_syncFsmState (w : Surroundings) (later : Text) (s : AgentState) :
    deriveFsmFromLegacy { w with now := later } (syncFsmState w s) = deriveFsmFromLegacy w s ∨
      syncedFsmState w s = .replanning ∧
        deriveFsmFromLegacy { w with now := later } (syncFsmState w s) ≠ .waitingUser := by
  rw [deriveFsmFromLegacy, deriveFsmFromLegacy, reviewRequired_syncFsmState,
    activeGraphRun_syncFsmState]
  by_cases hphase : syncedFsmState w s = .replanning
  · refine Or.inr ⟨hphase, ?_⟩
    have hreview : ¬ s.reviewRequired := by
      intro hr
      rw [syncedFsmState_of_review hr] at hphase
      cases hphase
    rw [if_neg hreview]
    split_ifs <;> decide
  · left
    rw [legacyReplanPending_of_ne_replanning hphase]

/-- Running is kept only while it was not downgraded. -/
theorem not_downgraded {w : Surroundings} {s : AgentState} (h : syncedFsmState w s = .running)
    (hderived : deriveFsmFromLegacy w s = .idle) : ¬ (s.status.endsFailed ∨ s.status = .cancelled) := by
  intro hstatus
  have hnot : ¬ (deriveFsmFromLegacy w s = .replanning ∨ deriveFsmFromLegacy w s = .waitingUser) := by
    rw [hderived]
    rintro (h | h) <;> cases h
  rw [syncedFsmState] at h
  simp only [if_neg hnot] at h
  split at h
  · split_ifs at h with hdown
    exact hdown ⟨h, hderived, hstatus⟩
  · rw [hderived] at h
    cases h

theorem syncedFsmState_syncFsmState (w : Surroundings) (later : Text) (s : AgentState) :
    syncedFsmState { w with now := later } (syncFsmState w s) = syncedFsmState w s := by
  have hstored : fsmStateOf ((syncFsmState w s).inputPayload.field "fsm_state") =
      some (syncedFsmState w s) := by
    rw [field_fsmState_syncFsmState, fsmStateOf_name]
  have hagain := deriveFsmFromLegacy_syncFsmState w later s
  by_cases hgate : deriveFsmFromLegacy { w with now := later } (syncFsmState w s) = .replanning ∨
      deriveFsmFromLegacy { w with now := later } (syncFsmState w s) = .waitingUser
  · rw [syncedFsmState_of_derived hgate]
    rcases hagain with hsame | ⟨hphase, hne⟩
    · rw [hsame] at hgate ⊢
      exact (syncedFsmState_of_derived hgate).symm
    · rw [hphase]
      exact hgate.resolve_right hne
  · rw [syncedFsmState]
    simp only [if_neg hgate, hstored]
    refine if_neg ?_
    rintro ⟨hrunning, hidle, hstatus⟩
    rcases hagain with hsame | ⟨hphase, -⟩
    · rw [(untouched_syncFsmState w s).status] at hstatus
      exact not_downgraded hrunning (hsame ▸ hidle) hstatus
    · rw [hphase] at hrunning
      cases hrunning

/-! ### The settled state -/

theorem syncFsmState_syncFsmState (w : Surroundings) (later : Text) (s : AgentState) :
    syncFsmState { w with now := later } (syncFsmState w s) = syncFsmState w s := by
  have hget : getFsmState { w with now := later } (syncFsmState w s) = syncedFsmState w s :=
    getFsmState_of_field (field_fsmState_syncFsmState w s)
  rw [syncFsmState, syncedFsmState_syncFsmState,
    stampFsmState_of_stored (field_fsmState_syncFsmState w s) (extras_fsm_syncFsmState w s)]
  exact syncLegacyFlagsFromFsm_of_settled fun hr => steer_syncFsmState (hget ▸ hr)

/-- A plan that is still to be replaced is waited for. -/
theorem phase_of_pending {w : Surroundings} {s : AgentState}
    (h : legacyReplanPending (syncFsmState w s)) :
    syncedFsmState w s = .replanning ∨ syncedFsmState w s = .waitingUser := by
  by_contra hnot
  rw [not_or] at hnot
  rw [legacyReplanPending_syncFsmState hnot.1 hnot.2] at h
  exact absurd h Bool.false_ne_true

theorem not_mem_issues (w : Surroundings) (s : AgentState) (message : Text) :
    ("I1".toList, message) ∉ issues w (syncFsmState w s) := by
  rw [issues, List.mem_append, not_or]
  constructor
  · split_ifs with hi
    · rw [getFsmState_syncFsmState] at hi
      exact absurd (phase_of_pending hi.1) (not_or.2 hi.2)
    · exact List.not_mem_nil
  · split_ifs
    · simp
    · exact List.not_mem_nil

/-- CORRECT: synchronising settles a state. Done again, at any time, it changes nothing more; a review
    that is required makes it wait for the user, a pending plan puts it in REPLANNING or leaves it
    waiting, and the guard never reports that the flags and the phase disagree. -/
theorem syncFsmState_settles (w : Surroundings) (s : AgentState) : Settles w s where
  stable later := syncFsmState_syncFsmState w later s
  waiting hreview := by
    rw [reviewRequired_syncFsmState] at hreview
    rw [getFsmState_syncFsmState, syncedFsmState_of_review hreview]
  pending hpending := by
    rw [getFsmState_syncFsmState]
    exact phase_of_pending hpending
  no_issue := not_mem_issues w s
  no_violation message h := by
    rw [validate, guardIssues] at h
    split at h
    · cases h
    · rename_i id text rest hissues
      split_ifs at h
      have hmem : (id, text) ∈ issues w (syncFsmState w s) := by
        rw [hissues]
        exact List.mem_cons_self
      have heq := SaveError.invariantViolation.inj (Except.error.inj h)
      rw [heq.1] at hmem
      exact not_mem_issues w s text hmem

end AgentLangraph.Session
