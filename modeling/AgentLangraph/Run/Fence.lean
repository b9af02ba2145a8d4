import AgentLangraph.Run.Controller

/-! The fence between an older run and what comes after it. A newer begin, and a cancel of a state
    that names the older run, take it out of the registry for good; a write of the older run is then
    refused when the store says stop, when the run's own state is marked cancelled, or when the
    revision the state carries has grown since the run started. The last comparison never looks at
    the newer run: it is about two numbers of the same state.

        begin r₁ ── newer begin | cancel ──▶ r₁ out of the registry ──▶ revision > start ? -/

namespace AgentLangraph.Run
open PyText Session

/-- The operations that take a run out of the registry. -/
def Op.Removes (runId : Text) : Op → Prop
  | .beginGraphRun r => r ≠ runId
  | .endGraphRun r => r = runId
  | _ => False

variable {cfg : Surroundings}

/-! ### The registry along a run -/

/-- Out of the registry, a run does not come back. -/
theorem step_inactive {runId : Text} (w : World) (op : Op) (h : ¬ w.isActive runId)
    (hop : op ≠ .beginGraphRun runId) : ¬ (w.step cfg op).isActive runId := by
  rw [World.isActive] at h ⊢
  rw [step_active]
  cases op with
  | beginGraphRun r =>
    intro heq
    rw [Option.some.inj heq] at hop
    exact hop rfl
  | endGraphRun r =>
    dsimp only
    split_ifs
    · simp
    · exact h
  | _ => exact h

theorem step_active_of_not_removes {runId : Text} (w : World) (op : Op) (h : w.isActive runId)
    (hop : ¬ op.Removes runId) : (w.step cfg op).isActive runId := by
  rw [World.isActive] at h ⊢
  rw [step_active]
  cases op with
  | beginGraphRun r =>
    rw [Op.Removes, not_not] at hop
    rw [hop]
  | endGraphRun r =>
    have hne : ¬ w.active = some r := by
      rw [h, Option.some.injEq]
      exact fun heq => hop heq.symm
    dsimp only
    rw [if_neg hne, h]
  | _ => exact h

theorem step_removes {runId : Text} (w : World) (op : Op) (hop : op.Removes runId) :
    ¬ (w.step cfg op).isActive runId := by
  rw [World.isActive, step_active]
  cases op with
  | beginGraphRun r =>
    rw [Option.some.injEq]
    exact hop
  | endGraphRun r =>
    rw [Op.Removes] at hop
    subst hop
    dsimp only
    split_ifs with h
    · simp
    · exact h
  | _ => exact absurd hop (by simp [Op.Removes])

/-- An active run whose id is never drawn again is active until an operation removes it. -/
theorem run_isActive_iff {runId : Text} (trace : List Op) : ∀ w : World, w.isActive runId →
    .beginGraphRun runId ∉ trace →
      ((w.run cfg trace).isActive runId ↔ ¬ ∃ op ∈ trace, op.Removes runId) := by
  induction trace with
  | nil => intro w h _; exact iff_of_true h (by simp)
  | cons op trace ih =>
    intro w h hfresh
    rw [List.mem_cons, not_or] at hfresh
    by_cases hop : op.Removes runId
    · refine iff_of_false ?_ fun hno => hno ⟨op, List.mem_cons_self, hop⟩
      have hstep : ∀ (v : World) (a : Op), ¬ v.isActive runId → a ≠ .beginGraphRun runId →
          ¬ (v.step cfg a).isActive runId := fun v a => step_inactive v a
      exact Trace.run_inv hstep trace _ (step_removes w op hop) fun a ha heq => hfresh.2 (heq ▸ ha)
    · have hrest := ih (w.step cfg op) (step_active_of_not_removes w op h hop) hfresh.2
      rw [World.run, Trace.run_cons, ← World.run, hrest]
      simp [hop]

/-! ### What fences a run off -/

/-- A newer run began, or a cancel of a state that names the run went through. -/
inductive Fenced (cfg : Surroundings) (runId : Text) (trace : List Op) : Prop
  | newerBegin (newer : Text) (hne : newer ≠ runId) (hmem : .beginGraphRun newer ∈ trace)
  | cancelled (s : AgentState) (reason : Text) (bumpRevision : Bool) (hrun : runIdOf s = runId)
      (hsub : (cancelProgram cfg s reason bumpRevision).Sublist trace)

theorem Fenced.removes {runId : Text} (hid : runId ≠ []) {trace : List Op}
    (h : Fenced cfg runId trace) : ∃ op ∈ trace, op.Removes runId := by
  cases h with
  | newerBegin newer hne hmem => exact ⟨_, hmem, hne⟩
  | cancelled s reason bumpRevision hrun hsub =>
    refine ⟨.endGraphRun runId, hsub.subset ?_, rfl⟩
    rw [cancelProgram, hrun, if_neg hid]
    exact List.mem_append_left _ List.mem_cons_self

/-- A run starts from the revision it is stamped with. -/
theorem not_superseded_of_begin {s s' : AgentState} {runId : Text}
    (h : beginTaskGraphRun cfg s runId = some s') : ¬ Superseded cfg s' := by
  rw [beginTaskGraphRun, Option.bind_eq_some_iff] at h
  obtain ⟨s₁, -, h₁⟩ := h
  rw [beginRun, Option.map_eq_some_iff] at h₁
  obtain ⟨revision, hrev, rfl⟩ := h₁
  set updated : AgentState := { s₁ with
    executionRun := some (PyDict.ofList
      [("run_id".toList, .str runId), ("revision_at_start".toList, .int revision),
        ("cancelled".toList, .bool false)]) } with hupdated
  have hsame : ∀ t : AgentState, Untouched updated t → ¬ Superseded cfg t := by
    rintro t ht ⟨start, current, hstart, hcurrent, hlt⟩
    have hrevision : intField cfg (recordOr updated.executionRun) "revision_at_start" =
        some revision := by
      have hfield : (recordOr updated.executionRun).field "revision_at_start" = .int revision := rfl
      rw [intField, hfield, PyVal.toInt?_orElse_int]
    rw [ht.executionRun, hrevision] at hstart
    rw [intField, ht.revision, ← intField] at hcurrent
    rw [hupdated] at hcurrent
    dsimp only at hcurrent
    rw [hrev] at hcurrent
    rw [← Option.some.inj hstart, ← Option.some.inj hcurrent] at hlt
    exact Int.lt_irrefl _ hlt
  dsimp only
  split_ifs
  · exact hsame updated (.refl updated)
  · exact hsame _ (untouched_transitionFsm _ updated .running)

/-! ### The fence of an older run -/

/-- CORRECT when it can be: along every interleaving, a write of an older run is refused exactly when
    the store says stop, when the carried state is marked cancelled, or when the run is out of the
    registry and the carried revision has grown since it started. A fence does take the run out of
    the registry, but it does not make the carried revision grow. -/
theorem older_run_refused_iff (cfg : Surroundings) (w₀ : World) (older : Text) (trace : List Op)
    (s : AgentState) (hactive : w₀.isActive older) (hfresh : .beginGraphRun older ∉ trace)
    (hid : older ≠ []) (hcarried : runIdOf s = older) (htask : s.taskId ≠ []) :
    (Fenced cfg older trace → ∃ op ∈ trace, op.Removes older) ∧
      (shouldAcceptWrite cfg (w₀.run cfg trace) s = .ok false ↔
        StoppedInStore (w₀.run cfg trace) s ∨
          ((recordOr s.executionRun).field "cancelled").truthy = true ∨
            (∃ op ∈ trace, op.Removes older) ∧ Superseded cfg s) := by
  refine ⟨Fenced.removes hid, ?_⟩
  rw [shouldAcceptWrite_false_iff, assertRunActive_cancelled_iff, hcarried,
    run_isActive_iff trace w₀ hactive hfresh, not_not]
  simp [hid, htask]

/-- The ids of two runs of the task. -/
def olderRun : Text := "a1f0".toList

def newerRun : Text := "b2e1".toList

/-- The process in which the older run has just begun. -/
def olderBegun : World :=
  ({} : World).run idleProcess (startProgram idleProcess (secondTurn .new) olderRun true)

/-- The turn after it. -/
def thirdTurn : AgentState := { secondTurn .new with sessionTurn := some 3 }

/-- Cancelled through a state that names it, a run that has planned again is fenced off. -/
theorem older_run_refused_after_planning : ∃ s,
    (beginTaskGraphRun idleProcess (secondTurn .new) olderRun).map (fun s =>
      s.mergePayload (s.inputPayload.put "intent_revision" (.int 1))) = some s ∧
        shouldAcceptWrite idleProcess
          (olderBegun.run idleProcess (startProgram idleProcess thirdTurn newerRun true)) s =
            .ok false := by
  have hbegun : ((beginTaskGraphRun idleProcess (secondTurn .new) olderRun).map fun s =>
      s.mergePayload (s.inputPayload.put "intent_revision" (.int 1))).map (fun s =>
        decide (runIdOf s = olderRun ∧ s.taskId ≠ [] ∧
          intField idleProcess (recordOr s.executionRun) "revision_at_start" = some 0 ∧
            intField idleProcess s.inputPayload "intent_revision" = some 1)) = some true := by
    decide +kernel
  obtain ⟨s, hs, hgood⟩ := Option.map_eq_some_iff.1 hbegun
  obtain ⟨hrun, htask, hstart, hcurrent⟩ := of_decide_eq_true hgood
  refine ⟨s, hs, (older_run_refused_iff idleProcess olderBegun olderRun _ s (by decide +kernel)
    (by decide +kernel) (by decide) hrun htask).2.2 (Or.inr (Or.inr ⟨?_, ?_⟩))⟩
  · exact ⟨.beginGraphRun newerRun, by decide +kernel, by rw [Op.Removes]; decide⟩
  · exact ⟨0, 1, hstart, hcurrent, by decide⟩

/-- Fenced off by a newer begin, the older run still writes. -/
theorem older_run_accepted : ∃ s,
    beginTaskGraphRun idleProcess (secondTurn .new) olderRun = some s ∧
      Fenced idleProcess olderRun (startProgram idleProcess thirdTurn newerRun true) ∧
        shouldAcceptWrite idleProcess
          (olderBegun.run idleProcess (startProgram idleProcess thirdTurn newerRun true)) s =
            .ok true := by
  have haccept : (beginTaskGraphRun idleProcess (secondTurn .new) olderRun).map (fun s =>
      decide (shouldAcceptWrite idleProcess (olderBegun.run idleProcess
        (startProgram idleProcess thirdTurn newerRun true)) s = .ok true)) = some true := by
    decide +kernel
  obtain ⟨s, hs, hgood⟩ := Option.map_eq_some_iff.1 haccept
  exact ⟨s, hs, .newerBegin newerRun (by decide) (by decide +kernel), of_decide_eq_true hgood⟩

end AgentLangraph.Run
