import AgentLangraph.Run.Threads

/-! Foreground preemption (`foreground_execution.py`, `_preempt_inflight_execution`). A preempt bumps
    the stored epoch with a load, a change and a store, and raises the pause flag of the control
    handle; the run notices it at its next control check, if the flag is still there. Neither half
    holds for every interleaving: a copy that was loaded before the bump stores the old epoch again,
    and a flag is lost with the handle that a new registration replaces.

        preempt:  load ─ bump ─ sync ─ pause ─ interrupt ─ store
        run:      … ─ check ─ … ─ commit -/

namespace AgentLangraph.Run
open PyText Session Trace

variable {cfg : Surroundings}

/-! ### The programs -/

/-- `trigger_foreground_preempt` on a fresh copy, as `_preempt_inflight_execution` calls it. -/
def preemptProgram (t : Thread) (epoch : ℤ) (reason : Text) : List (Event cfg) :=
  [.load t, .bump t, .registry ⟨.syncTaskControlEpoch epoch, by simp⟩, .preemptPause reason,
    .registry ⟨.request .interruptStream "web".toList reason, by simp⟩, .store t none]

/-- A context with the epoch entry of another one has its epoch. -/
theorem epoch_of_get? {s s' : AgentState} {ctx : Fields} (hctx : s'.interruptContext = some ctx)
    (h : ctx.get? "foreground_epoch".toList =
      (ensureInterruptContext s).get? "foreground_epoch".toList) :
    getForegroundEpoch cfg s' = getForegroundEpoch cfg s := by
  have hsome : (ctx.get? "foreground_epoch".toList).isSome = true := by
    rw [h]
    exact isSome_foreground_epoch s
  have hfield : ctx.field "foreground_epoch" =
      (ensureInterruptContext s).field "foreground_epoch" := by
    rw [PyDict.field, PyDict.getD, h]
    rfl
  rw [getForegroundEpoch, getForegroundEpoch, intField, intField,
    field_ensureInterruptContext hctx hsome, hfield]

theorem get?_freshInterruptContextForTurn (s : AgentState) :
    (freshInterruptContextForTurn s).get? "foreground_epoch".toList =
      (ensureInterruptContext s).get? "foreground_epoch".toList := by
  rw [freshInterruptContextForTurn]
  simp only [PyDict.put, PyDict.pop]
  rw [PyDict.get?_set_ne _ (by decide), PyDict.get?_set_ne _ (by decide),
    PyDict.get?_set_ne _ (by decide), PyDict.get?_erase_ne _ (by decide),
    PyDict.get?_set_ne _ (by decide), PyDict.get?_set_ne _ (by decide)]

/-- Preparing the next turn keeps the epoch. -/
def turnWork (cfg : Surroundings) (payload : Fields) : Work cfg where
  change s := syncFsmState cfg (resetExecutionFields s payload)
  epoch s := epoch_of_get? (untouched_syncFsmState cfg _).interruptContext
    (get?_freshInterruptContextForTurn s)

theorem beginRun_interruptContext {s s' : AgentState} {runId : Text}
    (h : beginRun cfg s runId = some s') : s'.interruptContext = s.interruptContext := by
  rw [beginRun, Option.map_eq_some_iff] at h
  obtain ⟨revision, -, rfl⟩ := h
  dsimp only
  split_ifs
  · rfl
  · exact (untouched_transitionFsm _ _ _).interruptContext

/-- So does the begin of a run. -/
theorem epoch_beginTaskGraphRun {s s' : AgentState} {runId : Text}
    (h : beginTaskGraphRun cfg s runId = some s') :
    getForegroundEpoch cfg s' = getForegroundEpoch cfg s := by
  rw [beginTaskGraphRun, Option.bind_eq_some_iff] at h
  obtain ⟨s₁, hinit, hbegin⟩ := h
  rw [initForegroundEpochOnRun, Option.map_eq_some_iff] at hinit
  obtain ⟨epoch, -, rfl⟩ := hinit
  exact epoch_of_get? (beginRun_interruptContext hbegin) rfl

def beginWork (cfg : Surroundings) (runId : Text) : Work cfg where
  change s := (beginTaskGraphRun cfg s runId).getD s
  epoch s := by
    cases h : beginTaskGraphRun cfg s runId with
    | none => rfl
    | some s' => exact epoch_beginTaskGraphRun h

/-- `stream_task` into a session with an active run, up to the second save of `_stream_single`: the
    turn is prepared on one copy and the older run is preempted on another. -/
def streamProgram (t : Thread) (payload : Fields) (runId : Text) (epoch : ℤ) :
    List (Event cfg) :=
  [Event.load t, Event.work t (turnWork cfg payload), Event.store t none] ++
    preemptProgram (t + 1) epoch "stream_single".toList ++
    [Event.registry ⟨.beginGraphRun runId, by simp⟩,
      Event.registry ⟨.registerTaskControl runId (epoch - 1), by simp⟩,
      Event.work t (beginWork cfg runId), Event.store t none]

/-- `tool_execution_node`, as far as it looks at the controls: one check on entering and one before
    each tool of the registry (none before the actions of a plan), then the observations are
    committed. -/
def toolExecutionNode (t : Thread) (runId : Text) (invocations : ℕ) (results : Work cfg) :
    List (Event cfg) :=
  Event.check runId none "tool_execution_enter".toList ::
    List.replicate invocations (Event.check runId none "tool_invoke".toList) ++
      [Event.work t results, Event.store t (some runId)]

/-! ### What a check observes -/

/-- The flags of the checks on the way through a tool. Those that name no epoch cannot find it
    stale. -/
def toolChecks : RaiseOn := { pause := true, cancel := true, epochStale := true }

/-- The check raises. -/
def Observes (w : World) (stepEpoch : Option ℤ) (phase : Text) : Prop :=
  ∃ signal, checkForControlSignal w [] toolChecks stepEpoch phase = .error signal

/-- A pause or a cancel of the task is requested on the handle. -/
def Flagged (w : World) : Prop :=
  ∃ c ∈ w.control, c.pauseRequested = true ∨ c.cancelRequested = true

/-- The handle has moved past the epoch that the check names. -/
def EpochMoved (w : World) (stepEpoch : Option ℤ) : Prop :=
  ∃ c ∈ w.control, ∃ epoch ∈ stepEpoch, epoch < c.foregroundEpoch

theorem observes_iff (w : World) (stepEpoch : Option ℤ) (phase : Text) :
    Observes w stepEpoch phase ↔ Flagged w ∨ EpochMoved w stepEpoch := by
  rw [Observes, checkForControlSignal, if_pos rfl, Flagged, EpochMoved]
  cases w.control with
  | none => simp [checkTaskControl]
  | some c =>
    rw [checkTaskControl.eq_def]
    cases hcancel : c.cancelRequested with
    | true => simp [hcancel, toolChecks]
    | false =>
      cases hpause : c.pauseRequested with
      | true => simp [hcancel, hpause, toolChecks]
      | false =>
        cases stepEpoch with
        | none => simp [hcancel, hpause, toolChecks]
        | some epoch =>
          by_cases hlt : epoch < c.foregroundEpoch
          · simp [hcancel, hpause, toolChecks, hlt]
          · simp [hcancel, hpause, toolChecks, hlt]

/-! ### Where a flag comes from -/

/-- A pause or a cancel of the task is requested. -/
def Op.Signals : Op → Prop
  | .request .pause _ _ | .request .cancel _ _ => True
  | _ => False

/-- The control handle is replaced or dropped. -/
def Op.Resets : Op → Prop
  | .registerTaskControl _ _ | .clearTaskControl => True
  | _ => False

def Event.Signals (e : Event cfg) : Prop := ∃ op ∈ e.op?, op.Signals

def Event.Resets (e : Event cfg) : Prop := ∃ op ∈ e.op?, op.Resets

/-- The request of the event is accepted: there is a handle for it. -/
def Signalled (m : Threads) (e : Event cfg) : Prop := e.Signals ∧ m.world.control.isSome = true

theorem flagged_congr {w w' : World} (h : w'.control = w.control) : Flagged w' ↔ Flagged w := by
  rw [Flagged, Flagged, h]

/-- A request of another kind leaves the flags alone. -/
theorem flagged_map {w w' : World} {f : TaskControl → TaskControl}
    (h : w'.control = w.control.map f)
    (hf : ∀ c, (f c).pauseRequested = c.pauseRequested ∧
      (f c).cancelRequested = c.cancelRequested) : Flagged w' ↔ Flagged w := by
  rw [Flagged, Flagged, h]
  cases w.control with
  | none => simp
  | some c => simp [hf c]

/-- An operation sets a flag, resets all of them, or leaves them alone. -/
theorem flagged_op (w : World) (op : Op) : Flagged (w.step cfg op) ↔
    Flagged w ∧ ¬ op.Resets ∨ op.Signals ∧ w.control.isSome = true := by
  have hquiet : ¬ op.Resets → ¬ op.Signals → (Flagged (w.step cfg op) ↔ Flagged w) →
      (Flagged (w.step cfg op) ↔ Flagged w ∧ ¬ op.Resets ∨ op.Signals ∧ w.control.isSome = true) := by
    intro hresets hsignals h
    simp [h, hresets, hsignals]
  have hreset : op.Resets → ¬ op.Signals → ¬ Flagged (w.step cfg op) →
      (Flagged (w.step cfg op) ↔ Flagged w ∧ ¬ op.Resets ∨ op.Signals ∧ w.control.isSome = true) := by
    intro hresets hsignals h
    simp [h, hresets, hsignals]
  cases op with
  | registerTaskControl runId epoch =>
    exact hreset trivial id (by simp [Flagged, step_control])
  | clearTaskControl => exact hreset trivial id (by simp [Flagged, step_control])
  | syncTaskControlEpoch epoch =>
    exact hquiet id id (flagged_map (step_control w _) fun c => ⟨rfl, rfl⟩)
  | request r requestedBy reason =>
    cases r with
    | interruptStream => exact hquiet id id (flagged_map (step_control w _) fun c => ⟨rfl, rfl⟩)
    | pauseWorker worker => exact hquiet id id (flagged_congr rfl)
    | cancelWorker worker => exact hquiet id id (flagged_congr rfl)
    | pause =>
      rw [Flagged, Flagged, step_control]
      simp only [World.request]
      cases w.control <;> simp [Op.Signals, Op.Resets, TaskControl.apply]
    | cancel =>
      rw [Flagged, Flagged, step_control]
      simp only [World.request]
      cases w.control <;> simp [Op.Signals, Op.Resets, TaskControl.apply]
  | _ => exact hquiet id id (flagged_congr (step_control w _))

theorem flagged_step (m : Threads) (e : Event cfg) :
    Flagged (m.step e).world ↔ Flagged m.world ∧ ¬ e.Resets ∨ Signalled m e := by
  have hcontrol := threads_control m e
  rw [Signalled, Event.Resets, Event.Signals]
  cases hop : e.op? with
  | none =>
    rw [hop] at hcontrol
    rw [flagged_congr hcontrol]
    simp
  | some op =>
    rw [hop] at hcontrol
    have hworld : Flagged (m.step e).world ↔ Flagged (m.world.step cfg op) := flagged_congr hcontrol
    rw [hworld, flagged_op]
    simp

/-- A pause or cancel was accepted, and the handle is still the one it was accepted on. -/
def Standing (m : Threads) (trace : List (Event cfg)) : Prop :=
  (Flagged m.world ∧ ∀ e ∈ trace, ¬ e.Resets) ∨
    ∃ pre e post, trace = pre ++ e :: post ∧ Signalled (m.run pre) e ∧ ∀ e' ∈ post, ¬ e'.Resets

theorem flagged_iff_standing (m : Threads) (trace : List (Event cfg)) :
    Flagged (m.run trace).world ↔ Standing m trace :=
  run_since_iff (F := fun m : Threads => Flagged m.world) flagged_step m trace

/-! ### When a preempt is observed -/

/-- Between a preempt that finds the run active and the next tool observation that the run commits,
    some check of the run raises. -/
def PreemptObserved (cfg : Surroundings) (m : Threads) (trace : List (Event cfg)) : Prop :=
  ∀ pre reason mid t runId post,
    trace = pre ++ Event.preemptPause reason :: (mid ++ Event.store t (some runId) :: post) →
      (m.run pre).world.isActive runId → (∀ t', Event.store t' (some runId) ∉ mid) →
        ∃ mid₁ stepEpoch phase mid₂, mid = mid₁ ++ Event.check runId stepEpoch phase :: mid₂ ∧
          Observes (m.run (pre ++ Event.preemptPause reason :: mid₁)).world stepEpoch phase

/-- Between the preempt and the commit the run makes a check while a pause or cancel stands on the
    handle on which it was accepted, or one that names an epoch which the handle has left behind. -/
def Watched (cfg : Surroundings) (m : Threads) (trace : List (Event cfg)) : Prop :=
  ∀ pre reason mid t runId post,
    trace = pre ++ Event.preemptPause reason :: (mid ++ Event.store t (some runId) :: post) →
      (m.run pre).world.isActive runId → (∀ t', Event.store t' (some runId) ∉ mid) →
        ∃ mid₁ stepEpoch phase mid₂, mid = mid₁ ++ Event.check runId stepEpoch phase :: mid₂ ∧
          (Standing m (pre ++ Event.preemptPause reason :: mid₁) ∨
            EpochMoved (m.run (pre ++ Event.preemptPause reason :: mid₁)).world stepEpoch)

theorem preemptObserved_iff (m : Threads) (trace : List (Event cfg)) :
    PreemptObserved cfg m trace ↔ Watched cfg m trace := by
  simp only [PreemptObserved, Watched, observes_iff, flagged_iff_standing]

/-! ### Copies that are stored before anybody else writes -/

/-- No store comes between the load of a copy and its store. -/
inductive Serial : List (Event cfg) → Prop
  | nil : Serial []
  | quiet {e : Event cfg} {trace : List (Event cfg)} (he : ∀ t o, e ≠ .store t o)
      (h : Serial trace) : Serial (e :: trace)
  | copy (t : Thread) (o : Option Text) {body trace : List (Event cfg)}
      (hbody : ∀ t o, .store t o ∉ body) (h : Serial trace) :
      Serial (.load t :: (body ++ .store t o :: trace))

/-- In a serial trace a store comes after the load of its copy, and the rest is serial too. -/
theorem Serial.split {trace : List (Event cfg)} (h : Serial trace) : ∀ pre t o post,
    trace = pre ++ .store t o :: post → .load t ∈ pre ∧ Serial post := by
  induction h with
  | nil =>
    intro pre t o post heq
    exact absurd heq (by simp)
  | @quiet e trace he _ ih =>
    intro pre t o post heq
    cases pre with
    | nil => exact absurd (List.cons.inj heq).1 (he t o)
    | cons a pre =>
      obtain ⟨hload, hpost⟩ := ih pre t o post (List.cons.inj heq).2
      exact ⟨List.mem_cons_of_mem a hload, hpost⟩
  | @copy t' o' body trace hbody h ih =>
    intro pre t o post heq
    cases pre with
    | nil => exact absurd (List.cons.inj heq).1 (by simp)
    | cons a pre =>
      rw [List.cons_append, List.cons.injEq] at heq
      obtain ⟨rfl, heq⟩ := heq
      rcases List.append_eq_append_iff.1 heq with ⟨x, rfl, hx⟩ | ⟨x, rfl, hx⟩
      · cases x with
        | nil =>
          rw [List.nil_append, List.cons.injEq, Event.store.injEq] at hx
          obtain ⟨⟨rfl, rfl⟩, rfl⟩ := hx
          exact ⟨List.mem_cons_self, h⟩
        | cons b x =>
          rw [List.cons_append, List.cons.injEq] at hx
          obtain ⟨rfl, rfl⟩ := hx
          obtain ⟨hload, hpost⟩ := ih x t o post rfl
          exact ⟨by simp [hload], hpost⟩
      · cases x with
        | nil =>
          rw [List.nil_append, List.cons.injEq, Event.store.injEq] at hx
          obtain ⟨⟨rfl, rfl⟩, rfl⟩ := hx
          exact ⟨List.mem_cons_self, h⟩
        | cons b x =>
          rw [List.cons_append, List.cons.injEq] at hx
          obtain ⟨rfl, -⟩ := hx
          exact absurd (by simp) (hbody t o)

/-- No copy of a serial trace is overtaken. -/
theorem Serial.notOvertaken {trace : List (Event cfg)} (h : Serial trace) (m : Threads) :
    NotOvertaken cfg m trace := by
  intro pre t₁ o₁ mid t₂ o₂ post e₁ e₂ heq hmid _ _
  obtain ⟨-, hrest⟩ := h.split pre t₁ o₁ _ heq
  exact absurd (hrest.split mid t₂ o₂ post rfl).1 hmid

/-- CORRECT when it can be: for every interleaving of preempts, saves, registrations and checks, the
    stored epoch never decreases and every preempt is observed before the run's next commit exactly
    when no thread writes a copy that was overtaken since it loaded it, and the run makes a check
    while the preempt's pause, or another request, still stands. -/
theorem preemption_iff (cfg : Surroundings) (m : Threads) (trace : List (Event cfg))
    (hcopies : ∀ t s, m.copy t = some s →
      storedEpoch cfg m.world.row ≤ getForegroundEpoch cfg s) :
    EpochMonotone cfg m trace ∧ PreemptObserved cfg m trace ↔
      NotOvertaken cfg m trace ∧ Watched cfg m trace := by
  rw [epochMonotone_iff hcopies, preemptObserved_iff]

/-- The process in which a run of the second turn is active, and no thread holds a copy. -/
def streaming : Threads where
  world := {
    active := some olderRun
    control := some { runId := olderRun }
    row := some (secondTurn .running) }
  copy _ := none

/-- A turn that changes nothing. -/
def idleWork : Work idleProcess := ⟨id, fun _ => rfl⟩

/-- The run, preempted before it enters the tool node, commits after the check has raised. -/
def preemptedRun : List (Event idleProcess) :=
  preemptProgram 1 1 "steer".toList ++ .load 0 :: toolExecutionNode 0 olderRun 0 idleWork

/-- Its events up to the preempt's pause, from there to the check, and on to the commit. -/
def beforePause : List (Event idleProcess) :=
  [.load 1, .bump 1, .registry ⟨.syncTaskControlEpoch 1, by simp⟩]

def beforeCheck : List (Event idleProcess) :=
  [.registry ⟨.request .interruptStream "web".toList "steer".toList, by simp⟩, .store 1 none,
    .load 0]

def afterPause : List (Event idleProcess) :=
  beforeCheck ++ [Event.check olderRun none "tool_execution_enter".toList, Event.work 0 idleWork]

/-- A preempt that is over before the run loads and checks is neither lost nor taken back. -/
theorem preempt_observed_before_load : EpochMonotone idleProcess streaming preemptedRun ∧
    PreemptObserved idleProcess streaming preemptedRun := by
  refine (preemption_iff idleProcess streaming preemptedRun (by simp [streaming])).2 ⟨?_, ?_⟩
  · have hrun : Serial (.load 0 :: toolExecutionNode 0 olderRun 0 idleWork) :=
      @Serial.copy idleProcess 0 (some olderRun) [_, _] [] (by simp) .nil
    have hserial : Serial preemptedRun :=
      @Serial.copy idleProcess 1 none [_, _, _, _] _ (by simp) hrun
    exact hserial.notOvertaken streaming
  · intro pre reason mid t runId post heq _ _
    -- the trace holds one preempt and one commit
    have hpause : pre ++ .preemptPause reason :: (mid ++ .store t (some runId) :: post) =
        beforePause ++ .preemptPause "steer".toList ::
          (afterPause ++ .store 0 (some olderRun) :: []) := heq.symm
    obtain ⟨rfl, hreason, hrest⟩ := (List.append_cons_inj_of_notMem (by simp [beforePause])
      (by simp [afterPause, beforeCheck])).1 hpause.symm
    obtain ⟨rfl, hstore, -⟩ := (List.append_cons_inj_of_notMem
      (by simp [afterPause, beforeCheck]) (by simp)).1 hrest
    cases hreason
    cases hstore
    refine ⟨beforeCheck, none, "tool_execution_enter".toList, [.work 0 idleWork], rfl,
      Or.inl (Or.inr ⟨beforePause, .preemptPause "steer".toList, beforeCheck, rfl,
        ⟨⟨_, rfl, trivial⟩, by decide +kernel⟩, ?_⟩)⟩
    simp [beforeCheck, Event.Resets, Event.op?, Op.Resets]

/-- A second stream into the session prepares its turn on one copy, preempts the older run on another
    and then stores the first: the bump is taken back. -/
theorem second_stream_lowers_epoch :
    ¬ EpochMonotone idleProcess streaming (streamProgram 0 PyDict.empty newerRun 1) := by
  intro hmono
  have hle := hmono (([.load 0, .work 0 (turnWork idleProcess PyDict.empty), .store 0 none] :
    List (Event idleProcess)) ++ preemptProgram 1 1 "stream_single".toList)
    [.registry ⟨.beginGraphRun newerRun, by simp⟩,
      .registry ⟨.registerTaskControl newerRun 0, by simp⟩,
      .work 0 (beginWork idleProcess newerRun), .store 0 none] ⟨[], by simp [streamProgram]⟩
  clear hmono
  revert hle
  decide +kernel

end AgentLangraph.Run
