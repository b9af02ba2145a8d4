import AgentLangraph.Run.World

/-! Run control (`run_controller.py`, and the begin and end of a graph run in `graph_runner.py`): a
    run is stamped with its id and with the intent revision it starts from, a cancel retires it, and
    a write is fenced by `assert_run_active`. Begin, end and cancel are programs over the registries;
    the state they compute on the way is the caller's own copy. -/

namespace AgentLangraph.Run
open PyText Session

/-! ### Interrupt context and foreground epoch -/

/-- `empty_interrupt_context`. -/
def emptyInterruptContext : Fields := PyDict.ofList
  [("pause_requested".toList, .bool false), ("cancel_requested".toList, .bool false),
    ("last_control_event".toList, .none), ("active_step".toList, .none),
    ("last_committed_step".toList, .none), ("resume_from_checkpoint".toList, .none),
    ("control_state".toList, .str "IDLE".toList), ("foreground_epoch".toList, .int 0),
    ("worker_controls".toList, .other "{}".toList false)]

def ensureInterruptContext (s : AgentState) : Fields :=
  emptyInterruptContext.update (recordOr s.interruptContext)

/-- `get_foreground_epoch`: a malformed epoch counts as zero. -/
def getForegroundEpoch (cfg : Surroundings) (s : AgentState) : ℕ :=
  ((intField cfg (ensureInterruptContext s) "foreground_epoch").getD 0).toNat

/-- `init_foreground_epoch_on_run`. -/
def initForegroundEpochOnRun (cfg : Surroundings) (s : AgentState) (runId : Text) :
    Option AgentState :=
  let ctx := ensureInterruptContext s
  (intField cfg ctx "foreground_epoch").map fun epoch =>
    { s with
      interruptContext := some ctx
      executionRun := some ((((recordOr s.executionRun).put "run_id" (.str runId)).put
        "foreground_epoch" (.int epoch)).put "started_at" (.str cfg.now)) }

/-! ### Begin, end and cancel -/

/-- `RunController.begin_run`. -/
def beginRun (cfg : Surroundings) (s : AgentState) (runId : Text) : Option AgentState :=
  (intField cfg s.inputPayload "intent_revision").map fun revision =>
    let updated := { s with
      executionRun := some (PyDict.ofList
        [("run_id".toList, .str runId), ("revision_at_start".toList, .int revision),
          ("cancelled".toList, .bool false)]) }
    if getFsmState cfg updated = .replanning then updated else transitionFsm cfg updated .running

/-- The state with which a run starts, for the state of the turn. -/
def beginTaskGraphRun (cfg : Surroundings) (s : AgentState) (runId : Text) : Option AgentState :=
  (initForegroundEpochOnRun cfg s runId).bind fun s => beginRun cfg s runId

/-- `_begin_task_graph_run`, the save of the state it returns, and `register_live` when the run is
    streamed. -/
def startProgram (cfg : Surroundings) (s : AgentState) (runId : Text) (streamed : Bool) : List Op :=
  .beginGraphRun runId ::
    match initForegroundEpochOnRun cfg s runId with
    | none => []
    | some s₁ =>
      .registerTaskControl runId (getForegroundEpoch cfg s₁) ::
        match beginRun cfg s₁ runId with
        | none => []
        | some s₂ => .save s₂ :: if streamed then [.registerLive s₂ runId] else []

/-- `_end_task_graph_run`. -/
def endTaskGraphRun (runId : Text) : List Op :=
  [.endGraphRun runId, .clearLive, .clearTaskControl]

/-- The run id a state carries. -/
def runIdOf (s : AgentState) : Text := textField (recordOr s.executionRun) "run_id"

/-- `bump_intent_revision`. -/
def bumpIntentRevision (cfg : Surroundings) (payload : Fields) : Option Fields :=
  (intField cfg payload "intent_revision").map fun revision =>
    payload.put "intent_revision" (.int (revision + 1))

/-- The state that `RunController.cancel` saves. -/
def cancelledState (cfg : Surroundings) (s : AgentState) (bumpRevision : Bool) :
    Option AgentState :=
  (if bumpRevision then bumpIntentRevision cfg s.inputPayload else some s.inputPayload).map
    fun payload =>
      let runMeta := (recordOr s.executionRun).put "cancelled" (.bool true)
      let runMeta := if runIdOf s = [] then runMeta else runMeta.put "run_id" (.str (runIdOf s))
      transitionFsm cfg { s.mergePayload payload with executionRun := some runMeta } .replanning

/-- `RunController.cancel`. -/
def cancelProgram (cfg : Surroundings) (s : AgentState) (reason : Text) (bumpRevision : Bool) :
    List Op :=
  (if runIdOf s = [] then [] else [Op.endGraphRun (runIdOf s)]) ++
    Op.request .cancel "run_controller".toList reason ::
      match cancelledState cfg s bumpRevision with
      | none => []
      | some updated => [Op.save updated]

/-! ### The fence -/

inductive Halt
  /-- `RunCancelled`, with its message. -/
  | runCancelled (message : Text)
  | valueError
  deriving DecidableEq

/-- `f' at {phase}' if phase else ''`. -/
def atPhase (phase : Text) : Text := if phase = [] then [] else " at ".toList ++ phase

/-- The stored row, for a state that names its task. -/
def storedFor (w : World) (s : AgentState) : Option AgentState := if s.taskId = [] then none else w.row

def Timeout (stored : AgentState) : Prop := stored.status = .timedOut ∨ stored.status = .cancelled

instance (stored : AgentState) : Decidable (Timeout stored) := inferInstanceAs (Decidable (_ ∨ _))

/-- The stored interrupt context says that the run was aborted. -/
def Aborted (stored : AgentState) : Prop :=
  textField (recordOr stored.interruptContext) "runtime_state" = "ABORTED".toList

instance (stored : AgentState) : Decidable (Aborted stored) := inferInstanceAs (Decidable (_ = _))

/-- `is_graph_run_active(task_id, run_id)` for a run id that is not empty. -/
def World.isActive (w : World) (runId : Text) : Prop := w.active = some runId

instance (w : World) (runId : Text) : Decidable (w.isActive runId) :=
  inferInstanceAs (Decidable (_ = _))

/-- The comparison of revisions for a run that is not active. -/
def assertNotSuperseded (cfg : Surroundings) (s : AgentState) (phase : Text) : Except Halt Unit :=
  match intField cfg (recordOr s.executionRun) "revision_at_start",
      intField cfg s.inputPayload "intent_revision" with
  | some start, some current =>
    if start < current then .error (.runCancelled ("run superseded".toList ++ atPhase phase))
    else .ok ()
  | _, _ => .error .valueError

/-- `RunController.assert_run_active`. The second look at the stored status is never reached with a
    status the first one stops at. -/
def assertRunActive (cfg : Surroundings) (w : World) (s : AgentState) (phase : Text) :
    Except Halt Unit :=
  match (storedFor w s).filter fun stored => Timeout stored with
  | some stored =>
    .error (.runCancelled ("run terminal (".toList ++ stored.status.value ++ ")".toList ++
      atPhase phase))
  | none =>
    if ((storedFor w s).filter fun stored => Aborted stored).isSome then
      .error (.runCancelled ("run aborted".toList ++ atPhase phase))
    else if ((recordOr s.executionRun).field "cancelled").truthy then
      .error (.runCancelled ("run cancelled".toList ++ atPhase phase))
    else if runIdOf s ≠ [] ∧ s.taskId ≠ [] ∧ ¬ w.isActive (runIdOf s) then
      assertNotSuperseded cfg s phase
    else .ok ()

/-- `RunController.should_accept_write`, which lets a `ValueError` through. -/
def shouldAcceptWrite (cfg : Surroundings) (w : World) (s : AgentState) : Except Halt Bool :=
  match assertRunActive cfg w s [] with
  | .ok () => .ok true
  | .error (.runCancelled _) => .ok false
  | .error .valueError => .error .valueError

/-! ### When a write is refused -/

/-- The store tells every run of the task to stop. -/
def StoppedInStore (w : World) (s : AgentState) : Prop :=
  ∃ stored ∈ storedFor w s, Timeout stored ∨ Aborted stored

/-- The carried revision was bumped since the run started. -/
def Superseded (cfg : Surroundings) (s : AgentState) : Prop :=
  ∃ start current, intField cfg (recordOr s.executionRun) "revision_at_start" = some start ∧
    intField cfg s.inputPayload "intent_revision" = some current ∧ start < current

theorem assertNotSuperseded_iff {cfg : Surroundings} {s : AgentState} {phase : Text} :
    (∃ message, assertNotSuperseded cfg s phase = .error (.runCancelled message)) ↔
      Superseded cfg s := by
  rw [assertNotSuperseded, Superseded]
  cases hstart : intField cfg (recordOr s.executionRun) "revision_at_start" with
  | none => simp
  | some start =>
    cases hcurrent : intField cfg s.inputPayload "intent_revision" with
    | none => simp
    | some current =>
      dsimp only
      split_ifs with hlt
      · exact iff_of_true ⟨_, rfl⟩ ⟨start, current, rfl, rfl, hlt⟩
      · refine iff_of_false (by simp) ?_
        rintro ⟨a, b, ha, hb, hab⟩
        rw [← Option.some.inj ha, ← Option.some.inj hb] at hab
        exact hlt hab

theorem stoppedInStore_iff {w : World} {s : AgentState} :
    StoppedInStore w s ↔ ((storedFor w s).filter fun stored => Timeout stored).isSome = true ∨
      ((storedFor w s).filter fun stored => Aborted stored).isSome = true := by
  rw [StoppedInStore]
  cases storedFor w s with
  | none => simp
  | some stored => simp [Option.isSome_filter]

/-- `assert_run_active` raises `RunCancelled` in exactly three situations. -/
theorem assertRunActive_cancelled_iff {cfg : Surroundings} {w : World} {s : AgentState}
    {phase : Text} :
    (∃ message, assertRunActive cfg w s phase = .error (.runCancelled message)) ↔
      StoppedInStore w s ∨ ((recordOr s.executionRun).field "cancelled").truthy = true ∨
        (runIdOf s ≠ [] ∧ s.taskId ≠ [] ∧ ¬ w.isActive (runIdOf s)) ∧ Superseded cfg s := by
  rw [assertRunActive, stoppedInStore_iff]
  cases hstop : (storedFor w s).filter fun stored => Timeout stored with
  | some stored => simp
  | none =>
    dsimp only
    split_ifs with habort hcancel hinactive
    · simp [habort]
    · simp [hcancel]
    · rw [assertNotSuperseded_iff]
      simp [habort, hcancel, hinactive]
    · simp [habort, hcancel, hinactive]

/-- A write is refused exactly when `assert_run_active` raises `RunCancelled`. -/
theorem shouldAcceptWrite_false_iff {cfg : Surroundings} {w : World} {s : AgentState} :
    shouldAcceptWrite cfg w s = .ok false ↔
      ∃ message, assertRunActive cfg w s [] = .error (.runCancelled message) := by
  rw [shouldAcceptWrite]
  cases h : assertRunActive cfg w s [] with
  | ok u => simp
  | error e =>
    cases e with
    | runCancelled message => simp
    | valueError => simp

end AgentLangraph.Run
