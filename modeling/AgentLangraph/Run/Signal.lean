import AgentLangraph.Run.World

/-! The control checks of a running graph (`execution_control.py`): a check reads the handle of the
    task, and of one worker when it names one, and raises what it finds there. -/

namespace AgentLangraph.Run
open PyText Session

inductive Signal
  | cancelRequested (message : Text)
  | pauseRequested (message : Text)
  | streamInterrupted (message : Text)
  | epochStale (message : Text)
  deriving DecidableEq

/-- The `raise_on_*` flags of a check. -/
structure RaiseOn where
  pause : Bool := false
  cancel : Bool := false
  streamInterrupt : Bool := false
  epochStale : Bool := false

/-- `reason or default`. -/
def orReason (reason : Option Text) (default : String) : Text :=
  match reason with
  | none | some [] => default.toList
  | some text => text

/-- `_worker_cancel_pause`. -/
def workerCancelPause (worker : Option WorkerControl) (raiseOn : RaiseOn) : Except Signal Bool :=
  match worker with
  | none => .ok false
  | some wc =>
    if wc.cancelRequested then
      if raiseOn.cancel then .error (.cancelRequested (orReason wc.reason "worker cancel requested"))
      else .ok true
    else if wc.pauseRequested then
      if raiseOn.pause then .error (.pauseRequested (orReason wc.reason "worker pause requested"))
      else .ok true
    else .ok false

def epochStaleMessage (epoch : ℕ) (stepEpoch : ℤ) (phase : Text) : Text :=
  "foreground epoch ".toList ++ (PyVal.int epoch).toText ++ " > step ".toList ++
    (PyVal.int stepEpoch).toText ++ " (".toList ++ phase ++ ")".toList

/-- The part of `check_for_control_signal` about the handle of the task. -/
def checkTaskControl (control : Option TaskControl) (raiseOn : RaiseOn) (stepEpoch : Option ℤ)
    (phase : Text) : Except Signal (Option TaskControl) :=
  match control with
  | none => .ok none
  | some c =>
    if c.cancelRequested then
      if raiseOn.cancel then .error (.cancelRequested (orReason c.reason "cancel requested"))
      else .ok (some c)
    else if c.pauseRequested then
      if raiseOn.pause then .error (.pauseRequested (orReason c.reason "pause requested"))
      else .ok (some c)
    else if c.streamInterrupted && raiseOn.streamInterrupt then
      .error (.streamInterrupted (orReason c.reason "stream interrupted"))
    else
      match stepEpoch with
      | none => .ok (some c)
      | some epoch =>
        if raiseOn.epochStale ∧ epoch < c.foregroundEpoch then
          .error (.epochStale (epochStaleMessage c.foregroundEpoch epoch phase))
        else .ok (some c)

/-- `check_for_control_signal`. -/
def checkForControlSignal (w : World) (workerId : Text) (raiseOn : RaiseOn)
    (stepEpoch : Option ℤ) (phase : Text) : Except Signal (Option TaskControl) :=
  if workerId = [] then checkTaskControl w.control raiseOn stepEpoch phase
  else
    match workerCancelPause (w.workers.get? workerId) raiseOn with
    | .error signal => .error signal
    | .ok true => .ok w.control
    | .ok false => checkTaskControl w.control raiseOn stepEpoch phase

/-! ### What a check sees of a request -/

/-- The requests that a run must not miss. -/
def Request.Stops (r : Request) : Prop := r ≠ .interruptStream

instance (r : Request) : Decidable r.Stops := inferInstanceAs (Decidable (_ ≠ _))

/-- The request is made of one worker. -/
def Request.worker? : Request → Option Text
  | .pauseWorker worker | .cancelWorker worker => some worker
  | _ => none

/-- The flag that a request sets is set where the checks look. -/
def Visible (w : World) : Request → Prop
  | .interruptStream => ∃ c ∈ w.control, c.streamInterrupted = true
  | .pause => ∃ c ∈ w.control, c.pauseRequested = true
  | .cancel => ∃ c ∈ w.control, c.cancelRequested = true
  | .pauseWorker worker => ∃ wc, w.workers.get? worker = some wc ∧ wc.pauseRequested = true
  | .cancelWorker worker => ∃ wc, w.workers.get? worker = some wc ∧ wc.cancelRequested = true

/-- A visible pause or cancel of the task stops every check that raises on both. -/
theorem checkTaskControl_stops {control : Option TaskControl} {c : TaskControl}
    (hc : c ∈ control) (hflag : c.pauseRequested = true ∨ c.cancelRequested = true)
    {raiseOn : RaiseOn} (hpause : raiseOn.pause = true) (hcancel : raiseOn.cancel = true)
    (stepEpoch : Option ℤ) (phase : Text) :
    ∃ signal, checkTaskControl control raiseOn stepEpoch phase = .error signal := by
  rw [Option.mem_def] at hc
  subst hc
  rw [checkTaskControl.eq_def]
  dsimp only
  rw [if_pos hpause, if_pos hcancel]
  split_ifs with h₁ h₂
  · exact ⟨_, rfl⟩
  · exact ⟨_, rfl⟩
  · exact absurd hflag (by simp [h₁, h₂])
  · exact absurd hflag (by simp [h₁, h₂])

/-- A visible pause or cancel of a worker stops every check that names the worker. -/
theorem workerCancelPause_stops {wc : WorkerControl}
    (hflag : wc.pauseRequested = true ∨ wc.cancelRequested = true) {raiseOn : RaiseOn}
    (hpause : raiseOn.pause = true) (hcancel : raiseOn.cancel = true) :
    ∃ signal, workerCancelPause (some wc) raiseOn = .error signal := by
  rw [workerCancelPause, if_pos hpause, if_pos hcancel]
  split_ifs with h₁ h₂
  · exact ⟨_, rfl⟩
  · exact ⟨_, rfl⟩
  · exact absurd hflag (by simp [h₁, h₂])

/-- No check that raises on both and looks at the right handle goes past a visible request. -/
theorem check_stops_of_visible {w : World} {r : Request} (hstops : r.Stops) (h : Visible w r)
    {workerId : Text} (hworker : ∀ worker ∈ r.worker?, worker = workerId ∧ workerId ≠ [])
    {raiseOn : RaiseOn} (hpause : raiseOn.pause = true) (hcancel : raiseOn.cancel = true)
    (stepEpoch : Option ℤ) (phase : Text) :
    ∃ signal, checkForControlSignal w workerId raiseOn stepEpoch phase = .error signal := by
  have htask : (∃ c ∈ w.control, c.pauseRequested = true ∨ c.cancelRequested = true) →
      ∃ signal, checkForControlSignal w workerId raiseOn stepEpoch phase = .error signal := by
    rintro ⟨c, hc, hflag⟩
    obtain ⟨signal, heq⟩ := checkTaskControl_stops hc hflag hpause hcancel stepEpoch phase
    rw [checkForControlSignal, heq]
    split_ifs
    · exact ⟨signal, rfl⟩
    · -- the worker's own handle is looked at first, and may raise instead
      cases hw : w.workers.get? workerId with
      | none => exact ⟨signal, rfl⟩
      | some wc =>
        rw [workerCancelPause, if_pos hpause, if_pos hcancel]
        split_ifs
        · exact ⟨_, rfl⟩
        · exact ⟨_, rfl⟩
        · exact ⟨signal, rfl⟩
  have hnamed : ∀ worker, worker = workerId ∧ workerId ≠ [] →
      (∃ wc, w.workers.get? worker = some wc ∧
        (wc.pauseRequested = true ∨ wc.cancelRequested = true)) →
      ∃ signal, checkForControlSignal w workerId raiseOn stepEpoch phase = .error signal := by
    rintro worker ⟨rfl, hne⟩ ⟨wc, hget, hflag⟩
    obtain ⟨signal, heq⟩ := workerCancelPause_stops hflag hpause hcancel
    exact ⟨signal, by rw [checkForControlSignal, if_neg hne, hget, heq]⟩
  cases r with
  | interruptStream => exact absurd rfl hstops
  | pause =>
    obtain ⟨c, hc, hflag⟩ := h
    exact htask ⟨c, hc, Or.inl hflag⟩
  | cancel =>
    obtain ⟨c, hc, hflag⟩ := h
    exact htask ⟨c, hc, Or.inr hflag⟩
  | pauseWorker worker =>
    obtain ⟨wc, hget, hflag⟩ := h
    exact hnamed worker (hworker worker rfl) ⟨wc, hget, Or.inl hflag⟩
  | cancelWorker worker =>
    obtain ⟨wc, hget, hflag⟩ := h
    exact hnamed worker (hworker worker rfl) ⟨wc, hget, Or.inr hflag⟩

end AgentLangraph.Run
