import AgentLangraph.Lib.Trace
import AgentLangraph.Session.Store

/-! The registries of a process and the stored row, for one task: the active run
    (`graph_run_registry.py`), the control handle (`task_control.py`), the live entry
    (`live_task_state.py`) and the row (`state_store.py`). Every operation below runs under one lock,
    so an execution is a list of them; threads are programs whose operations interleave.

        begin: registry → control → (row → live)      end: registry, live, control -/

namespace AgentLangraph.Run
open PyText Session

/-- `TaskControl`; its time stamp is read by nothing modelled. -/
structure TaskControl where
  runId : Text
  streamInterrupted : Bool := false
  pauseRequested : Bool := false
  cancelRequested : Bool := false
  foregroundEpoch : ℕ := 0
  requestedBy : Option Text := none
  reason : Option Text := none
  deriving DecidableEq

/-- `WorkerControl`. -/
structure WorkerControl where
  pauseRequested : Bool := false
  cancelRequested : Bool := false
  requestedBy : Option Text := none
  reason : Option Text := none
  deriving DecidableEq

/-- `LiveTaskEntry`: the state shown and the run that registered it. -/
structure LiveTaskEntry where
  state : AgentState
  running : Bool := true
  runId : Option Text
  deriving DecidableEq

structure World where
  active : Option Text := none
  control : Option TaskControl := none
  workers : PyDict Text WorkerControl := PyDict.empty
  live : Option LiveTaskEntry := none
  row : Option AgentState := none

/-- A control request, for the task or for one worker. -/
inductive Request
  | interruptStream
  | pause
  | cancel
  | pauseWorker (worker : Text)
  | cancelWorker (worker : Text)
  deriving DecidableEq

/-- The operations on the registries and the store. -/
inductive Op
  | beginGraphRun (runId : Text)
  | endGraphRun (runId : Text)
  | registerTaskControl (runId : Text) (foregroundEpoch : ℤ)
  | syncTaskControlEpoch (epoch : ℤ)
  | request (r : Request) (requestedBy reason : Text)
  | clearTaskControl
  | registerLive (state : AgentState) (runId : Text)
  | touchLive (state : AgentState)
  | clearLive
  | save (state : AgentState)
  deriving DecidableEq

/-- `_mutate` of a request, on a handle that is there. -/
def TaskControl.apply (c : TaskControl) (r : Request) (requestedBy reason : Text) : TaskControl :=
  let c := { c with requestedBy := some requestedBy, reason := some reason }
  match r with
  | .interruptStream => { c with streamInterrupted := true }
  | .pause => { c with pauseRequested := true }
  | .cancel => { c with cancelRequested := true }
  | .pauseWorker _ | .cancelWorker _ => c

/-- `_mutate_worker`, which makes the handle it does not find. -/
def mutateWorker (workers : PyDict Text WorkerControl) (worker : Text)
    (f : WorkerControl → WorkerControl) : PyDict Text WorkerControl :=
  workers.set worker (f (workers.getD worker {}))

def World.request (w : World) (r : Request) (requestedBy reason : Text) : World :=
  match r with
  | .pauseWorker worker =>
    { w with workers := mutateWorker w.workers worker fun wc =>
        { wc with pauseRequested := true, requestedBy := some requestedBy, reason := some reason } }
  | .cancelWorker worker =>
    { w with workers := mutateWorker w.workers worker fun wc =>
        { wc with cancelRequested := true, requestedBy := some requestedBy, reason := some reason } }
  | r => { w with control := w.control.map fun c => c.apply r requestedBy reason }

/-- `touch_live` and `touch_live_if_active`. -/
def World.touchLive (w : World) (s : AgentState) : World :=
  { w with live := w.live.map fun e => if e.running then { e with state := s } else e }

/-- What a save reads: the configuration, with the registry as it is now. -/
def World.surroundings (cfg : Surroundings) (w : World) : Surroundings :=
  { cfg with activeRun := w.active }

/-- `StateStore.save`: the row, and the live entry if the row was written. -/
def World.save (cfg : Surroundings) (w : World) (s : AgentState) : World :=
  if cfg.tombstoned ∨ Protects w.row s then w
  else
    match writeRow (w.surroundings cfg) w.row s with
    | .ok s' => { w with row := some s' }.touchLive s'
    | .error _ => w

def World.step (cfg : Surroundings) (w : World) : Op → World
  | .beginGraphRun runId => { w with active := some runId }
  | .endGraphRun runId => if w.active = some runId then { w with active := none } else w
  | .registerTaskControl runId epoch =>
    { w with control := some { runId := runId, foregroundEpoch := epoch.toNat } }
  | .syncTaskControlEpoch epoch =>
    { w with control := w.control.map fun c => { c with foregroundEpoch := epoch.toNat } }
  | .request r requestedBy reason => w.request r requestedBy reason
  | .clearTaskControl => { w with control := none, workers := PyDict.empty }
  | .registerLive s runId => { w with live := some { state := s, runId := some runId } }
  | .touchLive s => w.touchLive s
  | .clearLive => { w with live := none }
  | .save s => w.save cfg s

/-- The world after a list of operations. -/
def World.run (cfg : Surroundings) (w : World) (trace : List Op) : World :=
  Trace.run (World.step cfg) w trace

/-! ### What an operation leaves alone -/

@[simp] theorem request_active (w : World) (r : Request) (requestedBy reason : Text) :
    (w.request r requestedBy reason).active = w.active := by
  cases r <;> rfl

@[simp] theorem request_live (w : World) (r : Request) (requestedBy reason : Text) :
    (w.request r requestedBy reason).live = w.live := by
  cases r <;> rfl

@[simp] theorem request_row (w : World) (r : Request) (requestedBy reason : Text) :
    (w.request r requestedBy reason).row = w.row := by
  cases r <;> rfl

@[simp] theorem touchLive_active (w : World) (s : AgentState) : (w.touchLive s).active = w.active :=
  rfl

@[simp] theorem touchLive_control (w : World) (s : AgentState) :
    (w.touchLive s).control = w.control := rfl

@[simp] theorem touchLive_workers (w : World) (s : AgentState) :
    (w.touchLive s).workers = w.workers := rfl

@[simp] theorem touchLive_row (w : World) (s : AgentState) : (w.touchLive s).row = w.row := rfl

variable {cfg : Surroundings}

/-- A save touches the row and the live entry only. -/
theorem save_frame (w : World) (s : AgentState) : (w.save cfg s).active = w.active ∧
    (w.save cfg s).control = w.control ∧ (w.save cfg s).workers = w.workers := by
  rw [World.save]
  split_ifs
  · exact ⟨rfl, rfl, rfl⟩
  · split <;> exact ⟨rfl, rfl, rfl⟩

/-- The row after a save is the one the store computes. -/
theorem save_row (w : World) (s : AgentState) :
    (w.save cfg s).row = rowAfter w.row (w.surroundings cfg, s) := by
  rw [World.save, rowAfter, Session.save]
  by_cases htomb : cfg.tombstoned = true
  · rw [if_pos (Or.inl htomb), if_pos (by exact htomb)]
  · by_cases hprot : Protects w.row s
    · rw [if_pos (Or.inr hprot), if_neg (by exact htomb), if_pos hprot]
    · rw [if_neg (by simp [htomb, hprot]), if_neg (by exact htomb), if_neg hprot]
      cases writeRow (w.surroundings cfg) w.row s <;> rfl

/-! ### What an operation does to each part -/

theorem step_active (w : World) (op : Op) : (w.step cfg op).active =
    match op with
    | .beginGraphRun r => some r
    | .endGraphRun r => if w.active = some r then none else w.active
    | _ => w.active := by
  cases op with
  | endGraphRun r =>
    by_cases h : w.active = some r
    · simp [World.step, h]
    · simp [World.step, h]
  | request r requestedBy reason => exact request_active w r requestedBy reason
  | save s => exact (save_frame w s).1
  | _ => rfl

/-- The control handle after an operation. -/
theorem step_control (w : World) (op : Op) : (w.step cfg op).control =
    match op with
    | .registerTaskControl runId epoch => some { runId := runId, foregroundEpoch := epoch.toNat }
    | .syncTaskControlEpoch epoch => w.control.map fun c => { c with foregroundEpoch := epoch.toNat }
    | .request r requestedBy reason => (w.request r requestedBy reason).control
    | .clearTaskControl => none
    | _ => w.control := by
  cases op with
  | endGraphRun r =>
    simp only [World.step]
    split_ifs <;> rfl
  | save s => exact (save_frame w s).2.1
  | _ => rfl

/-- Worker handles are made by requests and dropped by a cleanup. -/
theorem step_workers (w : World) (op : Op) : (w.step cfg op).workers =
    match op with
    | .request r requestedBy reason => (w.request r requestedBy reason).workers
    | .clearTaskControl => PyDict.empty
    | _ => w.workers := by
  cases op with
  | endGraphRun r =>
    simp only [World.step]
    split_ifs <;> rfl
  | save s => exact (save_frame w s).2.2
  | _ => rfl

/-- The live entry after an operation; a save that writes touches it. -/
theorem step_live (w : World) (op : Op) : (w.step cfg op).live =
    match op with
    | .registerLive s runId => some { state := s, runId := some runId }
    | .touchLive s => (w.touchLive s).live
    | .clearLive => none
    | .save s => (w.save cfg s).live
    | _ => w.live := by
  cases op with
  | endGraphRun r =>
    simp only [World.step]
    split_ifs <;> rfl
  | request r requestedBy reason => exact request_live w r requestedBy reason
  | _ => rfl

theorem step_row (w : World) (op : Op) : (w.step cfg op).row =
    match op with
    | .save s => rowAfter w.row (w.surroundings cfg, s)
    | _ => w.row := by
  cases op with
  | endGraphRun r =>
    simp only [World.step]
    split_ifs <;> rfl
  | request r requestedBy reason => exact request_row w r requestedBy reason
  | save s => exact save_row w s
  | _ => rfl

end AgentLangraph.Run
