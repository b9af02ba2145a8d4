import AgentLangraph.Run.Fence
import AgentLangraph.Run.Signal

/-! Who owns the handles of a task. A run registers a control handle and a live entry under its id,
    and the cleanup of a run drops both whoever registered them; only the registry of active runs is
    compared with the id. Two runs of one task, with their cleanups, the requests and the saves, run
    as programs whose operations interleave.

        r₁: begin ─ register ─ … ─ end ─ clear live ─ clear control
        r₂:            begin ─ register ─ …        ↑ drops what r₂ registered -/

namespace AgentLangraph.Run
open PyText Session Trace

/-! ### Two runs of one task -/

/-- A run of the graph: its begin, and the cleanups made for it (two when it is streamed, by the
    worker and by its caller). -/
def runProgram (cfg : Surroundings) (s : AgentState) (runId : Text) (streamed : Bool)
    (cleanups : ℕ) : List Op :=
  startProgram cfg s runId streamed ++
    (List.replicate cleanups (endTaskGraphRun runId)).flatten

/-- What the graphs, the control requests and the other callers do: anything but begin a run,
    register for one or drop a control handle. -/
def Op.Quiet : Op → Prop
  | .beginGraphRun _ | .registerTaskControl _ _ | .registerLive _ _ | .clearTaskControl => False
  | _ => True

/-- An interleaving of two runs with whatever else goes on. -/
inductive TwoRuns (cfg : Surroundings) (older newer : Text) (trace : List Op) : Prop
  | intro (s₁ s₂ : AgentState) (streamed₁ streamed₂ : Bool) (cleanups₁ cleanups₂ : ℕ)
      (others : List (List Op)) (quiet : ∀ p ∈ others, ∀ op ∈ p, op.Quiet)
      (h : Interleaves (runProgram cfg s₁ older streamed₁ cleanups₁ ::
        runProgram cfg s₂ newer streamed₂ cleanups₂ :: others) trace)

def Op.RegistersControl (runId : Text) (op : Op) : Prop :=
  ∃ epoch, op = .registerTaskControl runId epoch

def Op.RegistersLive (runId : Text) (op : Op) : Prop := ∃ s, op = .registerLive s runId

def Op.Requests (r : Request) (op : Op) : Prop :=
  ∃ requestedBy reason, op = .request r requestedBy reason

theorem mem_startProgram {cfg : Surroundings} {s : AgentState} {runId : Text} {streamed : Bool}
    {op : Op} (h : op ∈ startProgram cfg s runId streamed) :
    op = .beginGraphRun runId ∨ op.RegistersControl runId ∨ (∃ s', op = .save s') ∨
      op.RegistersLive runId := by
  rw [startProgram, List.mem_cons] at h
  rcases h with rfl | h
  · exact Or.inl rfl
  cases hinit : initForegroundEpochOnRun cfg s runId with
  | none =>
    rw [hinit] at h
    cases h
  | some s₁ =>
    rw [hinit] at h
    rw [List.mem_cons] at h
    rcases h with rfl | h
    · exact Or.inr (Or.inl ⟨_, rfl⟩)
    cases hbegin : beginRun cfg s₁ runId with
    | none =>
      rw [hbegin] at h
      cases h
    | some s₂ =>
      rw [hbegin] at h
      rw [List.mem_cons] at h
      rcases h with rfl | h
      · exact Or.inr (Or.inr (Or.inl ⟨s₂, rfl⟩))
      · cases streamed with
        | false => cases h
        | true => exact Or.inr (Or.inr (Or.inr ⟨s₂, List.mem_singleton.1 h⟩))

theorem mem_cleanups {runId : Text} {cleanups : ℕ} {op : Op}
    (h : op ∈ (List.replicate cleanups (endTaskGraphRun runId)).flatten) :
    op = .endGraphRun runId ∨ op = .clearLive ∨ op = .clearTaskControl := by
  obtain ⟨l, hl, hop⟩ := List.mem_flatten.1 h
  rw [List.eq_of_mem_replicate hl] at hop
  simpa [endTaskGraphRun] using hop

/-- A run registers under its own id only. -/
theorem registers_of_mem_runProgram {cfg : Surroundings} {s : AgentState} {runId : Text}
    {streamed : Bool} {cleanups : ℕ} {op : Op}
    (h : op ∈ runProgram cfg s runId streamed cleanups) {r : Text}
    (hop : op.RegistersControl r ∨ op.RegistersLive r) : r = runId := by
  rw [runProgram, List.mem_append] at h
  rcases h with h | h
  · rcases mem_startProgram h with rfl | ⟨epoch, rfl⟩ | ⟨s', rfl⟩ | ⟨s', rfl⟩ <;>
      rcases hop with ⟨x, hx⟩ | ⟨x, hx⟩ <;> cases hx <;> rfl
  · exfalso
    rcases mem_cleanups h with rfl | rfl | rfl <;> rcases hop with ⟨x, hx⟩ | ⟨x, hx⟩ <;> cases hx

theorem TwoRuns.registers {cfg : Surroundings} {older newer : Text} {trace : List Op}
    (h : TwoRuns cfg older newer trace) {op : Op} (hmem : op ∈ trace) {r : Text}
    (hop : op.RegistersControl r ∨ op.RegistersLive r) : r = older ∨ r = newer := by
  cases h with
  | intro s₁ s₂ streamed₁ streamed₂ cleanups₁ cleanups₂ others quiet h =>
    obtain ⟨p, hp, hop'⟩ := h.mem_iff.1 hmem
    rw [List.mem_cons, List.mem_cons] at hp
    rcases hp with rfl | rfl | hp
    · exact Or.inl (registers_of_mem_runProgram hop' hop)
    · exact Or.inr (registers_of_mem_runProgram hop' hop)
    · have hquiet := quiet p hp op hop'
      rcases hop with ⟨x, rfl⟩ | ⟨x, rfl⟩ <;> exact hquiet.elim

/-! ### What the newer run must not lose -/

/-- What happens before the newer run ends. -/
def untilEnd (newer : Text) (trace : List Op) : List Op :=
  trace.takeWhile fun op => op ≠ .endGraphRun newer

/-- The control handle is the run's own. -/
def World.HasControl (runId : Text) (w : World) : Prop := ∃ c ∈ w.control, c.runId = runId

/-- The live entry is the run's own. -/
def World.HasLive (runId : Text) (w : World) : Prop := ∃ e ∈ w.live, e.runId = some runId

/-- The call returned a handle; a worker's is made when it is not there. -/
def Accepted (w : World) (r : Request) : Prop := r.worker? = none → w.control.isSome = true

/-- The operation is a request that is accepted while the run is the active one. -/
def AcceptedFor (runId : Text) (r : Request) (w : World) (op : Op) : Prop :=
  op.Requests r ∧ w.isActive runId ∧ Accepted w r

/-- Until the newer run ends, its handle and its live entry are its own from where it registers them
    on, and every pause or cancel accepted for it is visible to all later checks. -/
structure Intact (cfg : Surroundings) (w : World) (newer : Text) (trace : List Op) : Prop where
  control : HeldFrom (World.step cfg) w (untilEnd newer trace)
    (fun _ op => op.RegistersControl newer) (World.HasControl newer)
  live : HeldFrom (World.step cfg) w (untilEnd newer trace)
    (fun _ op => op.RegistersLive newer) (World.HasLive newer)
  requests : ∀ r : Request, r.Stops →
    HeldFrom (World.step cfg) w (untilEnd newer trace) (AcceptedFor newer r) (Visible · r)

/-- What makes the flag of a request disappear: any cleanup, and any registration of a handle. -/
def Request.DroppedBy (r : Request) (op : Op) : Prop :=
  op = .clearTaskControl ∨ r.worker? = none ∧ ∃ runId, op.RegistersControl runId

/-- Until the newer run ends, the older run neither cleans up nor registers after it, and every
    accepted pause or cancel comes after the last cleanup and after the registration. -/
structure Undisturbed (cfg : Surroundings) (w : World) (older newer : Text) (trace : List Op) :
    Prop where
  control : NoneAfter (World.step cfg) w (untilEnd newer trace)
    (fun _ op => op.RegistersControl newer)
    (fun op => op = .clearTaskControl ∨ op.RegistersControl older)
  live : NoneAfter (World.step cfg) w (untilEnd newer trace)
    (fun _ op => op.RegistersLive newer) (fun op => op = .clearLive ∨ op.RegistersLive older)
  requests : ∀ r : Request, r.Stops →
    NoneAfter (World.step cfg) w (untilEnd newer trace) (AcceptedFor newer r) r.DroppedBy

variable {cfg : Surroundings}

/-! ### The registries along a run -/

theorem apply_runId (c : TaskControl) (r : Request) (requestedBy reason : Text) :
    (c.apply r requestedBy reason).runId = c.runId := by
  cases r <;> rfl

theorem hasControl_request {w : World} {runId : Text} (h : w.HasControl runId) (r : Request)
    (requestedBy reason : Text) : (w.request r requestedBy reason).HasControl runId := by
  obtain ⟨c, hc, hrun⟩ := h
  rw [Option.mem_def] at hc
  cases r with
  | pauseWorker worker => exact ⟨c, hc, hrun⟩
  | cancelWorker worker => exact ⟨c, hc, hrun⟩
  | _ => exact ⟨_, Option.mem_map_of_mem _ hc, (apply_runId ..).trans hrun⟩

/-- Only a cleanup and the registration of another run take the handle away. -/
theorem hasControl_step {w : World} {newer : Text} (h : w.HasControl newer) {op : Op}
    (hclear : op ≠ .clearTaskControl) (hreg : ∀ r, op.RegistersControl r → r = newer) :
    (w.step cfg op).HasControl newer := by
  rw [World.HasControl, step_control]
  cases op with
  | registerTaskControl r epoch => exact ⟨_, rfl, hreg r ⟨epoch, rfl⟩⟩
  | syncTaskControlEpoch epoch =>
    obtain ⟨c, hc, hrun⟩ := h
    exact ⟨{ c with foregroundEpoch := epoch.toNat }, Option.mem_map_of_mem _ hc, hrun⟩
  | request r requestedBy reason => exact hasControl_request h r requestedBy reason
  | clearTaskControl => exact absurd rfl hclear
  | _ => exact h

theorem hasLive_touchLive {w : World} {runId : Text} (h : w.HasLive runId) (s : AgentState) :
    (w.touchLive s).HasLive runId := by
  obtain ⟨e, he, hrun⟩ := h
  refine ⟨_, Option.mem_map_of_mem _ he, ?_⟩
  split_ifs <;> exact hrun

theorem hasLive_save {w : World} {runId : Text} (h : w.HasLive runId) (s : AgentState) :
    (w.save cfg s).HasLive runId := by
  rw [World.save]
  split_ifs
  · exact h
  · split
    · exact hasLive_touchLive (w := { w with row := _ }) h _
    · exact h

/-- Only a clear and the registration of another run take the live entry away. -/
theorem hasLive_step {w : World} {newer : Text} (h : w.HasLive newer) {op : Op}
    (hclear : op ≠ .clearLive) (hreg : ∀ r, op.RegistersLive r → r = newer) :
    (w.step cfg op).HasLive newer := by
  rw [World.HasLive, step_live]
  cases op with
  | registerLive s r => exact ⟨_, rfl, congrArg some (hreg r ⟨s, rfl⟩)⟩
  | touchLive s => exact hasLive_touchLive h s
  | clearLive => exact absurd rfl hclear
  | save s => exact hasLive_save h s
  | _ => exact h

/-! ### The flag of a request -/

/-- A request sets its flag on the handle it finds or makes. -/
theorem visible_request {w : World} {r : Request} (h : Accepted w r) (requestedBy reason : Text) :
    Visible (w.request r requestedBy reason) r := by
  cases r with
  | pauseWorker worker => exact ⟨_, PyDict.get?_set_self _ _ _, rfl⟩
  | cancelWorker worker => exact ⟨_, PyDict.get?_set_self _ _ _, rfl⟩
  | interruptStream =>
    obtain ⟨c, hc⟩ := Option.isSome_iff_exists.1 (h rfl)
    exact ⟨_, Option.mem_map_of_mem _ hc, rfl⟩
  | pause =>
    obtain ⟨c, hc⟩ := Option.isSome_iff_exists.1 (h rfl)
    exact ⟨_, Option.mem_map_of_mem _ hc, rfl⟩
  | cancel =>
    obtain ⟨c, hc⟩ := Option.isSome_iff_exists.1 (h rfl)
    exact ⟨_, Option.mem_map_of_mem _ hc, rfl⟩

/-- The flags of a handle that are set stay set. -/
structure TaskControl.Le (c c' : TaskControl) : Prop where
  interrupted : c.streamInterrupted = true → c'.streamInterrupted = true
  pause : c.pauseRequested = true → c'.pauseRequested = true
  cancel : c.cancelRequested = true → c'.cancelRequested = true

structure WorkerControl.Le (wc wc' : WorkerControl) : Prop where
  pause : wc.pauseRequested = true → wc'.pauseRequested = true
  cancel : wc.cancelRequested = true → wc'.cancelRequested = true

theorem le_apply (c : TaskControl) (r : Request) (requestedBy reason : Text) :
    c.Le (c.apply r requestedBy reason) := by
  cases r <;> constructor <;> simp [TaskControl.apply]

def ControlLe (w w' : World) : Prop := ∀ c ∈ w.control, ∃ c' ∈ w'.control, c.Le c'

def WorkersLe (w w' : World) : Prop :=
  ∀ worker wc, w.workers.get? worker = some wc →
    ∃ wc', w'.workers.get? worker = some wc' ∧ wc.Le wc'

theorem ControlLe.of_eq {w w' : World} (h : w'.control = w.control) : ControlLe w w' :=
  fun c hc => ⟨c, by rwa [h], ⟨id, id, id⟩⟩

theorem WorkersLe.of_eq {w w' : World} (h : w'.workers = w.workers) : WorkersLe w w' :=
  fun worker wc hwc => ⟨wc, by rwa [h], ⟨id, id⟩⟩

/-- A flag stays visible where the handles it may be on keep their flags. -/
theorem visible_mono {w w' : World} {r : Request} (hcontrol : r.worker? = none → ControlLe w w')
    (hworkers : WorkersLe w w') (h : Visible w r) : Visible w' r := by
  cases r with
  | interruptStream =>
    obtain ⟨c, hc, hflag⟩ := h
    obtain ⟨c', hc', hle⟩ := hcontrol rfl c hc
    exact ⟨c', hc', hle.interrupted hflag⟩
  | pause =>
    obtain ⟨c, hc, hflag⟩ := h
    obtain ⟨c', hc', hle⟩ := hcontrol rfl c hc
    exact ⟨c', hc', hle.pause hflag⟩
  | cancel =>
    obtain ⟨c, hc, hflag⟩ := h
    obtain ⟨c', hc', hle⟩ := hcontrol rfl c hc
    exact ⟨c', hc', hle.cancel hflag⟩
  | pauseWorker worker =>
    obtain ⟨wc, hwc, hflag⟩ := h
    obtain ⟨wc', hwc', hle⟩ := hworkers worker wc hwc
    exact ⟨wc', hwc', hle.pause hflag⟩
  | cancelWorker worker =>
    obtain ⟨wc, hwc, hflag⟩ := h
    obtain ⟨wc', hwc', hle⟩ := hworkers worker wc hwc
    exact ⟨wc', hwc', hle.cancel hflag⟩

/-- Setting a flag of one worker leaves every flag that is set. -/
theorem le_mutateWorker {workers : PyDict Text WorkerControl} {worker key : Text}
    {f : WorkerControl → WorkerControl} (hf : ∀ wc : WorkerControl, wc.Le (f wc))
    {wc : WorkerControl} (h : workers.get? key = some wc) :
    ∃ wc', (mutateWorker workers worker f).get? key = some wc' ∧ wc.Le wc' := by
  rw [mutateWorker, PyDict.get?_set]
  split_ifs with heq
  · subst heq
    refine ⟨_, rfl, ?_⟩
    rw [PyDict.getD, h]
    exact hf wc
  · exact ⟨wc, h, ⟨id, id⟩⟩

/-- No request takes a flag back. -/
theorem workersLe_request (w : World) (r : Request) (requestedBy reason : Text) :
    WorkersLe w (w.request r requestedBy reason) := by
  intro key wc hwc
  cases r with
  | pauseWorker worker =>
    refine le_mutateWorker ?_ hwc
    exact fun wc => ⟨fun _ => rfl, id⟩
  | cancelWorker worker =>
    refine le_mutateWorker ?_ hwc
    exact fun wc => ⟨id, fun _ => rfl⟩
  | _ => exact ⟨wc, hwc, ⟨id, id⟩⟩

theorem controlLe_request (w : World) (r : Request) (requestedBy reason : Text) :
    ControlLe w (w.request r requestedBy reason) := by
  intro c hc
  cases r with
  | pauseWorker worker => exact ⟨c, hc, ⟨id, id, id⟩⟩
  | cancelWorker worker => exact ⟨c, hc, ⟨id, id, id⟩⟩
  | _ => exact ⟨_, Option.mem_map_of_mem _ hc, le_apply ..⟩

theorem workersLe_step (w : World) {op : Op} (hclear : op ≠ .clearTaskControl) :
    WorkersLe w (w.step cfg op) := by
  cases op with
  | request r requestedBy reason => exact workersLe_request w r requestedBy reason
  | clearTaskControl => exact absurd rfl hclear
  | _ => exact .of_eq (step_workers w _)

theorem controlLe_step (w : World) {op : Op} (hclear : op ≠ .clearTaskControl)
    (hreg : ∀ runId, ¬ op.RegistersControl runId) : ControlLe w (w.step cfg op) := by
  cases op with
  | registerTaskControl runId epoch => exact absurd ⟨epoch, rfl⟩ (hreg runId)
  | syncTaskControlEpoch epoch =>
    exact fun c hc => ⟨_, Option.mem_map_of_mem _ hc, ⟨id, id, id⟩⟩
  | request r requestedBy reason => exact controlLe_request w r requestedBy reason
  | clearTaskControl => exact absurd rfl hclear
  | _ => exact .of_eq (step_control w _)

/-- Only a cleanup and, for the task, a registration take a flag back. -/
theorem visible_step {w : World} {r : Request} (h : Visible w r) {op : Op}
    (hop : ¬ r.DroppedBy op) : Visible (w.step cfg op) r := by
  rw [Request.DroppedBy, not_or, not_and] at hop
  refine visible_mono (fun htask => ?_) (workersLe_step w hop.1) h
  exact controlLe_step w hop.1 fun runId hreg => hop.2 htask ⟨runId, hreg⟩

/-- A fresh handle has no flag set, and after a cleanup there is no handle. -/
theorem not_visible_of_droppedBy (w : World) {r : Request} {op : Op} (hop : r.DroppedBy op) :
    ¬ Visible (w.step cfg op) r := by
  rcases hop with rfl | ⟨htask, runId, epoch, rfl⟩
  · cases r <;> simp [Visible, World.step]
  · cases r with
    | pauseWorker worker => cases htask
    | cancelWorker worker => cases htask
    | _ => simp [Visible, World.step]

/-! ### When the newer run loses nothing -/

theorem mem_of_mem_untilEnd {newer : Text} {trace : List Op} {op : Op}
    (h : op ∈ untilEnd newer trace) : op ∈ trace :=
  (List.takeWhile_prefix _).subset h

variable {w : World} {older newer : Text} {trace : List Op}

theorem control_kept_iff (hne : older ≠ newer) (hruns : TwoRuns cfg older newer trace) :
    HeldFrom (World.step cfg) w (untilEnd newer trace) (fun _ op => op.RegistersControl newer)
        (World.HasControl newer) ↔
      NoneAfter (World.step cfg) w (untilEnd newer trace) (fun _ op => op.RegistersControl newer)
        fun op => op = .clearTaskControl ∨ op.RegistersControl older := by
  refine heldFrom_iff w ?_ ?_ ?_
  · rintro v op ⟨epoch, rfl⟩
    exact ⟨_, rfl, rfl⟩
  · intro v op hmem hhas hkeep
    rw [not_or] at hkeep
    refine hasControl_step hhas hkeep.1 fun r hr => ?_
    rcases hruns.registers (mem_of_mem_untilEnd hmem) (Or.inl hr) with rfl | rfl
    · exact absurd hr hkeep.2
    · rfl
  · rintro v op (rfl | ⟨epoch, rfl⟩) ⟨c, hc, hrun⟩
    · cases hc
    · cases hc
      exact hne hrun

theorem live_kept_iff (hne : older ≠ newer) (hruns : TwoRuns cfg older newer trace) :
    HeldFrom (World.step cfg) w (untilEnd newer trace) (fun _ op => op.RegistersLive newer)
        (World.HasLive newer) ↔
      NoneAfter (World.step cfg) w (untilEnd newer trace) (fun _ op => op.RegistersLive newer)
        fun op => op = .clearLive ∨ op.RegistersLive older := by
  refine heldFrom_iff w ?_ ?_ ?_
  · rintro v op ⟨s, rfl⟩
    exact ⟨_, rfl, rfl⟩
  · intro v op hmem hhas hkeep
    rw [not_or] at hkeep
    refine hasLive_step hhas hkeep.1 fun r hr => ?_
    rcases hruns.registers (mem_of_mem_untilEnd hmem) (Or.inr hr) with rfl | rfl
    · exact absurd hr hkeep.2
    · rfl
  · rintro v op (rfl | ⟨s, rfl⟩) ⟨e, he, hrun⟩
    · cases he
    · cases he
      exact hne (Option.some.inj hrun)

theorem request_kept_iff (r : Request) :
    HeldFrom (World.step cfg) w (untilEnd newer trace) (AcceptedFor newer r) (Visible · r) ↔
      NoneAfter (World.step cfg) w (untilEnd newer trace) (AcceptedFor newer r) r.DroppedBy := by
  refine heldFrom_iff w ?_ (fun v op _ hvis hop => visible_step hvis hop)
    fun v op hop => not_visible_of_droppedBy v hop
  rintro v op ⟨⟨requestedBy, reason, rfl⟩, -, haccepted⟩
  exact visible_request haccepted requestedBy reason

/-! ### One run after the other -/

/-- A begin cleans nothing up and requests nothing. -/
theorem starts_of_mem_startProgram {s : AgentState} {runId : Text} {streamed : Bool} {op : Op}
    (h : op ∈ startProgram cfg s runId streamed) :
    op ≠ .clearTaskControl ∧ op ≠ .clearLive ∧ (∀ r, op ≠ .endGraphRun r) ∧
      ∀ r, ¬ op.Requests r := by
  rcases mem_startProgram h with rfl | ⟨epoch, rfl⟩ | ⟨s', rfl⟩ | ⟨s', rfl⟩ <;>
    simp [Op.Requests]

theorem not_requests_of_mem_runProgram {s : AgentState} {runId : Text} {streamed : Bool}
    {cleanups : ℕ} {op : Op} (h : op ∈ runProgram cfg s runId streamed cleanups) (r : Request) :
    ¬ op.Requests r := by
  rw [runProgram, List.mem_append] at h
  rcases h with h | h
  · exact (starts_of_mem_startProgram h).2.2.2 r
  · rcases mem_cleanups h with rfl | rfl | rfl <;> simp [Op.Requests]

/-- Quiet operations register nothing. -/
theorem Op.Quiet.not_registers {op : Op} (h : op.Quiet) :
    op ≠ .clearTaskControl ∧ ∀ r, ¬ (op.RegistersControl r ∨ op.RegistersLive r) := by
  refine ⟨?_, ?_⟩
  · rintro rfl
    exact h
  · rintro r (⟨x, rfl⟩ | ⟨x, rfl⟩) <;> exact h

/-- The first end of the newer run is that of its own first cleanup. -/
theorem untilEnd_sequential (cfg : Surroundings) (hne : older ≠ newer) (s₁ s₂ : AgentState)
    (streamed₁ streamed₂ : Bool) (cleanups₁ cleanups₂ : ℕ) {requests : List Op}
    (hrequests : .endGraphRun newer ∉ requests) :
    untilEnd newer (runProgram cfg s₁ older streamed₁ cleanups₁ ++
      (startProgram cfg s₂ newer streamed₂ ++
        (requests ++ (List.replicate cleanups₂ (endTaskGraphRun newer)).flatten))) =
      runProgram cfg s₁ older streamed₁ cleanups₁ ++
        (startProgram cfg s₂ newer streamed₂ ++ requests) := by
  have hfirst : ∀ op ∈ runProgram cfg s₁ older streamed₁ cleanups₁,
      decide (op ≠ .endGraphRun newer) = true := by
    intro op hop
    rw [runProgram, List.mem_append] at hop
    rcases hop with hop | hop
    · exact decide_eq_true ((starts_of_mem_startProgram hop).2.2.1 newer)
    · rcases mem_cleanups hop with rfl | rfl | rfl <;> simp [hne]
  have hsecond : ∀ op ∈ startProgram cfg s₂ newer streamed₂,
      decide (op ≠ .endGraphRun newer) = true :=
    fun op hop => decide_eq_true ((starts_of_mem_startProgram hop).2.2.1 newer)
  have hthird : ∀ op ∈ requests, decide (op ≠ .endGraphRun newer) = true := by
    intro op hop
    exact decide_eq_true fun heq => hrequests (heq ▸ hop)
  have hends : (List.replicate cleanups₂ (endTaskGraphRun newer)).flatten.takeWhile
      (fun op => decide (op ≠ .endGraphRun newer)) = [] := by
    cases cleanups₂ with
    | zero => rfl
    | succ n => simp [List.replicate_succ, endTaskGraphRun]
  rw [untilEnd, List.takeWhile_append_of_pos hfirst, List.takeWhile_append_of_pos hsecond,
    List.takeWhile_append_of_pos hthird, hends, List.append_nil]

/-- An older run that is over, its cleanups too, before the newer one begins disturbs nothing, as long
    as nothing else ends the newer run or clears its live entry. -/
theorem undisturbed_of_sequential (hne : older ≠ newer) (s₁ s₂ : AgentState)
    (streamed₁ streamed₂ : Bool) (cleanups₁ cleanups₂ : ℕ) {requests : List Op}
    (hrequests : ∀ op ∈ requests, op.Quiet ∧ op ≠ .clearLive ∧ op ≠ .endGraphRun newer) :
    Undisturbed cfg w older newer (runProgram cfg s₁ older streamed₁ cleanups₁ ++
      (startProgram cfg s₂ newer streamed₂ ++
        (requests ++ (List.replicate cleanups₂ (endTaskGraphRun newer)).flatten))) := by
  have huntil := untilEnd_sequential cfg hne s₁ s₂ streamed₁ streamed₂ cleanups₁ cleanups₂
    fun hmem => (hrequests _ hmem).2.2 rfl
  have hfirst : ∀ op ∈ runProgram cfg s₁ older streamed₁ cleanups₁,
      ¬ (op.RegistersControl newer ∨ op.RegistersLive newer) := by
    intro op hop hreg
    exact hne (registers_of_mem_runProgram hop hreg).symm
  have hafter : ∀ op ∈ startProgram cfg s₂ newer streamed₂ ++ requests,
      op ≠ .clearTaskControl ∧ op ≠ .clearLive ∧
        ¬ (op.RegistersControl older ∨ op.RegistersLive older) := by
    intro op hop
    rcases List.mem_append.1 hop with hop | hop
    · obtain ⟨hcontrol, hlive, -, -⟩ := starts_of_mem_startProgram hop
      refine ⟨hcontrol, hlive, fun hreg => ?_⟩
      have hrun : op ∈ runProgram cfg s₂ newer streamed₂ 0 := List.mem_append_left _ hop
      exact hne (registers_of_mem_runProgram hrun hreg)
    · obtain ⟨hquiet, hlive, -⟩ := hrequests op hop
      exact ⟨hquiet.not_registers.1, hlive, hquiet.not_registers.2 older⟩
  refine ⟨?_, ?_, fun r _ => ?_⟩
  · rw [huntil]
    refine noneAfter_of_split w (fun op hop _ hreg => hfirst op hop (Or.inl hreg)) ?_
    rintro op hop (hclear | hreg)
    · exact (hafter op hop).1 hclear
    · exact (hafter op hop).2.2 (Or.inl hreg)
  · rw [huntil]
    refine noneAfter_of_split w (fun op hop _ hreg => hfirst op hop (Or.inr hreg)) ?_
    rintro op hop (hclear | hreg)
    · exact (hafter op hop).2.1 hclear
    · exact (hafter op hop).2.2 (Or.inr hreg)
  · rw [huntil, ← List.append_assoc]
    refine noneAfter_of_split w (fun op hop v hreq => ?_) ?_
    · rcases List.mem_append.1 hop with hop | hop
      · exact not_requests_of_mem_runProgram hop r hreq.1
      · exact (starts_of_mem_startProgram hop).2.2.2 r hreq.1
    · rintro op hop (hclear | ⟨-, runId, hreg⟩)
      · exact (hrequests op hop).1.not_registers.1 hclear
      · exact (hrequests op hop).1.not_registers.2 runId (Or.inl hreg)

/-- CORRECT when it can be: along every interleaving of two runs of one task with requests, saves and
    whatever else goes on, the handles of the newer run and the requests made of it are kept until it
    ends exactly when the older run's cleanup and registrations, and for the requests the newer
    run's own registration too, are over before. -/
theorem handles_intact_iff (cfg : Surroundings) (w : World) (older newer : Text) (trace : List Op)
    (hne : older ≠ newer) (hruns : TwoRuns cfg older newer trace) :
    Intact cfg w newer trace ↔ Undisturbed cfg w older newer trace := by
  constructor
  · rintro ⟨hcontrol, hlive, hrequests⟩
    exact ⟨(control_kept_iff hne hruns).1 hcontrol, (live_kept_iff hne hruns).1 hlive,
      fun r hstops => (request_kept_iff r).1 (hrequests r hstops)⟩
  · rintro ⟨hcontrol, hlive, hrequests⟩
    exact ⟨(control_kept_iff hne hruns).2 hcontrol, (live_kept_iff hne hruns).2 hlive,
      fun r hstops => (request_kept_iff r).2 (hrequests r hstops)⟩

/-- What the user sends while both runs are there. -/
def pauseRequest : List Op := [.request .pause "web".toList "user_requested".toList]

/-- The streamed run of the second turn, then that of the third. -/
def olderProgram : List Op := runProgram idleProcess (secondTurn .new) olderRun true 2

def newerStart : List Op := startProgram idleProcess thirdTurn newerRun true

/-- The older run's cleanups, before the newer run begins, leave everything to it. -/
theorem handles_intact_after_cleanup :
    Intact idleProcess {} newerRun
      (olderProgram ++ (newerStart ++ (pauseRequest ++ (endTaskGraphRun newerRun ++ [])))) := by
  have hruns : TwoRuns idleProcess olderRun newerRun
      (olderProgram ++ (newerStart ++ (pauseRequest ++ (endTaskGraphRun newerRun ++ [])))) := by
    refine .intro (secondTurn .new) thirdTurn true true 2 1 [pauseRequest ++ []]
      (by simp [pauseRequest, Op.Quiet]) ?_
    have hdone : Interleaves [[], [], []] ([] : List Op) := .done (by simp)
    have hends := Interleaves.block [[]] [[]] (endTaskGraphRun newerRun) hdone
    have hpause := Interleaves.block [[], endTaskGraphRun newerRun ++ []] [] pauseRequest hends
    have hnewer := Interleaves.block [[]] [pauseRequest ++ []] newerStart hpause
    have holder := Interleaves.block [] [newerStart ++ (endTaskGraphRun newerRun ++ []),
      pauseRequest ++ []] olderProgram hnewer
    rw [List.append_nil] at holder
    exact holder
  refine (handles_intact_iff idleProcess {} olderRun newerRun _ (by decide) hruns).2 ?_
  exact undisturbed_of_sequential (by decide) (secondTurn .new) thirdTurn true true 2 1
    (by simp [pauseRequest, Op.Quiet])

/-- The same run, its cleanups delayed until the newer one has registered and was asked to pause. -/
def olderStart : List Op := startProgram idleProcess (secondTurn .new) olderRun true

def olderCleanups : List Op := (List.replicate 2 (endTaskGraphRun olderRun)).flatten

/-- A cleanup of the older run that lands after the newer run has registered drops the newer run's
    handle, and with it a pause that was accepted for the newer run. -/
theorem late_cleanup_drops :
    let trace := olderStart ++ (newerStart ++ (pauseRequest ++
      (olderCleanups ++ (endTaskGraphRun newerRun ++ []))))
    TwoRuns idleProcess olderRun newerRun trace ∧ ¬ Intact idleProcess {} newerRun trace := by
  refine ⟨?_, fun hintact => ?_⟩
  · refine .intro (secondTurn .new) thirdTurn true true 2 1 [pauseRequest ++ []]
      (by simp [pauseRequest, Op.Quiet]) ?_
    have hdone : Interleaves [[], [], []] ([] : List Op) := .done (by simp)
    have hends := Interleaves.block [[]] [[]] (endTaskGraphRun newerRun) hdone
    have hcleanups := Interleaves.block [] [endTaskGraphRun newerRun ++ [], []] olderCleanups hends
    have hpause := Interleaves.block [olderCleanups ++ [], endTaskGraphRun newerRun ++ []] []
      pauseRequest hcleanups
    have hnewer := Interleaves.block [olderCleanups ++ []] [pauseRequest ++ []] newerStart hpause
    have holder := Interleaves.block [] [newerStart ++ (endTaskGraphRun newerRun ++ []),
      pauseRequest ++ []] olderStart hnewer
    rw [List.append_nil] at holder
    exact holder
  · have hprefix : (olderStart ++ newerStart) ++ .request .pause "web".toList
        "user_requested".toList :: olderCleanups <+: untilEnd newerRun (olderStart ++
          (newerStart ++ (pauseRequest ++ (olderCleanups ++ (endTaskGraphRun newerRun ++ []))))) :=
      ⟨[], by decide +kernel⟩
    have hruns : (World.run idleProcess {} (olderStart ++ newerStart)).isActive newerRun ∧
        (World.run idleProcess {} (olderStart ++ newerStart)).control.isSome = true ∧
        (World.run idleProcess {} ((olderStart ++ newerStart) ++ .request .pause
          "web".toList "user_requested".toList :: olderCleanups)).control = none := by
      decide +kernel
    obtain ⟨hactive, haccepted, hcontrol⟩ := hruns
    obtain ⟨c, hc, -⟩ := hintact.requests .pause (by decide) _ _ _ hprefix
      ⟨⟨_, _, rfl⟩, hactive, fun _ => haccepted⟩
    change c ∈ (World.run idleProcess {} _).control at hc
    rw [hcontrol] at hc
    cases hc

end AgentLangraph.Run
