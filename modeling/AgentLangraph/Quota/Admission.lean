import AgentLangraph.Quota.Usage
import AgentLangraph.Lib.Party

/-! Admission of the tasks of a tenant (`start_task` and `stream_task` of `graph_runner.py`).
    `start_task` asks the quota, counts the task in and, in a `finally`, out; `stream_task` runs the
    graph without asking. Every statement of a task is a step that may raise, and the steps of the
    tasks come in any order.

        arrived ─check─▶ checked ─count in─▶ started ─▶ admitted ─▶ executing ─▶ ending ─▶ finishing
                                               └───── no finally ─────┘   └─ finally ─┘   count out -/

namespace AgentLangraph.Quota
open PyText Trace Party

structure Config where
  /-- `MULTI_TENANT_ENABLED`. -/
  enabled : Bool
  limits : TenantQuotaLimits
  tenant : Text

/-- Which statement of the task comes next. -/
inductive Phase
  | arrived
  /-- `require_quota` has passed. -/
  | checked
  /-- Past the quota; the metrics, `_begin_task_graph_run` and the save come next. -/
  | started
  /-- In the `try`, before the slot. -/
  | admitted
  | executing
  /-- In the `finally`, before `_end_task_graph_run`. -/
  | ending
  | finishing
  | returned
  deriving DecidableEq

structure Task where
  /-- A call of `stream_task`. -/
  stream : Bool
  phase : Phase := .arrived
  /-- How often the task was counted in, and out. -/
  started : ℕ := 0
  finished : ℕ := 0
  deriving DecidableEq

structure Office where
  tasks : List Task := []
  backend : Backend := .empty
  deriving DecidableEq

inductive Event
  | call (stream : Bool)
  /-- The next statement of a task, on a day; a statement that raises has no effect. -/
  | advance (i : ℕ) (day : Text) (raises : Bool)
  deriving DecidableEq

variable (cfg : Config)

def Task.at (t : Task) (phase : Phase) : Task := { t with phase := phase }

def visitAt (day : Text) (method : Method) : Visit :=
  { tenant := cfg.tenant, day := day, method := method }

/-- `stream_task`. -/
def Task.nextOfStream (t : Task) (raises : Bool) : Task :=
  match t.phase with
  | .arrived => if raises then t.at .returned else t.at .executing
  | _ => t.at .returned

/-- `start_task`. -/
def Task.nextOfStart (t : Task) (b : Backend) (day : Text) (raises : Bool) : Task × Backend :=
  match t.phase with
  | .arrived =>
    if raises then (t.at .returned, b)
    else if cfg.enabled then
      let allowed := (b.get cfg.tenant day).allows .tasks 1 cfg.limits
      (t.at (if allowed then .checked else .returned), b.visit (visitAt cfg day .look))
    else (t.at .started, b)
  | .checked =>
    if raises then (t.at .returned, b)
    else ({ t with phase := .started, started := t.started + 1 },
      b.visit (visitAt cfg day .taskStarted))
  | .started => (t.at (if raises then .returned else .admitted), b)
  | .admitted => (t.at (if raises then .ending else .executing), b)
  | .executing => (t.at .ending, b)
  | .ending => (t.at (if raises ∨ ¬ cfg.enabled then .returned else .finishing), b)
  | .finishing =>
    if raises then (t.at .returned, b)
    else ({ t with phase := .returned, finished := t.finished + 1 },
      b.visit (visitAt cfg day .taskFinished))
  | .returned => (t, b)

def Task.next (t : Task) (b : Backend) (day : Text) (raises : Bool) : Task × Backend :=
  if t.stream then (t.nextOfStream raises, b) else t.nextOfStart cfg b day raises

def Office.step (s : Office) : Event → Office
  | .call stream => { s with tasks := s.tasks ++ [{ stream := stream }] }
  | .advance i day raises =>
    match s.tasks[i]? with
    | none => s
    | some t =>
      let next := t.next cfg s.backend day raises
      { tasks := s.tasks.set i next.1, backend := next.2 }

/-! ### What the quota is for -/

def Task.executing (t : Task) : Bool := t.phase = .executing

/-- The task runs the graph without having asked. -/
def Task.streaming (t : Task) : Bool := t.stream && t.executing

/-- The task has been counted in, and its call has not returned. -/
def Task.holding (t : Task) : Bool :=
  cfg.enabled && !t.stream &&
    t.phase ∈ [.started, .admitted, .executing, .ending, .finishing]

def Office.holding (s : Office) : ℕ := s.tasks.countP (Task.holding cfg)

def Office.streaming (s : Office) : ℕ := s.tasks.countP Task.streaming

/-- No more tasks execute than the tenant may have at a time. -/
def Office.Bounded (s : Office) : Prop :=
  cfg.enabled → 0 < cfg.limits.maxConcurrentTasks →
    (s.tasks.countP Task.executing : ℤ) ≤ cfg.limits.maxConcurrentTasks

/-- A call that has returned was counted out as often as in. -/
def Office.Matched (s : Office) : Prop :=
  ∀ t ∈ s.tasks, t.phase = .returned → t.finished = t.started

/-! ### What a statement does -/

def Office.stored (s : Office) : ℕ := s.backend.stored (tenantKey cfg.tenant)

variable {cfg}

theorem holding_of_stream {t : Task} (h : t.stream = true) : t.holding cfg = false := by
  simp [Task.holding, h]

theorem streaming_of_start {t : Task} (h : t.stream = false) : t.streaming = false := by
  simp [Task.streaming, h]

theorem streaming_of_phase {t : Task} (h : t.phase ≠ .executing) : t.streaming = false := by
  simp [Task.streaming, Task.executing, h]

/-- Everything a statement can do: keep the books, look at the quota, count the task in or out, or
    let a stream begin. -/
inductive Move (cfg : Config) (t : Task) (b : Backend) (day : Text) (raises : Bool) :
    Task → Backend → Prop
  | quiet {t' : Task} (hholding : t'.holding cfg → t.holding cfg)
    (hstreaming : t'.streaming → t.streaming) : Move cfg t b day raises t' b
  | look {t' : Task} (hstream : t.stream = false) (hphase : t.phase = .arrived)
    (hraises : raises = false) (hholding : t'.holding cfg = false)
    (hstreaming : t'.streaming = false) :
    Move cfg t b day raises t' (b.visit (visitAt cfg day .look))
  | countIn {t' : Task} (hstream : t.stream = false) (hphase : t.phase = .checked)
    (hraises : raises = false) (hholding : t.holding cfg = false)
    (hstreaming : t'.streaming = false) :
    Move cfg t b day raises t' (b.visit (visitAt cfg day .taskStarted))
  | countOut {t' : Task} (hstream : t.stream = false) (hphase : t.phase = .finishing)
    (hraises : raises = false) (hholding : t.holding cfg = cfg.enabled)
    (hholding' : t'.holding cfg = false) (hstreaming : t'.streaming = false) :
    Move cfg t b day raises t' (b.visit (visitAt cfg day .taskFinished))
  | stream {t' : Task} (hstream : t.stream = true) (hphase : t.phase = .arrived)
    (hraises : raises = false) (hholding : t'.holding cfg = false)
    (hstreaming : t.streaming = false) : Move cfg t b day raises t' b

theorem stream_nextOfStream (t : Task) (raises : Bool) :
    (t.nextOfStream raises).stream = t.stream := by
  rw [Task.nextOfStream]
  cases t.phase with
  | arrived => cases raises <;> rfl
  | _ => rfl

theorem move_nextOfStream {t : Task} (hstream : t.stream = true) (b : Backend) (day : Text)
    (raises : Bool) : Move cfg t b day raises (t.nextOfStream raises) b := by
  have hholding : (t.nextOfStream raises).holding cfg = false :=
    holding_of_stream ((stream_nextOfStream t raises).trans hstream)
  by_cases hbegins : t.phase = .arrived ∧ raises = false
  · have hstreaming : t.streaming = false := streaming_of_phase (by rw [hbegins.1]; simp)
    exact .stream hstream hbegins.1 hbegins.2 hholding hstreaming
  · have hstreaming : (t.nextOfStream raises).streaming = false := by
      refine streaming_of_phase ?_
      rw [Task.nextOfStream]
      cases hphase : t.phase with
      | arrived =>
        have hraises : raises = true := by simpa [hphase] using hbegins
        simp [hraises, Task.at]
      | _ => simp [Task.at]
    exact .quiet (by simp [hholding]) (by simp [hstreaming])

theorem move_nextOfStart {t : Task} (hstream : t.stream = false) (b : Backend) (day : Text)
    (raises : Bool) : Move cfg t b day raises (t.nextOfStart cfg b day raises).1
      (t.nextOfStart cfg b day raises).2 := by
  have hat : ∀ phase, (t.at phase).streaming = false := fun phase => streaming_of_start hstream
  -- A step within the span of the `try` and its surroundings changes nothing that is counted.
  have hquiet : ∀ phase, ((t.at phase).holding cfg → t.holding cfg) →
      Move cfg t b day raises (t.at phase) b := fun phase hholding =>
    .quiet hholding (by simp [hat phase])
  have hreturned : (t.at .returned).holding cfg = false := by simp [Task.holding, Task.at]
  cases hphase : t.phase with
  | arrived =>
    simp only [Task.nextOfStart, hphase]
    cases raises with
    | true => exact hquiet .returned (by simp [hreturned])
    | false =>
      by_cases henabled : cfg.enabled
      · rw [if_neg Bool.false_ne_true, if_pos henabled]
        refine .look hstream hphase rfl ?_ (hat _)
        dsimp only
        split_ifs <;> simp [Task.holding, Task.at]
      · rw [if_neg Bool.false_ne_true, if_neg henabled]
        exact hquiet .started (by simp [Task.holding, henabled])
  | checked =>
    simp only [Task.nextOfStart, hphase]
    cases raises with
    | true => exact hquiet .returned (by simp [hreturned])
    | false =>
      rw [if_neg Bool.false_ne_true]
      exact .countIn hstream hphase rfl (by simp [Task.holding, hphase])
        (streaming_of_start hstream)
  | finishing =>
    simp only [Task.nextOfStart, hphase]
    cases raises with
    | true => exact hquiet .returned (by simp [hreturned])
    | false =>
      rw [if_neg Bool.false_ne_true]
      exact .countOut hstream hphase rfl (by simp [Task.holding, hstream, hphase])
        (by simp [Task.holding]) (streaming_of_start hstream)
  | returned =>
    simp only [Task.nextOfStart, hphase]
    exact .quiet id id
  | _ =>
    simp only [Task.nextOfStart, hphase]
    refine hquiet _ fun _ => ?_
    simp_all [Task.holding, Task.at]

variable (cfg) in
theorem move_next (t : Task) (b : Backend) (day : Text) (raises : Bool) :
    Move cfg t b day raises (t.next cfg b day raises).1 (t.next cfg b day raises).2 := by
  rw [Task.next]
  cases hstream : t.stream with
  | true => exact move_nextOfStream hstream b day raises
  | false => exact move_nextOfStart hstream b day raises

/-! ### Who is counted in is counted out -/

variable (cfg) in
/-- The statement raises between the count in and the `try`, or in the `finally`. -/
def Task.leaks (t : Task) (raises : Bool) : Bool :=
  raises && t.holding cfg && t.phase ∈ [.started, .ending, .finishing]

variable (cfg) in
def KeepsCount (s : Office) : Event → Prop
  | .call _ => True
  | .advance i _ raises => ∀ t ∈ s.tasks[i]?, ¬ t.leaks cfg raises

variable (cfg) in
/-- A task is counted in once more than out exactly while it holds. -/
structure Task.Sound (t : Task) : Prop where
  balance : t.started = t.finished + one (t.holding cfg)
  enabled : t.phase = .checked ∨ t.phase = .finishing → cfg.enabled

theorem Task.Sound.matched {t : Task} (h : t.Sound cfg) (hreturned : t.phase = .returned) :
    t.finished = t.started := by
  have hholding : t.holding cfg = false := by simp [Task.holding, hreturned]
  have hbalance := h.balance
  rw [hholding] at hbalance
  exact hbalance.symm

theorem Task.Sound.at {t : Task} (h : t.Sound cfg) {phase : Phase}
    (hholding : (t.at phase).holding cfg = t.holding cfg)
    (henabled : phase = .checked ∨ phase = .finishing → cfg.enabled) : (t.at phase).Sound cfg :=
  ⟨by rw [hholding]; exact h.balance, henabled⟩

theorem sound_nextOfStream {t : Task} (h : t.Sound cfg) (hstream : t.stream = true)
    (raises : Bool) : (t.nextOfStream raises).Sound cfg := by
  have hat : ∀ phase, phase ≠ .checked → phase ≠ .finishing → (t.at phase).Sound cfg := by
    intro phase hchecked hfinishing
    refine h.at ?_ fun hphase => ?_
    · rw [holding_of_stream hstream, holding_of_stream (t := t.at phase) hstream]
    · rcases hphase with rfl | rfl <;> contradiction
  rw [Task.nextOfStream]
  cases t.phase with
  | arrived => cases raises <;> exact hat _ (by simp) (by simp)
  | _ => exact hat _ (by simp) (by simp)

theorem sound_nextOfStart {t : Task} (h : t.Sound cfg) (hstream : t.stream = false) (b : Backend)
    (day : Text) {raises : Bool} (hleaks : ¬ t.leaks cfg raises) :
    (t.nextOfStart cfg b day raises).1.Sound cfg := by
  have hquiet : ∀ phase, (t.at phase).holding cfg = t.holding cfg →
      (phase = .checked ∨ phase = .finishing → cfg.enabled) → (t.at phase).Sound cfg :=
    fun _ => h.at
  cases hphase : t.phase with
  | arrived =>
    simp only [Task.nextOfStart, hphase]
    split_ifs with hraises henabled hallowed
    · exact hquiet _ (by simp [Task.holding, Task.at, hphase]) (by simp)
    · exact hquiet _ (by simp [Task.holding, Task.at, hphase]) fun _ => henabled
    · exact hquiet _ (by simp [Task.holding, Task.at, hphase]) (by simp)
    · exact hquiet _ (by simp [Task.holding, Task.at, henabled]) (by simp)
  | checked =>
    have henabled := h.enabled (Or.inl hphase)
    have hbalance := h.balance
    simp only [Task.nextOfStart, hphase]
    split_ifs
    · exact hquiet _ (by simp [Task.holding, Task.at, hphase]) (by simp)
    · refine ⟨?_, by simp⟩
      simp only [Task.holding, henabled, hstream, hphase] at hbalance ⊢
      simpa using hbalance
  | started =>
    simp only [Task.nextOfStart, hphase]
    have hraises : t.holding cfg = true → raises = false := by
      intro hholding
      simpa [Task.leaks, hholding, hphase] using hleaks
    cases raises with
    | false => exact hquiet _ (by simp [Task.holding, Task.at, hphase]) (by simp)
    | true =>
      have hholding : t.holding cfg = false := by
        by_contra hne
        exact absurd (hraises (by simpa using hne)) (by simp)
      exact hquiet _ (by rw [hholding]; simp [Task.holding, Task.at]) (by simp)
  | ending =>
    simp only [Task.nextOfStart, hphase]
    by_cases hends : raises = true ∨ ¬ cfg.enabled
    · rw [if_pos hends]
      have hholding : t.holding cfg = false := by
        rcases hends with hraises | henabled
        · simpa [Task.leaks, hraises, hphase] using hleaks
        · simp [Task.holding, henabled]
      exact hquiet _ (by rw [hholding]; simp [Task.holding, Task.at]) (by simp)
    · rw [if_neg hends]
      have henabled : cfg.enabled := not_not.1 (not_or.1 hends).2
      exact hquiet _ (by simp [Task.holding, Task.at, hphase]) fun _ => henabled
  | finishing =>
    have henabled := h.enabled (Or.inr hphase)
    have hholding : t.holding cfg = true := by simp [Task.holding, henabled, hstream, hphase]
    have hraises : raises = false := by simpa [Task.leaks, hholding, hphase] using hleaks
    have hbalance := h.balance
    simp only [Task.nextOfStart, hphase, hraises]
    refine ⟨?_, by simp⟩
    rw [hholding] at hbalance
    simpa [Task.holding] using hbalance
  | returned =>
    simp only [Task.nextOfStart, hphase]
    exact h
  | admitted =>
    simp only [Task.nextOfStart, hphase]
    cases raises <;> exact hquiet _ (by simp [Task.holding, Task.at, hphase]) (by simp)
  | executing =>
    simp only [Task.nextOfStart, hphase]
    exact hquiet _ (by simp [Task.holding, Task.at, hphase]) (by simp)

theorem sound_next {t : Task} (h : t.Sound cfg) (b : Backend) (day : Text) {raises : Bool}
    (hleaks : ¬ t.leaks cfg raises) : (t.next cfg b day raises).1.Sound cfg := by
  rw [Task.next]
  cases hstream : t.stream with
  | true => exact sound_nextOfStream h hstream raises
  | false => exact sound_nextOfStart h hstream b day hleaks

/-- A task that leaks returns with a count that nobody takes back. -/
theorem leaked_next {t : Task} (h : t.Sound cfg) (b : Backend) (day : Text) {raises : Bool}
    (hleaks : t.leaks cfg raises) :
    (t.next cfg b day raises).1.phase = .returned ∧
      (t.next cfg b day raises).1.finished ≠ (t.next cfg b day raises).1.started := by
  have hbalance := h.balance
  simp only [Task.leaks, Bool.and_eq_true, decide_eq_true_eq] at hleaks
  obtain ⟨⟨hraises, hholding⟩, hphase⟩ := hleaks
  have hstream : t.stream = false := by
    by_contra hne
    rw [holding_of_stream (by simpa using hne)] at hholding
    cases hholding
  rw [hholding, one_true] at hbalance
  simp only [List.mem_cons, List.not_mem_nil, or_false] at hphase
  have hreturned : (t.next cfg b day raises).1 = t.at .returned := by
    rw [Task.next, hstream, if_neg Bool.false_ne_true]
    rcases hphase with hphase | hphase | hphase <;> simp [Task.nextOfStart, hphase, hraises]
  rw [hreturned]
  exact ⟨rfl, by simp only [Task.at]; omega⟩

theorem tasks_advance {s : Office} {i : ℕ} {t : Task} (h : s.tasks[i]? = some t) (day : Text)
    (raises : Bool) : s.step cfg (.advance i day raises) =
      { tasks := s.tasks.set i (t.next cfg s.backend day raises).1
        backend := (t.next cfg s.backend day raises).2 } := by
  simp only [Office.step, h]

theorem step_advance_none {s : Office} {i : ℕ} (h : s.tasks[i]? = none) (day : Text)
    (raises : Bool) : s.step cfg (.advance i day raises) = s := by
  simp only [Office.step, h]

variable (cfg) in
def Office.Sound (s : Office) : Prop := ∀ t ∈ s.tasks, t.Sound cfg

theorem Office.Sound.matched {s : Office} (h : s.Sound cfg) : s.Matched := fun t ht =>
  (h t ht).matched

theorem Office.Sound.step {s : Office} (h : s.Sound cfg) {e : Event} (hkeeps : KeepsCount cfg s e) :
    (s.step cfg e).Sound cfg := by
  cases e with
  | call stream =>
    intro t ht
    rcases List.mem_append.1 ht with ht | ht
    · exact h t ht
    · rw [List.mem_singleton.1 ht]
      exact ⟨by simp [Task.holding], by simp⟩
  | advance i day raises =>
    cases hi : s.tasks[i]? with
    | none =>
      rw [step_advance_none hi]
      exact h
    | some t =>
      rw [tasks_advance hi]
      have hleaks : ¬ t.leaks cfg raises := hkeeps t hi
      exact forall_set h (sound_next (h t (List.mem_of_getElem? hi)) s.backend day hleaks)

theorem matched_iff_keepsCount {s : Office} (h : s.Sound cfg) (e : Event) :
    (s.step cfg e).Matched ↔ KeepsCount cfg s e := by
  constructor
  · intro hmatched
    cases e with
    | call stream => trivial
    | advance i day raises =>
      intro t hi hleaks
      have hi : s.tasks[i]? = some t := hi
      obtain ⟨hreturned, hne⟩ :=
        leaked_next (h t (List.mem_of_getElem? hi)) s.backend day hleaks
      obtain ⟨hlt, -⟩ := List.getElem?_eq_some_iff.1 hi
      refine hne (hmatched _ ?_ hreturned)
      rw [tasks_advance hi]
      exact List.mem_set hlt _
  · intro hkeeps
    exact (h.step hkeeps).matched

/-! ### The bound -/

variable (cfg) in
/-- The record is of the day, or no task holds. -/
def Office.SameDay (s : Office) (day : Text) (held : ℕ) : Prop :=
  s.backend.isOf (tenantKey cfg.tenant) day ∨ s.holding cfg ≤ held

variable (cfg) in
/-- The quota has room for one more task, the streams counted. -/
def Office.HasRoom (s : Office) (day : Text) : Prop :=
  (s.backend.active cfg.tenant day + s.streaming + 1 : ℤ) ≤ cfg.limits.maxConcurrentTasks

variable (cfg) in
/-- The quota is asked on the day of its record while a task holds, and when a task is counted in or
    a stream begins it still has room, the streams counted. -/
def Office.AdmitsTask (s : Office) (day : Text) (t : Task) : Prop :=
  match t.stream, t.phase with
  | false, .arrived => s.SameDay cfg day 0
  | false, .checked => s.SameDay cfg day 0 ∧ s.HasRoom cfg day
  | false, .finishing => s.SameDay cfg day 1
  | true, .arrived => s.SameDay cfg day 0 ∧ s.HasRoom cfg day
  | _, _ => True

variable (cfg) in
def Office.Admits (s : Office) : Event → Prop
  | .advance i day false => ∀ t ∈ s.tasks[i]?, s.AdmitsTask cfg day t
  | _ => True

instance (s : Office) (day : Text) (held : ℕ) : Decidable (s.SameDay cfg day held) :=
  inferInstanceAs (Decidable (_ ∨ _))

instance (s : Office) (day : Text) : Decidable (s.HasRoom cfg day) :=
  inferInstanceAs (Decidable (_ ≤ _))

instance (s : Office) (day : Text) (t : Task) : Decidable (s.AdmitsTask cfg day t) := by
  unfold Office.AdmitsTask
  split <;> infer_instance

instance (s : Office) (e : Event) : Decidable (s.Admits cfg e) := by
  unfold Office.Admits
  split <;> infer_instance

variable (cfg) in
/-- The record counts whoever holds, and with the streams they are within the limit. -/
structure Office.Fits (s : Office) : Prop where
  counted : s.holding cfg ≤ s.stored cfg
  within : (s.holding cfg + s.streaming : ℤ) ≤ cfg.limits.maxConcurrentTasks

theorem Office.Fits.bounded {s : Office} (h : s.Fits cfg) (henabled : cfg.enabled) :
    (s.tasks.countP Task.executing : ℤ) ≤ cfg.limits.maxConcurrentTasks := by
  have hsplit : ∀ l : List Task, l.countP Task.executing ≤
      l.countP (Task.holding cfg) + l.countP Task.streaming := by
    intro l
    induction l with
    | nil => exact le_rfl
    | cons t l ih =>
      rw [List.countP_cons, List.countP_cons, List.countP_cons]
      by_cases hexecuting : t.executing
      · have hphase : t.phase = .executing := by simpa [Task.executing] using hexecuting
        cases hstream : t.stream <;>
          simp [Task.holding, Task.streaming, hexecuting, henabled, hstream, hphase] <;> omega
      · rw [if_neg hexecuting]
        omega
  have hle := hsplit s.tasks
  have hwithin := h.within
  rw [Office.holding, Office.streaming] at hwithin
  omega

/-- On the day of the record the report counts whoever holds, on another day nearly nobody does. -/
theorem Office.Fits.holding_le {s : Office} (h : s.Fits cfg) {day : Text} {held : ℕ}
    (hday : s.SameDay cfg day held) :
    s.holding cfg ≤ max (s.backend.active cfg.tenant day) held := by
  rw [Backend.active_eq]
  rcases hday with hday | hheld
  · rw [if_pos hday]
    exact h.counted.trans (le_max_left _ _)
  · exact hheld.trans (le_max_right _ _)

variable (cfg) in
theorem stored_visitAt (b : Backend) (day : Text) {m : Method}
    (hm : b.visit (visitAt cfg day m) = b.touch cfg.tenant day m.change) :
    (b.visit (visitAt cfg day m)).stored (tenantKey cfg.tenant) =
      m.count (b.active cfg.tenant day) := by
  rw [hm]
  exact b.stored_touch cfg.tenant day m

theorem Office.Fits.advance {s : Office} (h : s.Fits cfg) (henabled : cfg.enabled) {i : ℕ}
    {t : Task} (hi : s.tasks[i]? = some t) {day : Text} {raises : Bool}
    (hadmits : s.Admits cfg (.advance i day raises)) :
    (s.step cfg (.advance i day raises)).Fits cfg := by
  have hcounted := h.counted
  have hwithin := h.within
  have hholding := countP_set (Task.holding cfg) (t.next cfg s.backend day raises).1 hi
  have hstreaming := countP_set Task.streaming (t.next cfg s.backend day raises).1 hi
  have hmove := move_next cfg t s.backend day raises
  rw [tasks_advance hi]
  generalize (t.next cfg s.backend day raises).1 = t' at *
  generalize (t.next cfg s.backend day raises).2 = b' at *
  cases hmove with
  | quiet hheld hstreamed =>
    have hheld := one_mono hheld
    have hstreamed := one_mono hstreamed
    refine ⟨?_, ?_⟩ <;> simp only [Office.holding, Office.streaming, Office.stored] at * <;> omega
  | look hstream hphase hraises hheld hstreamed =>
    subst hraises
    have hday := hadmits t hi
    rw [Office.AdmitsTask, hstream, hphase] at hday
    have hle := h.holding_le hday
    have hstored := stored_visitAt cfg s.backend day (m := .look) rfl
    rw [hheld, one_false] at hholding
    rw [hstreamed, one_false] at hstreaming
    refine ⟨?_, ?_⟩ <;>
      simp only [Office.holding, Office.streaming, Office.stored, Method.count] at * <;> omega
  | countIn hstream hphase hraises hheld hstreamed =>
    subst hraises
    have hroom := hadmits t hi
    rw [Office.AdmitsTask, hstream, hphase, Office.HasRoom] at hroom
    have hle := h.holding_le hroom.1
    have hstored := stored_visitAt cfg s.backend day (m := .taskStarted) rfl
    have hone := one_le_one (t'.holding cfg)
    rw [hheld, one_false] at hholding
    rw [hstreamed, one_false] at hstreaming
    refine ⟨?_, ?_⟩ <;>
      simp only [Office.holding, Office.streaming, Office.stored, Method.count] at * <;> omega
  | countOut hstream hphase hraises hheld hheld' hstreamed =>
    subst hraises
    have hday := hadmits t hi
    rw [Office.AdmitsTask, hstream, hphase] at hday
    have hle := h.holding_le hday
    have hstored := stored_visitAt cfg s.backend day (m := .taskFinished) rfl
    rw [hheld, hheld', henabled, one_true, one_false] at hholding
    rw [hstreamed, one_false] at hstreaming
    refine ⟨?_, ?_⟩ <;>
      simp only [Office.holding, Office.streaming, Office.stored, Method.count] at * <;> omega
  | stream hstream hphase hraises hheld hstreamed =>
    subst hraises
    have hroom := hadmits t hi
    rw [Office.AdmitsTask, hstream, hphase, Office.HasRoom] at hroom
    have hle := h.holding_le hroom.1
    have hone := one_le_one t'.streaming
    rw [hheld, one_false] at hholding
    rw [hstreamed, one_false] at hstreaming
    refine ⟨?_, ?_⟩ <;>
      simp only [Office.holding, Office.streaming, Office.stored] at * <;> omega

theorem Office.Fits.step {s : Office} (h : s.Fits cfg) (henabled : cfg.enabled) {e : Event}
    (hadmits : s.Admits cfg e) : (s.step cfg e).Fits cfg := by
  cases e with
  | call stream =>
    have hholding : (s.step cfg (.call stream)).holding cfg = s.holding cfg := by
      simp [Office.holding, Office.step, Task.holding]
    have hstreaming : (s.step cfg (.call stream)).streaming = s.streaming := by
      simp [Office.streaming, Office.step, Task.streaming, Task.executing]
    refine ⟨?_, ?_⟩
    · rw [hholding]
      exact h.counted
    · rw [hholding, hstreaming]
      exact h.within
  | advance i day raises =>
    cases hi : s.tasks[i]? with
    | none =>
      rw [step_advance_none hi]
      exact h
    | some t => exact h.advance henabled hi hadmits

theorem bounded_of_admits (henabled : cfg.enabled) : ∀ (trace : List Event) (s : Office),
    s.Fits cfg → Along (Office.step cfg) (Office.Admits cfg) s trace →
      Along (Office.step cfg) (fun s e => (s.step cfg e).Bounded cfg) s trace
  | [], _, _, _ => trivial
  | _ :: trace, _, h, ⟨hadmits, htrace⟩ => by
      have hfits := h.step henabled hadmits
      exact ⟨fun _ _ => hfits.bounded henabled, bounded_of_admits henabled trace _ hfits htrace⟩

/-- Whoever is counted in is counted out exactly when no statement raises between the count in and
    the `try` or in the `finally`; and the limit is kept where a task is counted in, and a stream
    begins, only while the quota has room. -/
theorem admission (cfg : Config) (trace : List Event) :
    (Along (Office.step cfg) (fun s e => (s.step cfg e).Matched) {} trace ↔
      Along (Office.step cfg) (KeepsCount cfg) {} trace) ∧
    ((cfg.enabled → 0 < cfg.limits.maxConcurrentTasks →
        Along (Office.step cfg) (Office.Admits cfg) {} trace) →
      Along (Office.step cfg) (fun s e => (s.step cfg e).Bounded cfg) {} trace) := by
  have hsound : Office.Sound cfg {} := fun t ht => absurd ht (List.not_mem_nil)
  refine ⟨along_iff (fun _ e h => matched_iff_keepsCount h e) (fun _ _ h hkeeps => h.step hkeeps)
    trace _ hsound, fun hadmits => ?_⟩
  by_cases hlimit : cfg.enabled ∧ 0 < cfg.limits.maxConcurrentTasks
  · obtain ⟨henabled, hpos⟩ := hlimit
    have hfits : Office.Fits cfg {} := by
      refine ⟨Nat.zero_le _, ?_⟩
      simp only [Office.holding, Office.streaming, List.countP_nil]
      omega
    exact bounded_of_admits henabled trace _ hfits (hadmits henabled hpos)
  · -- Without a limit there is nothing to exceed.
    have hfree : ∀ s : Office, s.Bounded cfg := fun s henabled hpos =>
      absurd ⟨henabled, hpos⟩ hlimit
    exact along_of_forall (fun s e => hfree _) trace _

/-- One task of the tenant at a time. -/
def oneAtATime : Config :=
  { enabled := true, limits := { maxConcurrentTasks := 1 }, tenant := "acme".toList }

def advance (i : ℕ) : Event := .advance i "2024-05-01".toList false

/-- A task runs to its end, then another. -/
def inTurn : List Event :=
  .call false :: List.replicate 7 (advance 0) ++ .call false :: List.replicate 7 (advance 1)

theorem inTurn_bounded :
    Along (Office.step oneAtATime) (fun s e => (s.step oneAtATime e).Bounded oneAtATime) {}
      inTurn :=
  (admission oneAtATime inTurn).2 fun _ _ => by decide +kernel

/-- Two tasks are checked before either is counted in, and the first executes. -/
def together : List Event :=
  [.call false, .call false, advance 0, advance 1, advance 0, advance 1, advance 0, advance 1,
    advance 0]

/-- Two tasks execute where one may. -/
theorem together_exceeds :
    ¬ ∀ trace, Along (Office.step oneAtATime)
      (fun s e => (s.step oneAtATime e).Bounded oneAtATime ∧ (s.step oneAtATime e).Matched) {}
      trace := by
  intro h
  obtain ⟨-, ⟨hbounded, -⟩, -⟩ := (along_append together [advance 1] _).1 (h _)
  exact absurd (hbounded rfl (by decide)) (by decide +kernel)

end AgentLangraph.Quota
