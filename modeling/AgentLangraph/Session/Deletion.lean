import AgentLangraph.Session.Store
import AgentLangraph.Artifact.Files
import AgentLangraph.Lib.Trace

/-! Deleting a task (`delete_task` of `task_api.py`, `task_tombstone.py`, `task_cleanup.py`) while a run of
    it still saves and writes files. A save looks for the tombstone, loads, and writes its row in separate
    steps, so it can write after the row is gone; files are guarded by no tombstone at all.

        delete   load ─ cancel ─ wait ─ row gone ─ tombstone ─ files gone ─ returned
        save     tombstone? ─ load ─ restore, guard ─ row
        file     mkdir ─ write -/

namespace AgentLangraph.Session
open PyText Trace

/-- Where `delete_task` is; it remembers whether it saw a row. -/
inductive DeletePhase
  | ready
  | loaded (stored : Bool)
  | cancelled (stored : Bool)
  | waited (stored : Bool)
  | rowGone
  | tombstoned
  | purged
  | returned
  deriving DecidableEq

/-- Where a save of the run is. -/
inductive SavePhase
  /-- No tombstone was found. -/
  | checked (s : AgentState)
  /-- The row that was loaded does not protect itself. -/
  | admitted (s : AgentState)
  /-- The state is restored and guarded. -/
  | prepared (s : AgentState)

/-- The files of a task by their names. -/
abbrev TaskFiles := PyDict Text Text

/-- The row and the directory of the task, its tombstone, and where `delete_task` and the saves of the run
    are. -/
structure DeleteState where
  row : Option AgentState := none
  dir : Option TaskFiles := none
  tombstone : Bool := false
  cancelRequested : Bool := false
  phase : DeletePhase := .ready
  saves : ℕ → Option SavePhase := fun _ => none

/-- The steps of a run: those of its saves, by the thread, and those of its artifacts. -/
inductive RunStep
  /-- `is_task_tombstoned`, with the state to save. -/
  | check (t : ℕ) (s : AgentState)
  | load (t : ℕ)
  | prepare (t : ℕ) (w : Surroundings)
  | write (t : ℕ)
  /-- `task_artifact_dir`, and a `mkdir` with parents. -/
  | mkdir
  /-- Files are written, moved or removed where the directory is there. -/
  | files (f : TaskFiles → TaskFiles)

inductive DeleteEvent
  /-- The next step of `delete_task`. -/
  | delete
  | run (a : RunStep)

/-- `delete_task`, behind its check of access; the wait ends when no run is active or after two seconds. -/
def DeleteState.delete (m : DeleteState) : DeleteState :=
  match m.phase with
  | .ready => { m with phase := .loaded m.row.isSome }
  | .loaded stored => { m with cancelRequested := true, phase := .cancelled stored }
  | .cancelled stored => { m with phase := .waited stored }
  | .waited stored => { m with row := if stored then none else m.row, phase := .rowGone }
  | .rowGone => { m with tombstone := true, phase := .tombstoned }
  | .tombstoned => { m with dir := none, phase := .purged }
  | .purged => { m with phase := .returned }
  | .returned => m

def DeleteState.setSave (m : DeleteState) (t : ℕ) (p : Option SavePhase) : DeleteState :=
  { m with saves := Function.update m.saves t p }

/-- A step of the run of the task `taskId`; one that does not come next in its save does nothing. -/
def DeleteState.runStep (taskId : Text) (m : DeleteState) : RunStep → DeleteState
  | .check t s => m.setSave t (if m.tombstone then none else some (.checked s))
  | .load t =>
    match m.saves t with
    | some (.checked s) => m.setSave t (if Protects m.row s then none else some (.admitted s))
    | _ => m
  | .prepare t w =>
    match m.saves t with
    | some (.admitted s) =>
      match writeRow w m.row s with
      | .ok s' => m.setSave t (some (.prepared s'))
      | .error _ => m.setSave t none
    | _ => m
  | .write t =>
    match m.saves t with
    | some (.prepared s) => { m.setSave t none with row := some s }
    | _ => m
  | .mkdir => if Artifact.taskDir taskId = [] then m else { m with dir := some (m.dir.getD PyDict.empty) }
  | .files f => { m with dir := m.dir.map f }

def DeleteState.step (taskId : Text) (m : DeleteState) : DeleteEvent → DeleteState
  | .delete => m.delete
  | .run a => m.runStep taskId a

/-- `delete_task` is asked for, wherever the saves of the run are. -/
def DeleteState.asked (m : DeleteState) : DeleteState := { m with cancelRequested := false, phase := .ready }

/-- From here on `delete_task` counts on there being no row: it has removed it, or seen none. -/
def DeletePhase.noRow : DeletePhase → Bool
  | .ready => false
  | .loaded stored | .cancelled stored | .waited stored => !stored
  | .rowGone | .tombstoned | .purged | .returned => true

/-- From here on it counts on there being no directory. -/
def DeletePhase.noDir : DeletePhase → Bool
  | .purged | .returned => true
  | _ => false

/-- Once `delete_task` has returned there is neither a row nor a directory, at any later point. -/
def StaysDeleted (taskId : Text) (m : DeleteState) (trace : List DeleteEvent) : Prop :=
  ∀ pre, pre <+: trace → (run (DeleteState.step taskId) m pre).phase = .returned →
    (run (DeleteState.step taskId) m pre).row = none ∧ (run (DeleteState.step taskId) m pre).dir = none

/-- A step that brings back what `delete_task` counts on being gone: a save that is past its tombstone check
    and its guard writes its row, or the directory is made. -/
def Resurrects (taskId : Text) (m : DeleteState) : DeleteEvent → Prop
  | .run (.write t) => m.phase.noRow ∧ ∃ s, m.saves t = some (.prepared s)
  | .run .mkdir => m.phase.noDir ∧ Artifact.taskDir taskId ≠ []
  | _ => False

/-- What `delete_task` counts on being gone is gone. -/
structure Gone (m : DeleteState) : Prop where
  row : m.phase.noRow → m.row = none
  dir : m.phase.noDir → m.dir = none

/-- Something is back that `delete_task` counts on being gone. -/
def Back (m : DeleteState) : Prop := m.phase.noRow ∧ m.row ≠ none ∨ m.phase.noDir ∧ m.dir ≠ none

variable {taskId : Text}

/-! ### The steps -/

/-- What a step of the run does beside its saves: it writes the row that was prepared, it makes the
    directory, or it changes the files there. -/
structure RunMoves (taskId : Text) (m m' : DeleteState) (a : RunStep) : Prop where
  phase : m'.phase = m.phase
  row : m'.row = m.row ∨ m'.row ≠ none ∧ ∃ t s, a = .write t ∧ m.saves t = some (.prepared s)
  dir : m'.dir.isSome = m.dir.isSome ∨ m'.dir.isSome ∧ a = .mkdir ∧ Artifact.taskDir taskId ≠ []

theorem runStep_moves (taskId : Text) (m : DeleteState) (a : RunStep) :
    RunMoves taskId m (m.runStep taskId a) a := by
  have hsave : ∀ t p, RunMoves taskId m (m.setSave t p) a := fun _ _ => ⟨rfl, .inl rfl, .inl rfl⟩
  have hsame : RunMoves taskId m m a := ⟨rfl, .inl rfl, .inl rfl⟩
  cases a with
  | check t s => exact hsave _ _
  | load t =>
    rw [DeleteState.runStep]
    split
    · exact hsave _ _
    · exact hsame
  | prepare t w =>
    rw [DeleteState.runStep]
    split
    · split
      · exact hsave _ _
      · exact hsave _ _
    · exact hsame
  | write t =>
    rw [DeleteState.runStep]
    split
    · next s hs => exact ⟨rfl, .inr ⟨Option.some_ne_none s, t, s, rfl, hs⟩, .inl rfl⟩
    · exact hsame
  | mkdir =>
    rw [DeleteState.runStep]
    split_ifs with hname
    · exact hsame
    · exact ⟨rfl, .inl rfl, .inr ⟨rfl, rfl, hname⟩⟩
  | files f => exact ⟨rfl, .inl rfl, .inl Option.isSome_map⟩

theorem delete_keeps_gone {m : DeleteState} (h : Gone m) : Gone m.delete := by
  obtain ⟨hrow, hdir⟩ := h
  rw [DeleteState.delete]
  cases hphase : m.phase with
  | ready =>
    refine ⟨fun hno => ?_, fun hno => nomatch hno⟩
    simpa [DeletePhase.noRow] using hno
  | loaded stored | cancelled stored =>
    refine ⟨fun hno => hrow ?_, fun hno => nomatch hno⟩
    rw [hphase]
    exact hno
  | waited stored =>
    refine ⟨fun _ => ?_, fun hno => nomatch hno⟩
    cases stored with
    | true => rfl
    | false => exact hrow (by rw [hphase]; rfl)
  | rowGone => exact ⟨fun _ => hrow (by rw [hphase]; rfl), fun hno => nomatch hno⟩
  | tombstoned => exact ⟨fun _ => hrow (by rw [hphase]; rfl), fun _ => rfl⟩
  | purged => exact ⟨fun _ => hrow (by rw [hphase]; rfl), fun _ => hdir (by rw [hphase]; rfl)⟩
  | returned => exact ⟨hrow, hdir⟩

theorem delete_keeps_back {m : DeleteState} (h : Back m) : Back m.delete := by
  rw [Back] at h
  rw [DeleteState.delete]
  cases hphase : m.phase with
  | ready =>
    rw [hphase] at h
    simp [DeletePhase.noRow, DeletePhase.noDir] at h
  | loaded stored | cancelled stored =>
    rw [hphase] at h
    exact h
  | waited stored =>
    rw [hphase] at h
    cases stored with
    | true => simp [DeletePhase.noRow, DeletePhase.noDir] at h
    | false => exact h
  | rowGone | purged | returned =>
    rw [hphase] at h
    simpa [Back, DeletePhase.noRow, DeletePhase.noDir, hphase] using h
  | tombstoned =>
    rw [hphase] at h
    exact .inl ⟨rfl, h.elim (fun hrow => hrow.2) fun hdir => absurd hdir.1 Bool.false_ne_true⟩

theorem step_keeps_gone {m : DeleteState} {e : DeleteEvent} (h : Gone m) (hno : ¬ Resurrects taskId m e) :
    Gone (m.step taskId e) := by
  cases e with
  | delete => exact delete_keeps_gone h
  | run a =>
    have hmoves := runStep_moves taskId m a
    constructor
    · intro hphase
      rw [DeleteState.step, hmoves.phase] at hphase
      rcases hmoves.row with hrow | ⟨-, t, s, rfl, hprepared⟩
      · exact hrow.trans (h.row hphase)
      · exact absurd ⟨hphase, s, hprepared⟩ hno
    · intro hphase
      rw [DeleteState.step, hmoves.phase] at hphase
      rcases hmoves.dir with hdir | ⟨-, rfl, hname⟩
      · rw [h.dir hphase] at hdir
        have hnone : (m.runStep taskId a).dir = none := by simpa using hdir
        exact hnone
      · exact absurd ⟨hphase, hname⟩ hno

theorem step_brings_back {m : DeleteState} {e : DeleteEvent} (hres : Resurrects taskId m e) :
    Back (m.step taskId e) := by
  cases e with
  | delete => exact hres.elim
  | run a =>
    cases a with
    | write t =>
      obtain ⟨hphase, s, hs⟩ := hres
      rw [DeleteState.step, DeleteState.runStep, hs]
      exact .inl ⟨hphase, Option.some_ne_none s⟩
    | mkdir =>
      obtain ⟨hphase, hname⟩ := hres
      rw [DeleteState.step, DeleteState.runStep, if_neg hname]
      exact .inr ⟨hphase, Option.some_ne_none _⟩
    | check | load | prepare | files => exact hres.elim

theorem step_keeps_back {m : DeleteState} (e : DeleteEvent) (h : Back m) : Back (m.step taskId e) := by
  cases e with
  | delete => exact delete_keeps_back h
  | run a =>
    have hmoves := runStep_moves taskId m a
    rw [DeleteState.step, Back, hmoves.phase]
    refine h.imp (fun ⟨hphase, hrow⟩ => ⟨hphase, ?_⟩) fun ⟨hphase, hdir⟩ => ⟨hphase, ?_⟩
    · rcases hmoves.row with heq | ⟨hne, -⟩
      · rwa [heq]
      · exact hne
    · rw [← Option.isSome_iff_ne_none] at hdir ⊢
      rcases hmoves.dir with heq | ⟨hsome, -⟩
      · rwa [heq]
      · exact hsome

/-- `delete_task` returns only once. -/
theorem step_returned {m : DeleteState} (e : DeleteEvent) (h : m.phase = .returned) :
    (m.step taskId e).phase = .returned := by
  cases e with
  | delete =>
    rw [DeleteState.step, DeleteState.delete, h]
    exact h
  | run a => exact (runStep_moves taskId m a).phase.trans h

/-! ### The interleavings -/

/-- What is deleted stays deleted exactly when, as far as `delete_task` returns, no step brings it back. -/
theorem staysDeleted_iff (taskId : Text) (m : DeleteState) (trace : List DeleteEvent) :
    StaysDeleted taskId m.asked trace ↔
      ((run (DeleteState.step taskId) m.asked trace).phase = .returned →
        Along (DeleteState.step taskId) (fun m e => ¬ Resurrects taskId m e) m.asked trace) := by
  have hstart : Gone m.asked := ⟨fun h => (nomatch h), fun h => (nomatch h)⟩
  have hrun := fun trace => along_or_broken (C := fun m e => ¬ Resurrects taskId m e)
    (fun _ _ h hno => step_keeps_gone h hno) (fun _ _ _ hres => step_brings_back (not_not.1 hres))
    (fun _ e h => step_keeps_back e h) trace m.asked hstart
  constructor
  · intro hstays hreturned
    rcases hrun trace with ⟨halong, -⟩ | ⟨-, hback⟩
    · exact halong
    · obtain ⟨hrow, hdir⟩ := hstays trace List.prefix_rfl hreturned
      rcases hback with ⟨-, h⟩ | ⟨-, h⟩
      · exact absurd hrow h
      · exact absurd hdir h
  · rintro h pre ⟨post, rfl⟩ hpre
    have hreturned : (run (DeleteState.step taskId) m.asked (pre ++ post)).phase = .returned := by
      rw [run_append]
      exact run_inv (I := fun m : DeleteState => m.phase = .returned) (P := fun _ => True)
        (fun _ e hs _ => step_returned e hs) post _ hpre fun _ _ => trivial
    have halong := ((along_append pre post m.asked).1 (h hreturned)).1
    rcases hrun pre with ⟨-, hgone⟩ | ⟨hnot, -⟩
    · exact ⟨hgone.row (by rw [hpre]; rfl), hgone.dir (by rw [hpre]; rfl)⟩
    · exact absurd halong hnot

/-- A task with a row and a directory. -/
def storedTask : DeleteState where
  row := some (secondTurn .planned)
  dir := some PyDict.empty

/-- A save that is prepared while `delete_task` waits, and writes when it has returned. -/
def lateSave : List DeleteEvent :=
  [.delete, .delete, .run (.check 0 (secondTurn .toolExecuted)), .run (.load 0), .run (.prepare 0 idleProcess),
    .delete, .delete, .delete, .delete, .delete, .run (.write 0)]

/-- The save of a run brings back the row of a task that is deleted. -/
theorem lateSave_brings_back : ¬ StaysDeleted "s1".toList storedTask.asked lateSave := by
  intro h
  have hrun : (run (DeleteState.step "s1".toList) storedTask.asked lateSave).phase = .returned ∧
      (run (DeleteState.step "s1".toList) storedTask.asked lateSave).row.isSome = true := by
    decide +kernel
  obtain ⟨hreturned, hrow⟩ := hrun
  rw [(h lateSave List.prefix_rfl hreturned).1] at hrow
  cases hrow

end AgentLangraph.Session
