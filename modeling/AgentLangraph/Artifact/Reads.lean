import AgentLangraph.Artifact.Steps
import AgentLangraph.Lib.Trace

/-! What a read of an artifact gives back. Before the file there are two copies: the last read of the
    same name, once there have been too many, and the read cache, which knows the size and the time of a
    file and not what was asked for.

        repeated reads of a name ──▶ last read        (any file of that name, any request)
        same size and time       ──▶ cached read      (any request for the whole text)
        otherwise                ──▶ the file -/

namespace AgentLangraph.Artifact
open PyText

/-- `text[:max_chars]` is what a read cuts off a text. -/
theorem firstChars_eq (maxChars : ℤ) (t : Text) : firstChars maxChars t = sliceTo t maxChars := by
  rw [firstChars]
  split_ifs with h
  · rfl
  · rw [sliceTo, sliceBound, if_pos (by omega), min_eq_right (by omega), List.take_length]

/-- What is shown of the text that is read. -/
def ReadRequest.shown (q : ReadRequest) (t : Text) : Text :=
  if q.withLineNumbers then formatWithLineNumbers t else t

/-- The result has the first characters of the part of the text that is asked for, as asked for. -/
def Answers (q : ReadRequest) (full : Text) (r : Result) : Prop :=
  ∃ part, requestedText q full = .ok part ∧ r.rawContent = some (sliceTo part q.maxChars) ∧
    r.content = some (q.shown (sliceTo part q.maxChars))

/-- A read that is well formed, of a file that is there. -/
structure ReadPlan where
  taskId : Text
  filename : Text
  request : ReadRequest
  file : File

def readPlan (t : Tools) (p : Params) (d : Disk) : Option ReadPlan := do
  let (taskId, filename) ← target p
  let request ← (readRequest t.matcher p.fields).toOption
  let file ← d.files.get? (filePath taskId filename)
  some ⟨taskId, filename, request, file⟩

/-- The text of the file, as it is now. -/
def ReadPlan.full (plan : ReadPlan) : Text := universalNewlines plan.file.text

/-- The copy in the read cache that the read is given. -/
def ReadPlan.cached (plan : ReadPlan) (cache : PyDict Text Result) : Option Result :=
  if plan.request.cacheable then cache.get? (cacheKey plan.taskId plan.filename plan.file) else none

/-- The copy that a read is given for the file: the last read of the name, once that is all there is to
    give, or else the cached one. -/
def servedCopy (t : Tools) (x : Exec) (p : Params) (ws : Workspace) : Option Result :=
  match blockRepeatArtifactRead t.settings x.rows (textOr p.fields "filename") with
  | some r => if r.status = "cached".toList then some r else none
  | none => (readPlan t p ws.disk).bind fun plan => plan.cached ws.cache

/-- The result is an answer of the file as it is. -/
def Coherent (t : Tools) (p : Params) (d : Disk) (r : Result) : Prop :=
  ∃ plan, readPlan t p d = some plan ∧ Answers plan.request plan.full r

/-- A read that is reported as `ok` or `cached` answers from the text that the file has. -/
def ReadRight (t : Tools) (r : Run) (step : Step) : Prop :=
  ∀ a, step.planned.action = .ok a → a.type = .readArtifact →
    ∀ ws e, executeEntry t step r.exec a (r.exec.ws.at step.now) = (ws, .ok e) →
      e.status = "ok".toList ∨ e.status = "cached".toList →
        ∃ res, e.result = some res ∧
          Coherent t (callParams r.exec.turn a.params) (r.exec.ws.at step.now).disk res

/-- A read that is given a copy finds there what it would find in the file. -/
def CopyRight (t : Tools) (r : Run) (step : Step) : Prop :=
  ∀ a, step.planned.action = .ok a → a.type = .readArtifact →
    ∀ copy, servedCopy t r.exec (callParams r.exec.turn a.params) (r.exec.ws.at step.now) = some copy →
      Coherent t (callParams r.exec.turn a.params) (r.exec.ws.at step.now).disk copy

/-! ### The handler -/

section
variable {t : Tools} {p : Params} {ws : Workspace}

theorem readPlan_eq_some_iff {d : Disk} {plan : ReadPlan} : readPlan t p d = some plan ↔
    target p = some (plan.taskId, plan.filename) ∧ readRequest t.matcher p.fields = .ok plan.request ∧
      d.files.get? (filePath plan.taskId plan.filename) = some plan.file := by
  simp only [readPlan, Option.bind_eq_bind, Option.bind_eq_some_iff, toOption_eq_some_iff,
    Option.some.injEq]
  constructor
  · rintro ⟨⟨taskId, filename⟩, htarget, request, hrequest, file, hfile, rfl⟩
    exact ⟨htarget, hrequest, hfile⟩
  · rintro ⟨htarget, hrequest, hfile⟩
    exact ⟨_, htarget, _, hrequest, _, hfile, rfl⟩

/-- A read without a plan raises. -/
theorem handleRead_of_none (h : readPlan t p ws.disk = none) :
    ∃ ws' e, handleReadTextArtifact t p ws = (ws', .error e) := by
  rw [handleReadTextArtifact]
  cases htask : required p "task_id" with
  | error e => exact ⟨ws, e, rfl⟩
  | ok taskId =>
  rw [Attempt.lift_ok_bind]
  cases hraw : required p "filename" with
  | error e => exact ⟨ws, e, rfl⟩
  | ok raw =>
  rw [Attempt.lift_ok_bind]
  cases hname : safeFilename raw with
  | error e => exact ⟨ws, e, rfl⟩
  | ok filename =>
  rw [Attempt.lift_ok_bind]
  cases hrequest : readRequest t.matcher p.fields with
  | error e => exact ⟨ws, e, rfl⟩
  | ok q =>
  rw [Attempt.lift_ok_bind]
  by_cases hdir : taskDir taskId = []
  · rw [taskArtifactDir_error hdir]
    exact ⟨_, _, rfl⟩
  rw [Attempt.bind_ok (onDisk_eq (taskArtifactDir_ok hdir ws.disk)), Attempt.ask_bind_apply]
  have hfile : ws.disk.files.get? (filePath taskId filename) = none := by
    cases hfile : ws.disk.files.get? (filePath taskId filename) with
    | none => rfl
    | some f =>
      have hplan : readPlan t p ws.disk = some ⟨taskId, filename, q, f⟩ :=
        readPlan_eq_some_iff.2 ⟨target_eq_some_iff.2 ⟨raw, htask, hraw, hname, hdir⟩, hrequest, hfile⟩
      rw [hplan] at h
      cases h
  dsimp only [id]
  rw [mkdir_files, ← filePath, hfile]
  exact ⟨_, _, rfl⟩

/-- A read with a plan gives back the cached copy, or else reads the file. -/
theorem handleRead_of_plan {plan : ReadPlan} (h : readPlan t p ws.disk = some plan) :
    ∃ ws', handleReadTextArtifact t p ws = (ws',
      match plan.cached ws.cache with
      | some copy => .ok copy
      | none => (requestedText plan.request plan.full).map fun part =>
          readResult plan.request plan.filename (filePath plan.taskId plan.filename) plan.full part) := by
  obtain ⟨htarget, hrequest, hfile⟩ := readPlan_eq_some_iff.1 h
  obtain ⟨raw, htask, hraw, hname, hdir⟩ := target_eq_some_iff.1 htarget
  rw [handleReadTextArtifact, htask, Attempt.lift_ok_bind, hraw, Attempt.lift_ok_bind, hname,
    Attempt.lift_ok_bind, hrequest, Attempt.lift_ok_bind,
    Attempt.bind_ok (onDisk_eq (taskArtifactDir_ok hdir ws.disk)), Attempt.ask_bind_apply]
  dsimp only [id]
  rw [mkdir_files, ← filePath, hfile]
  dsimp only
  rw [← ReadPlan.cached]
  cases hcached : plan.cached ws.cache with
  | some copy => exact ⟨_, rfl⟩
  | none =>
    dsimp only
    rw [← ReadPlan.full]
    cases hpart : requestedText plan.request plan.full with
    | error e => exact ⟨_, rfl⟩
    | ok part =>
      rw [Attempt.lift_ok_bind]
      split_ifs <;> exact ⟨_, rfl⟩

/-- What is read off the file answers. -/
theorem answers_readResult {q : ReadRequest} {full part : Text} (h : requestedText q full = .ok part)
    (filename : Text) (path : Path) : Answers q full (readResult q filename path full part) := by
  refine ⟨part, h, ?_, ?_⟩ <;> rw [readResult, firstChars_eq]
  rfl

end

/-! ### One read -/

/-- A repeated read is given the last one, or turned away. -/
theorem blockRepeat_cases {cfg : Settings} {rows : List Entry} {filename : Text} {r : Result}
    (h : blockRepeatArtifactRead cfg rows filename = some r) :
    r.status = "cached".toList ∨ r.status = "blocked".toList := by
  rw [blockRepeatArtifactRead] at h
  split_ifs at h
  cases hlast : findLastArtifactRead rows filename with
  | some last =>
    rw [hlast] at h
    rw [← Option.some.inj h]
    exact Or.inl rfl
  | none =>
    rw [hlast] at h
    rw [← Option.some.inj h]
    exact Or.inr rfl

theorem blockedEntry_status {r : Result} (h : r.status ≠ []) : (blockedEntry r).status = r.status := by
  rw [blockedEntry]
  exact if_neg h

/-- What an entry that is reported well must hold. -/
def Reported (t : Tools) (p : Params) (ws : Workspace) (e : Entry) : Prop :=
  e.status = "ok".toList ∨ e.status = "cached".toList →
    ∃ res, e.result = some res ∧ Coherent t p ws.disk res

section
variable {t : Tools} {p : Params} {ws : Workspace}

theorem reported_ok (res : Result) :
    Reported t p ws (okEntry readTool .readArtifact res) ↔ Coherent t p ws.disk res := by
  constructor
  · intro h
    obtain ⟨res', hres, hcoherent⟩ := h (Or.inl rfl)
    cases hres
    exact hcoherent
  · exact fun h _ => ⟨res, rfl, h⟩

theorem reported_raised (e : Raise) : Reported t p ws (raisedEntry readTool .readArtifact e) := by
  intro h
  rw [raisedEntry_status] at h
  exact absurd h (by decide)

theorem reported_blocked {copy : Result}
    (h : copy.status = "cached".toList ∨ copy.status = "blocked".toList) :
    Reported t p ws (blockedEntry copy) ↔
      (copy.status = "cached".toList → Coherent t p ws.disk copy) := by
  have hne : copy.status ≠ [] := by
    rcases h with h | h <;> rw [h] <;> decide
  rw [Reported, blockedEntry_status hne]
  rcases h with h | h <;> rw [h]
  · constructor
    · intro hreported _
      obtain ⟨res, hres, hcoherent⟩ := hreported (Or.inr rfl)
      cases hres
      exact hcoherent
    · exact fun hcoherent _ => ⟨copy, rfl, hcoherent rfl⟩
  · exact iff_of_true (fun h => absurd h (by decide)) fun h => absurd h (by decide)

/-- The entry of a read is reported well with an answer exactly when its copy, if it has one, is an
    answer. -/
theorem executeRead_reported (x : Exec) (ws : Workspace) : ∃ ws' e, executeRead t x p ws = (ws', .ok e) ∧
    (Reported t p ws e ↔ ∀ copy, servedCopy t x p ws = some copy → Coherent t p ws.disk copy) := by
  rw [executeRead, servedCopy]
  cases hblock : blockRepeatArtifactRead t.settings x.rows (textOr p.fields "filename") with
  | some copy =>
    refine ⟨ws, _, rfl, ?_⟩
    rw [reported_blocked (blockRepeat_cases hblock)]
    simp only [Option.ite_none_right_eq_some, Option.some.injEq]
    constructor
    · rintro h _ ⟨hstatus, rfl⟩
      exact h hstatus
    · exact fun h hstatus => h copy ⟨hstatus, rfl⟩
  | none =>
    dsimp only
    cases hplan : readPlan t p ws.disk with
    | none =>
      obtain ⟨ws', e, he⟩ := handleRead_of_none hplan
      exact ⟨ws', _, entryOf_error he, iff_of_true (reported_raised e) fun _ h => by cases h⟩
    | some plan =>
      obtain ⟨ws', hr⟩ := handleRead_of_plan hplan
      rw [Option.bind_some]
      cases hcached : plan.cached ws.cache with
      | some copy =>
        rw [hcached] at hr
        refine ⟨ws', _, entryOf_ok hr, ?_⟩
        rw [reported_ok]
        simp
      | none =>
        rw [hcached] at hr
        dsimp only at hr
        cases hpart : requestedText plan.request plan.full with
        | error e =>
          rw [hpart] at hr
          exact ⟨ws', _, entryOf_error hr, iff_of_true (reported_raised e) fun _ h => by cases h⟩
        | ok part =>
          rw [hpart] at hr
          refine ⟨ws', _, entryOf_ok hr, iff_of_true ?_ fun _ h => by cases h⟩
          rw [reported_ok]
          exact ⟨plan, hplan, answers_readResult hpart _ _⟩

end

/-- STEP: a read is right exactly when the copy that it is given is, if it is given one. -/
theorem readRight_iff (t : Tools) (r : Run) (step : Step) : ReadRight t r step ↔ CopyRight t r step := by
  refine forall_congr' fun a => forall_congr' fun _ => forall_congr' fun hty => ?_
  rw [executeEntry_read hty]
  obtain ⟨ws', e, hentry, hiff⟩ := executeRead_reported (t := t) (p := callParams r.exec.turn a.params) r.exec
    (r.exec.ws.at step.now)
  rw [← hiff, hentry]
  constructor
  · exact fun h => h ws' e rfl
  · intro h ws₁ e₁ heq
    cases heq
    exact h

/-! ### Turns -/

/-- A turn: what its state brings with it, and its actions. -/
structure ActionTurn where
  exec : Exec
  facts : TurnFacts := {}
  steps : List Step

/-- The turn begins, with the files and the cache as they are. -/
def ActionTurn.begin (turn : ActionTurn) (ws : Workspace) : Run :=
  Run.begin { turn.exec with ws := ws } turn.facts

/-- The files and the cache after a turn. -/
def nextTurn (t : Tools) (ws : Workspace) (turn : ActionTurn) : Workspace :=
  (executeActions t turn.steps (turn.begin ws)).1.exec.ws

/-- Every action that is come to in the turns has a property. -/
def AlongTurns (t : Tools) (P : Run → Step → Prop) (ws : Workspace) (turns : List ActionTurn) : Prop :=
  Trace.Along (nextTurn t) (fun ws turn => Attempt.Along (Run.step t) P (turn.begin ws) turn.steps) ws turns

def readNote (maxChars : ℤ) : Step := onNote .readArtifact [("max_chars".toList, .int maxChars)]

/-- A turn that looks at the beginning of a file, and then at all of it. -/
def twoReads : ActionTurn where
  exec := oneFile "old text".toList
  steps := [readNote 3, readNote 8000]

end AgentLangraph.Artifact
