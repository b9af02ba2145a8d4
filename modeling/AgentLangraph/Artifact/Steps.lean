import AgentLangraph.Artifact.Plans

/-! What one action does to the state of the executor: it carries the workspace on and adds one entry,
    and touches nothing else that another action goes by. -/

namespace AgentLangraph.Artifact
open PyText

theorem onDisk_eq {α : Type} {x : Io α} {ws : Workspace} {d : Disk} {r : Except Raise α}
    (h : x ws.disk = (d, r)) : onDisk x ws = ({ ws with disk := d }, r) := by
  rw [onDisk, h]

section
variable {α : Type} {x : Ws α} {ok : α → Entry} {raised : Raise → Entry} {ws ws' : Workspace}

theorem entryOf_ok {a : α} (h : x ws = (ws', .ok a)) : entryOf x ok raised ws = (ws', .ok (ok a)) :=
  Attempt.caught_ok (Attempt.bind_ok h _) _

theorem entryOf_error {e : Raise} (h : x ws = (ws', .error e)) :
    entryOf x ok raised ws = (ws', .ok (raised e)) :=
  Attempt.caught_error (Attempt.bind_error h _) _

end

@[simp] theorem raisedEntry_status (tool : Text) (ty : ActionType) (e : Raise) :
    (raisedEntry tool ty e).status = "error".toList := by
  cases e <;> rfl

@[simp] theorem raisedEntry_tool (tool : Text) (ty : ActionType) (e : Raise) :
    (raisedEntry tool ty e).tool = tool := by
  cases e <;> rfl

@[simp] theorem at_stored (ws : Workspace) (now : ℕ) (path : Path) :
    (ws.at now).disk.stored path = ws.disk.stored path := rfl

/-- The name of a type stands for the type. -/
theorem find_name (type : ActionType) :
    actionTypes.find? (fun ty => ty.name = strip type.name) = some type := by
  cases type <;> decide +kernel

/-- A write, an edit or a read of an artifact. -/
def ActionType.onArtifact (ty : ActionType) : Bool := ty ∈ [.writeArtifact, .editArtifact, .readArtifact]

theorem step_eq_execute {t : Tools} {step : Step} {a : Action} (hact : step.planned.action = .ok a)
    (hty : a.type.onArtifact = true ∨ a.type = .runTool) : Run.step t step = Run.execute t step a := by
  rw [Run.step, hact]
  dsimp only
  cases ha : a.type <;> simp_all [ActionType.onArtifact]

theorem execute_ok {t : Tools} {step : Step} {a : Action} {r : Run} {ws : Workspace} {e : Entry}
    (h : executeEntry t step r.exec a (r.exec.ws.at step.now) = (ws, .ok e)) :
    Run.execute t step a r = ((r.onWorkspace ws).record a.type e, .ok ()) := by
  rw [Run.execute, h]

theorem execute_error {t : Tools} {step : Step} {a : Action} {r : Run} {ws : Workspace} {e : Raise}
    (h : executeEntry t step r.exec a (r.exec.ws.at step.now) = (ws, .error e)) :
    Run.execute t step a r = (r.onWorkspace ws, .error e) := by
  rw [Run.execute, h]

/-- What an action that returns has done. -/
theorem step_ok {t : Tools} {step : Step} {a : Action} {r r' : Run}
    (hact : step.planned.action = .ok a) (hty : a.type.onArtifact = true ∨ a.type = .runTool)
    (h : Run.step t step r = (r', .ok ())) :
    ∃ ws e, executeEntry t step r.exec a (r.exec.ws.at step.now) = (ws, .ok e) ∧
      r' = (r.onWorkspace ws).record a.type e := by
  rw [step_eq_execute hact hty] at h
  rcases hentry : executeEntry t step r.exec a (r.exec.ws.at step.now) with ⟨ws, e | e⟩
  · rw [execute_error hentry] at h
    cases h
  · rw [execute_ok hentry] at h
    cases h
    exact ⟨ws, e, rfl, rfl⟩

/-- STEP: what any action that returns has done. An element that is no action leaves a row, a call leaves
    its entry, the answer is put off, and `run_code` gives the state back that it has made. -/
theorem step_cases {t : Tools} {step : Step} {r r' : Run} (h : Run.step t step r = (r', .ok ())) :
    (∃ ex, step.planned.action = .error ex ∧
      r' = { r with
        results := r.results ++ [errorEntry "planned_action".toList ex "invalid".toList [] true]
        executed := r.executed ++ [{ type := "invalid".toList, status := "error".toList }] }) ∨
    (∃ a ws e, step.planned.action = .ok a ∧ (a.type.onArtifact = true ∨ a.type = .runTool) ∧
      executeEntry t step r.exec a (r.exec.ws.at step.now) = (ws, .ok e) ∧
      r' = (r.onWorkspace ws).record a.type e) ∨
    (∃ a, step.planned.action = .ok a ∧ (a.type = .answer ∨ a.type = .retrieve) ∧
      r' = { r with executed := r.executed ++ [{ type := a.type.name, status := "deferred".toList }] }) ∨
    ∃ p x facts status, step.planned.action = .ok ⟨.runCode, p⟩ ∧
      step.code ({ r.exec with toolResults := r.results }, r.facts) = ((x, facts), .ok status) ∧
      r' = { r with
        exec := x, results := x.toolResults, facts := facts
        executed := r.executed ++ [{ type := ActionType.runCode.name, status := status }] } := by
  cases hact : step.planned.action with
  | error ex =>
    rw [Run.step, hact] at h
    cases h
    exact Or.inl ⟨ex, rfl, rfl⟩
  | ok a =>
    by_cases hown : a.type.onArtifact = true ∨ a.type = .runTool
    · obtain ⟨ws, e, hentry, hr⟩ := step_ok hact hown h
      exact Or.inr (Or.inl ⟨a, ws, e, rfl, hown, hentry, hr⟩)
    obtain ⟨ty, p⟩ := a
    rw [Run.step, hact] at h
    cases ty with
    | answer =>
      cases h
      exact Or.inr (Or.inr (Or.inl ⟨_, rfl, Or.inl rfl, rfl⟩))
    | retrieve =>
      cases h
      exact Or.inr (Or.inr (Or.inl ⟨_, rfl, Or.inr rfl, rfl⟩))
    | runCode =>
      simp only [Run.runCode] at h
      rcases hcode : step.code ({ r.exec with toolResults := r.results }, r.facts) with
        ⟨⟨x, facts⟩, e | status⟩
      · rw [hcode] at h
        cases h
      · rw [hcode] at h
        cases h
        exact Or.inr (Or.inr (Or.inr ⟨p, x, facts, status, rfl, rfl, rfl⟩))
    | readArtifact | writeArtifact | editArtifact => exact absurd (Or.inl rfl) hown
    | runTool => exact absurd (Or.inr rfl) hown

/-- Such an action leaves nothing behind but the workspace and its entry. -/
theorem step_exec {t : Tools} {step : Step} {a : Action} (hact : step.planned.action = .ok a)
    (hty : a.type.onArtifact = true ∨ a.type = .runTool) (r : Run) :
    ∃ ws, (Run.step t step r).1.exec = { r.exec with ws := ws } := by
  rw [step_eq_execute hact hty]
  rcases h : executeEntry t step r.exec a (r.exec.ws.at step.now) with ⟨ws, e | e⟩
  · rw [execute_error h]
    exact ⟨ws, rfl⟩
  · rw [execute_ok h]
    exact ⟨ws, rfl⟩

/-! ### Which of the programs an action is -/

section
variable {t : Tools} {step : Step} {x : Exec} {a : Action}

theorem executeEntry_write (h : a.type = .writeArtifact) :
    executeEntry t step x a = executeWrite t step.supply x (callParams x.turn a.params) := by
  rw [executeEntry, h]

theorem executeEntry_precise (h : a.type = .editArtifact)
    (htarget : editHasTarget (callParams x.turn a.params) = true) :
    executeEntry t step x a = executePrecise t (callParams x.turn a.params) := by
  rw [executeEntry, h]
  exact if_pos htarget

theorem executeEntry_imprecise (h : a.type = .editArtifact)
    (htarget : ¬ editHasTarget (callParams x.turn a.params) = true) :
    executeEntry t step x a = executeImprecise t step.supply x (callParams x.turn a.params) := by
  rw [executeEntry, h]
  exact if_neg htarget

theorem executeEntry_read (h : a.type = .readArtifact) :
    executeEntry t step x a = executeRead t x (callParams x.turn a.params) := by
  rw [executeEntry, h]

end

theorem executePrecise_of_plan {t : Tools} {p : Params} {ws : Workspace} {plan : EditPlan}
    (h : editPlan t p ws.disk = some plan) :
    executePrecise t p ws =
      ({ ws with disk := plan.after p ws.disk }, .ok (okEntry editTool .editArtifact (plan.result p))) :=
  entryOf_ok (onDisk_eq (handleEdit_of_plan h))

theorem executePrecise_of_none {t : Tools} {p : Params} {ws : Workspace}
    (h : editPlan t p ws.disk = none) :
    ∃ d e, executePrecise t p ws = ({ ws with disk := d }, .ok (raisedEntry editTool .editArtifact e)) ∧
      d.files = ws.disk.files := by
  obtain ⟨d, e, he, hfiles⟩ := handleEdit_of_none h
  exact ⟨d, e, entryOf_error (onDisk_eq he), hfiles⟩

/-- The task of a call says nothing about its target. -/
theorem editHasTarget_callParams (turn : Turn) (p : Params) :
    editHasTarget (callParams turn p) = editHasTarget p := by
  rw [callParams]
  cases p.fields.get? "task_id".toList with
  | some v => rfl
  | none =>
    simp only [editHasTarget, textOr, PyDict.field_put_ne p.fields (by decide : "task_id" ≠ "start_line"),
      PyDict.field_put_ne p.fields (by decide : "task_id" ≠ "old_text")]

/-- What the text of the action is, and the disk on which it is at hand. -/
def drafted (t : Tools) (r : Run) (step : Step) (a : Action) : Disk × Except Raise Text :=
  resolveWriteContent t step.supply r.exec.turn (callParams r.exec.turn a.params)
    (r.exec.ws.at step.now).disk

/-! ### All actions -/

/-- What has been executed is on disk, and its results are the results of the state. -/
theorem executeActions_ok {t : Tools} {steps : List Step} {x : Exec} {facts : TurnFacts} {r : Run}
    (h : Run.steps t steps (Run.begin x facts) = (r, .ok ())) :
    ∃ out, executeActions t steps (Run.begin x facts) = (out, .ok ()) ∧ out.exec.ws = r.exec.ws ∧
      out.exec.toolResults = r.results := by
  rw [executeActions]
  split_ifs with hnil
  · subst hnil
    cases h
    exact ⟨_, rfl, rfl, rfl⟩
  · rw [Attempt.bind_ok h]
    exact ⟨r.finish, rfl, rfl, rfl⟩

/-- An exception that is not caught leaves what was done before it. -/
theorem executeActions_error {t : Tools} {steps : List Step} {x : Exec} {facts : TurnFacts} {r : Run}
    {e : Raise} (h : Run.steps t steps (Run.begin x facts) = (r, .error e)) :
    executeActions t steps (Run.begin x facts) = (r, .error e) := by
  rw [executeActions]
  split_ifs with hnil
  · subst hnil
    cases h
  · exact Attempt.bind_error h _

theorem executeActions_ws (t : Tools) (steps : List Step) (x : Exec) (facts : TurnFacts) :
    (executeActions t steps (Run.begin x facts)).1.exec.ws =
      (Run.steps t steps (Run.begin x facts)).1.exec.ws := by
  rcases h : Run.steps t steps (Run.begin x facts) with ⟨r, e | u⟩
  · rw [executeActions_error h]
  · obtain ⟨out, hout, hws, -⟩ := executeActions_ok h
    rw [hout]
    exact hws

/-! ### A small task -/

def plainDigit (c : Char) : Option ℕ := if c.isDigit then some (c.toNat - '0'.toNat) else none

/-- Tools that read no manifest. -/
def plainTools : Tools where
  codec := { loads := fun _ => none, dumps := fun _ => [], digit := plainDigit }
  matcher := { nfkc := id, ratio := fun _ _ => 0, repr := id, digit := plainDigit }

/-- The path of the file of the task. -/
def notePath : Path := ["s1".toList, "a.md".toList]

/-- A task with one file. -/
def oneFile (text : Text) : Exec where
  turn := { taskId := "s1".toList }
  ws := { disk := { files := PyDict.ofList [(notePath, { text := text })], dirs := [["s1".toList]] } }

/-- An action on the file. -/
def onNote (type : ActionType) (fields : List (Text × PyVal)) : Step where
  planned :=
    { type := type.name,
      params := { fields := PyDict.ofList (("filename".toList, .str "a.md".toList) :: fields) } }

theorem onNote_action (type : ActionType) (fields : List (Text × PyVal)) :
    (onNote type fields).planned.action = .ok ⟨type, (onNote type fields).planned.params⟩ := by
  rw [Planned.action, onNote]
  dsimp only
  rw [find_name]

end AgentLangraph.Artifact
