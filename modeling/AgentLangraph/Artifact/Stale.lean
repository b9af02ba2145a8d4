import AgentLangraph.Artifact.Steps
import AgentLangraph.Run.Controller

/-! Actions of a run that may not write any more (`should_accept_write` is false). The fence stands in
    the handlers of a write and of an append, behind the text that is written; an edit with a target
    has none.

        write, edit without target:  text (may draft, may raise) → fence ✗
        edit with target:            file → edits → file -/

namespace AgentLangraph.Artifact
open PyText Session

/-- What the fence is told of a state. -/
def writeFence (cfg : Surroundings) (w : Run.World) (s : AgentState) : Except Raise Bool :=
  match Run.shouldAcceptWrite cfg w s with
  | .ok b => .ok b
  | .error _ => .error (.valueError [])

/-- The executor, called with the state of a run. -/
def Exec.ofRun (cfg : Surroundings) (w : Run.World) (s : AgentState) (x : Exec) : Exec :=
  { x with turn := { x.turn with taskId := s.taskId }, fence := writeFence cfg w s }

/-- A write or an edit. -/
def Step.Writes (step : Step) : Prop :=
  ∃ a, step.planned.action = .ok a ∧ (a.type = .writeArtifact ∨ a.type = .editArtifact)

/-- Every file of a task is as it was. -/
def SameTexts (taskId : Text) (before after : Disk) : Prop :=
  ∀ path, [taskDir taskId] <+: path → after.stored path = before.stored path

/-- The actions are executed, change no file of the task and are recorded as errors, each of them. -/
structure LeavesArtifacts (t : Tools) (x : Exec) (facts : TurnFacts) (steps : List Step) : Prop where
  returns : (executeActions t steps (Run.begin x facts)).2 = .ok ()
  unchanged : SameTexts x.turn.taskId x.ws.disk
    (executeActions t steps (Run.begin x facts)).1.exec.ws.disk
  recorded : ∃ entries,
    (executeActions t steps (Run.begin x facts)).1.exec.toolResults = x.toolResults ++ entries ∧
      entries.length = steps.length ∧ ∀ e ∈ entries, e.status = "error".toList

/-- The text of a write is at hand, or drafted without an exception and without a change of a file. -/
def TextAtHand (t : Tools) (step : Step) (x : Exec) (p : Params) : Prop :=
  ∃ d content, resolveWriteContent t step.supply x.turn p (x.ws.at step.now).disk = (d, .ok content) ∧
    SameTexts x.turn.taskId x.ws.disk d

/-- An edit with a target cannot be made; for a write, or an edit without a target, nothing happens
    before the fence. -/
def Refused (t : Tools) (r : Run) (step : Step) : Prop :=
  ∀ a, step.planned.action = .ok a →
    if a.type = .editArtifact ∧ editHasTarget (callParams r.exec.turn a.params) = true then
      editPlan t (callParams r.exec.turn a.params) (r.exec.ws.at step.now).disk = none
    else TextAtHand t step r.exec (callParams r.exec.turn a.params)

/-! ### One action -/

/-- The action is executed, changes no file and is recorded as an error. -/
structure Harmless (t : Tools) (r : Run) (step : Step) : Prop where
  returns : (Run.step t step r).2 = .ok ()
  unchanged : SameTexts r.exec.turn.taskId r.exec.ws.disk (Run.step t step r).1.exec.ws.disk
  recorded : ∃ e, (Run.step t step r).1.results = r.results ++ [e] ∧ e.status = "error".toList

variable {t : Tools} {step : Step} {r : Run} {x : Exec} {p : Params} {ws : Workspace}

theorem assertWriteAllowed_stale (hfence : x.fence = .ok false) :
    ∃ e, assertWriteAllowed (some x.fence) = .error e := by
  rw [hfence]
  exact ⟨_, rfl⟩

/-- Behind the text of a write there is the fence. -/
theorem executeWrite_stale (hfence : x.fence = .ok false) {d : Disk} {content : Text}
    (h : resolveWriteContent t step.supply x.turn p ws.disk = (d, .ok content)) :
    ∃ e, executeWrite t step.supply x p ws = ({ ws with disk := d }, .ok e) ∧
      e.status = "error".toList := by
  obtain ⟨e, he⟩ := assertWriteAllowed_stale hfence
  have happend : handleAppendTextArtifact t (some x.fence) (p.withContent content) d = (d, .error e) :=
    guardedWrite_refused he _ _ d
  have hwrite : handleWriteTextArtifact t (some x.fence) (p.withContent content) d = (d, .error e) :=
    guardedWrite_refused he _ _ d
  rw [executeWrite, Attempt.bind_ok (onDisk_eq h), Attempt.ask_bind_apply]
  dsimp only [id]
  cases bodyDraftToolName t.codec d x.turn.taskId (textOr p.fields "filename") with
  | append => exact ⟨_, entryOf_error (onDisk_eq happend), raisedEntry_status ..⟩
  | write => exact ⟨_, entryOf_error (onDisk_eq hwrite), raisedEntry_status ..⟩

theorem executeImprecise_stale (hfence : x.fence = .ok false) {d : Disk} {content : Text}
    (h : resolveWriteContent t step.supply x.turn p ws.disk = (d, .ok content)) :
    ∃ e, executeImprecise t step.supply x p ws = ({ ws with disk := d }, .ok e) ∧
      e.status = "error".toList := by
  obtain ⟨e, he⟩ := assertWriteAllowed_stale hfence
  have hwrite : handleWriteTextArtifact t (some x.fence) (p.withContent content) d = (d, .error e) :=
    guardedWrite_refused he _ _ d
  rw [executeImprecise, Attempt.bind_ok (onDisk_eq h)]
  exact ⟨_, entryOf_error (onDisk_eq hwrite), raisedEntry_status ..⟩

theorem sameTexts_of_files {taskId : Text} {d d' : Disk} (h : d'.files = d.files) :
    SameTexts taskId d d' := by
  intro path _
  rw [Disk.stored, Disk.stored, h]

/-- What is executed and recorded as an error is harmless if it leaves the files. -/
theorem harmless_of_entry {a : Action} (hact : step.planned.action = .ok a)
    (hty : a.type.onArtifact = true) {d : Disk} {e : Entry}
    (h : executeEntry t step r.exec a (r.exec.ws.at step.now) =
      ({ r.exec.ws.at step.now with disk := d }, .ok e)) (hstatus : e.status = "error".toList) :
    Harmless t r step ↔ SameTexts r.exec.turn.taskId r.exec.ws.disk d := by
  have hstep : Run.step t step r = _ := (congrFun (step_eq_execute hact (.inl hty)) r).trans (execute_ok h)
  constructor
  · intro hharmless
    have hsame := hharmless.unchanged
    rw [hstep] at hsame
    exact hsame
  · intro hsame
    refine ⟨?_, ?_, e, ?_, hstatus⟩ <;> rw [hstep]
    · exact hsame
    · rfl

/-- What is not recorded as an error is not harmless. -/
theorem not_harmless_of_entry {a : Action} (hact : step.planned.action = .ok a)
    (hty : a.type.onArtifact = true) {ws : Workspace} {e : Entry}
    (h : executeEntry t step r.exec a (r.exec.ws.at step.now) = (ws, .ok e))
    (hstatus : e.status ≠ "error".toList) : ¬ Harmless t r step := by
  intro hharmless
  obtain ⟨e', he', hstatus'⟩ := hharmless.recorded
  rw [step_eq_execute hact (.inl hty), execute_ok h] at he'
  have heq : r.results ++ [e] = r.results ++ [e'] := he'
  rw [List.append_cancel_left_eq, List.cons.injEq] at heq
  exact hstatus (heq.1 ▸ hstatus')

/-- An action that needs a text, and raises where there is none. -/
theorem harmless_text_iff {a : Action} (hact : step.planned.action = .ok a)
    (hty : a.type.onArtifact = true)
    {program : Ws Entry} (hentry : executeEntry t step r.exec a = program)
    (herror : ∀ d e, resolveWriteContent t step.supply r.exec.turn p (r.exec.ws.at step.now).disk =
        (d, .error e) → ∃ ws, program (r.exec.ws.at step.now) = (ws, .error e))
    (hok : ∀ d content, resolveWriteContent t step.supply r.exec.turn p (r.exec.ws.at step.now).disk =
        (d, .ok content) → ∃ e, program (r.exec.ws.at step.now) =
          ({ r.exec.ws.at step.now with disk := d }, .ok e) ∧ e.status = "error".toList) :
    Harmless t r step ↔ TextAtHand t step r.exec p := by
  rw [TextAtHand]
  rcases hr : resolveWriteContent t step.supply r.exec.turn p (r.exec.ws.at step.now).disk with ⟨d, e | content⟩
  · obtain ⟨ws, hws⟩ := herror d e hr
    rw [← hentry] at hws
    refine iff_of_false (fun h => ?_) (by simp)
    have hreturns := h.returns
    rw [step_eq_execute hact (.inl hty), execute_error hws] at hreturns
    cases hreturns
  · obtain ⟨e, he, hstatus⟩ := hok d content hr
    rw [← hentry] at he
    rw [harmless_of_entry hact hty he hstatus]
    exact ⟨fun h => ⟨d, content, rfl, h⟩, fun ⟨d', c', heq, h⟩ => by cases heq; exact h⟩

/-- STEP: an action of a stale run is harmless exactly when it is refused. -/
theorem harmless_iff (hfence : r.exec.fence = .ok false) (hwrites : step.Writes) :
    Harmless t r step ↔ Refused t r step := by
  obtain ⟨a, hact, hty⟩ := hwrites
  have hrefused : Refused t r step ↔
      if a.type = .editArtifact ∧ editHasTarget (callParams r.exec.turn a.params) = true then
        editPlan t (callParams r.exec.turn a.params) (r.exec.ws.at step.now).disk = none
      else TextAtHand t step r.exec (callParams r.exec.turn a.params) := by
    rw [Refused, hact]
    exact ⟨fun h => h a rfl, fun h b hb => by cases hb; exact h⟩
  rw [hrefused]
  rcases hty with hty | hty
  · have honArtifact : a.type.onArtifact = true := by rw [hty]; rfl
    rw [if_neg (by rw [hty]; exact fun h => nomatch h.1)]
    exact harmless_text_iff hact honArtifact (executeEntry_write hty)
      (fun d e hr => ⟨_, Attempt.bind_error (onDisk_eq hr) _⟩) fun d c hr => executeWrite_stale hfence hr
  have honArtifact : a.type.onArtifact = true := by rw [hty]; rfl
  by_cases htarget : editHasTarget (callParams r.exec.turn a.params) = true
  · rw [if_pos ⟨hty, htarget⟩]
    have hentry : executeEntry t step r.exec a = executePrecise t (callParams r.exec.turn a.params) :=
      executeEntry_precise hty htarget
    cases hplan : editPlan t (callParams r.exec.turn a.params) (r.exec.ws.at step.now).disk with
    | some plan =>
      have hok := (congrFun hentry _).trans (executePrecise_of_plan hplan)
      exact iff_of_false (not_harmless_of_entry hact honArtifact hok (by simp [okEntry])) nofun
    | none =>
      obtain ⟨d, e, he, hfiles⟩ := executePrecise_of_none hplan
      have herror := (congrFun hentry _).trans he
      rw [harmless_of_entry hact honArtifact herror (raisedEntry_status ..)]
      exact iff_of_true (sameTexts_of_files hfiles) rfl
  · rw [if_neg fun h => htarget h.2]
    exact harmless_text_iff hact honArtifact (executeEntry_imprecise hty htarget)
      (fun d e hr => ⟨_, Attempt.bind_error (onDisk_eq hr) _⟩) fun d c hr => executeImprecise_stale hfence hr

/-! ### A run of actions -/

theorem exec_of_writes (hwrites : step.Writes) :
    ∃ ws, (Run.step t step r).1.exec = { r.exec with ws := ws } := by
  obtain ⟨a, hact, hty⟩ := hwrites
  refine step_exec hact (Or.inl ?_) r
  rcases hty with hty | hty <;> rw [hty] <;> rfl

theorem turn_of_writes {steps : List Step} (hwrites : ∀ step ∈ steps, step.Writes) (r : Run) :
    (Run.steps t steps r).1.exec.turn = r.exec.turn := by
  refine Attempt.forEach_moves (R := fun r r' => r'.exec.turn = r.exec.turn) (fun _ => rfl)
    (by intro _ _ _ h h'; exact h'.trans h) (fun step hstep r => ?_) r
  obtain ⟨ws, hexec⟩ := exec_of_writes (t := t) (r := r) (hwrites step hstep)
  rw [hexec]

/-- RUN: harmless actions leave the files, one after the other, and an error each. -/
theorem leaves_of_along : ∀ {steps : List Step} {r : Run}, (∀ step ∈ steps, step.Writes) →
    Attempt.Along (Run.step t) (Harmless t) r steps →
    ∃ r', Run.steps t steps r = (r', .ok ()) ∧
      SameTexts r.exec.turn.taskId r.exec.ws.disk r'.exec.ws.disk ∧
      ∃ entries, r'.results = r.results ++ entries ∧ entries.length = steps.length ∧
        ∀ e ∈ entries, e.status = "error".toList
  | [], r, _, _ => ⟨r, rfl, fun _ _ => rfl, [], by simp, rfl, by simp⟩
  | step :: steps, r, hwrites, hal => by
      obtain ⟨hharmless, hrest⟩ := hal
      obtain ⟨e, hresults, hstatus⟩ := hharmless.recorded
      have hsame := hharmless.unchanged
      obtain ⟨ws, hexec⟩ := exec_of_writes (t := t) (r := r) (hwrites step List.mem_cons_self)
      rcases hstep : Run.step t step r with ⟨r₁, x⟩
      have hreturns := hharmless.returns
      rw [hstep] at hreturns hresults hsame hexec
      subst hreturns
      obtain ⟨r', hr', hsame', entries, hentries, hlength, herrors⟩ :=
        leaves_of_along (fun b hb => hwrites b (.tail step hb)) (hrest r₁ hstep)
      refine ⟨r', (Attempt.forEach_cons_ok hstep _).trans hr', fun path hpath => ?_, e :: entries, ?_, ?_, ?_⟩
      · rw [hexec] at hsame'
        exact (hsame' path hpath).trans (by rw [← hexec]; exact hsame path hpath)
      · rw [hentries, hresults, List.append_assoc, List.singleton_append]
      · rw [List.length_cons, List.length_cons, hlength]
      · exact List.forall_mem_cons.2 ⟨hstatus, herrors⟩

/-- Every action of a stale run, up to any point, leaves the artifacts as they are and an error entry,
    exactly when each is refused as it is come to. -/
theorem stale_leaves_iff {cfg : Surroundings} {w : Run.World} {s : AgentState} (t : Tools) (x : Exec)
    (facts : TurnFacts) (steps : List Step) (hstale : Run.shouldAcceptWrite cfg w s = .ok false)
    (hwrites : ∀ step ∈ steps, step.Writes) :
    (∀ pre, pre <+: steps → LeavesArtifacts t (x.ofRun cfg w s) facts pre) ↔
      Attempt.Along (Run.step t) (Refused t) (Run.begin (x.ofRun cfg w s) facts) steps := by
  have hfence : (Run.begin (x.ofRun cfg w s) facts).exec.fence = .ok false := by
    change writeFence cfg w s = _
    rw [writeFence, hstale]
  have hguard : Attempt.Along (Run.step t) (Harmless t) (Run.begin (x.ofRun cfg w s) facts) steps ↔
      Attempt.Along (Run.step t) (Refused t) (Run.begin (x.ofRun cfg w s) facts) steps :=
    Attempt.along_iff (I := fun r : Run => r.exec.fence = .ok false)
      (fun r step hstep hr => harmless_iff (t := t) hr (hwrites step hstep))
      (fun r step hmem r' hr _ hstep => by
        obtain ⟨ws, hexec⟩ := exec_of_writes (t := t) (r := r) (hwrites step hmem)
        rw [hstep] at hexec
        rw [hexec]
        exact hr) hfence
  rw [← hguard]
  constructor
  · intro h
    rw [Attempt.along_iff_forall]
    rintro pre step post rfl r hpre
    have hbefore := h pre (List.prefix_append ..)
    have hafter := h (pre ++ [step]) ⟨post, by simp⟩
    obtain ⟨out, hout, hws, hresults⟩ := executeActions_ok hpre
    have hturn := turn_of_writes (t := t) (fun b hb => hwrites b (List.mem_append_left _ hb))
      (Run.begin (x.ofRun cfg w s) facts)
    rw [Run.steps, hpre] at hturn
    have happend := (Attempt.forEach_append_ok hpre [step])
    rcases hstep : Run.step t step r with ⟨r₁, e | u⟩
    · rw [Attempt.forEach_cons_error hstep] at happend
      have hreturns := hafter.returns
      rw [executeActions_error happend] at hreturns
      cases hreturns
    · rw [Attempt.forEach_cons_ok hstep, Attempt.forEach_nil] at happend
      obtain ⟨out₁, hout₁, hws₁, hresults₁⟩ := executeActions_ok happend
      obtain ⟨entries, hentries, hlength, -⟩ := hbefore.recorded
      obtain ⟨entries₁, hentries₁, hlength₁, herrors⟩ := hafter.recorded
      rw [hout, hresults] at hentries
      rw [hout₁, hresults₁] at hentries₁
      obtain ⟨a, hact, hty⟩ := hwrites step (by simp)
      obtain ⟨ws, e, -, hr₁⟩ := step_ok hact
        (Or.inl (by rcases hty with hty | hty <;> rw [hty] <;> rfl)) hstep
      have hlast : r₁.results = r.results ++ [e] := by
        rw [hr₁]
        rfl
      have hsplit : entries₁ = entries ++ [e] := by
        rw [hlast, hentries, List.append_assoc, List.append_cancel_left_eq] at hentries₁
        exact hentries₁.symm
      refine ⟨by rw [hstep], fun path hpath => ?_, e, by rw [hstep]; exact hlast, ?_⟩
      · rw [hstep]
        rw [hturn] at hpath
        have hsame := hbefore.unchanged path hpath
        have hsame₁ := hafter.unchanged path hpath
        rw [hout, hws] at hsame
        rw [hout₁, hws₁] at hsame₁
        exact hsame₁.trans hsame.symm
      · exact herrors e (by rw [hsplit]; simp)
  · rintro h pre ⟨post, rfl⟩
    obtain ⟨r', hr', hsame, entries, hentries, hlength, herrors⟩ :=
      leaves_of_along (fun b hb => hwrites b (List.mem_append_left _ hb)) (Attempt.along_of_append h)
    obtain ⟨out, hout, hws, hresults⟩ := executeActions_ok hr'
    refine ⟨by rw [hout], ?_, entries, ?_, hlength, herrors⟩ <;> rw [hout]
    · rw [hws]
      exact hsame
    · rw [hresults, hentries]
      rfl

/-- A run that has been cancelled. -/
def cancelledRun : AgentState :=
  { secondTurn .running with
    executionRun := some (PyDict.ofList [("cancelled".toList, .bool true)]) }

def staleWrite : Step := onNote .writeArtifact [("content".toList, .str "new".toList)]

/-- A cancelled run has the text of a write at hand, and does not write it. -/
theorem stale_leaves_iff_write : LeavesArtifacts plainTools
    ((oneFile "old".toList).ofRun idleProcess {} cancelledRun) {} [staleWrite] := by
  have hwrites : ∀ step ∈ [staleWrite], step.Writes := by
    intro step hstep
    rw [List.mem_singleton.1 hstep]
    exact ⟨_, onNote_action .writeArtifact _, .inl rfl⟩
  refine (stale_leaves_iff plainTools (oneFile "old".toList) {} [staleWrite] (by decide +kernel) hwrites).2
    ⟨?_, fun _ _ => trivial⟩ _ (List.prefix_refl _)
  intro a ha
  rw [staleWrite, onNote_action] at ha
  cases ha
  rw [if_neg (fun h => nomatch h.1)]
  exact ⟨_, _, resolveWriteContent_given (by decide +kernel) _, fun _ _ => rfl⟩

def staleEdit : Step :=
  onNote .editArtifact [("old_text".toList, .str "old".toList), ("new_text".toList, .str "new".toList)]

/-- A cancelled run replaces a text. -/
theorem stale_edit_persists : Run.shouldAcceptWrite idleProcess {} cancelledRun = .ok false ∧
    ((executeActions plainTools [staleEdit]
      (Run.begin ((oneFile "old".toList).ofRun idleProcess {} cancelledRun) {})).1.exec.ws.disk.stored
        notePath) = some "new".toList ∧
    ¬ LeavesArtifacts plainTools ((oneFile "old".toList).ofRun idleProcess {} cancelledRun) {} [staleEdit] := by
  have hnew : ((executeActions plainTools [staleEdit]
      (Run.begin ((oneFile "old".toList).ofRun idleProcess {} cancelledRun) {})).1.exec.ws.disk.stored
        notePath) = some "new".toList := by
    decide +kernel
  refine ⟨by decide +kernel, hnew, fun h => ?_⟩
  have hsame := h.unchanged notePath (by decide +kernel)
  rw [hnew] at hsame
  revert hsame
  decide +kernel

end AgentLangraph.Artifact
