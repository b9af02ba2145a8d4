import AgentLangraph.Run.Controller

/-! The turns of a session (`session_turn.py`, and the start of a turn in `graph_runner.py`). A new
    turn is the stored record with its execution fields reset; it is saved, a run is begun for it and
    the graph saves its outcomes. The store looks at the status alone, so a record that is terminal
    protects itself from the next turn too.

        row (turn k, terminal) ── prepare ──▶ NEW, turn k + 1 ── save ──▶ row (turn k, terminal) -/

namespace AgentLangraph.Run
open PyText Session

/-- `_fresh_interrupt_context_for_turn`. -/
def freshInterruptContextForTurn (s : AgentState) : Fields :=
  let ctx := ensureInterruptContext s
  let ctx := (ctx.put "pause_requested" (.bool false)).put "cancel_requested" (.bool false)
  let ctx := (ctx.pop "abort_requested").put "control_state" (.str "IDLE".toList)
  (ctx.put "runtime_state" (.str "RUNNING".toList)).put "active_step" .none

/-- `_reset_execution_fields`, with the payload that `clear_turn_carryover` leaves. -/
def resetExecutionFields (s : AgentState) (payload : Fields) : AgentState :=
  { s.mergePayload payload with
    interruptContext := some (freshInterruptContextForTurn s)
    status := .new
    currentNode := "api".toList
    sessionTurn := some (s.sessionTurn.getD 0 + 1)
    reviewRequired := false }

/-- `create_initial_state` for a session, at turn 1. -/
def createInitialState (sessionId : Text) (payload : Fields) : AgentState where
  taskId := sessionId
  sessionId := sessionId
  sessionTurn := some 1
  inputPayload := payload

/-- `prepare_session_turn` for a session, and whether the task is new. What is made of the request
    (`build_inbound_merged_payload` and its companions) is the argument `inbound`. -/
def prepareSessionTurn (w : Surroundings) (row : Option AgentState) (sessionId : Text)
    (newSession : Bool) (inbound : Option AgentState → Fields) : AgentState × Bool :=
  match row.filter fun existing => !newSession && existing.sessionId == sessionId with
  | some existing => (syncFsmState w (resetExecutionFields existing (inbound (some existing))), false)
  | none => (createInitialState sessionId (inbound none), true)

/-- What the runner does with a prepared turn before the graph runs. -/
def turnProgram (cfg : Surroundings) (s : AgentState) (runId : Text) (streamed : Bool) : List Op :=
  .save s :: startProgram cfg s runId streamed

/-- What `load` returns is what was saved, as far as the status and the turn go. -/
def Returned (row : Option AgentState) (saved : AgentState) : Prop :=
  ∃ r ∈ row, r.status = saved.status ∧ r.sessionTurn = saved.sessionTurn

/-- The turn is not lost: each state of it that is not terminal is returned once it is saved. -/
def TurnKept (cfg : Surroundings) (w : World) (turn : Option ℕ) (trace : List Op) : Prop :=
  ∀ pre outcome post, trace = pre ++ Op.save outcome :: post → outcome.sessionTurn = turn →
    ¬ outcome.status.Terminal → Returned (w.run cfg (pre ++ [Op.save outcome])).row outcome

variable {cfg : Surroundings}

/-! ### The row along a run -/

/-- A row with a terminal status, whatever else it holds. -/
def World.Settled (w : World) : Prop := ∃ r, w.row = some r ∧ r.status.Terminal

theorem settled_step (w : World) (op : Op) (h : w.Settled) : (w.step cfg op).Settled := by
  obtain ⟨r, hrow, hterm⟩ := h
  rw [World.Settled, step_row]
  cases op with
  | save s =>
    rw [hrow]
    exact rowAfter_terminal hterm _
  | _ => exact ⟨r, hrow, hterm⟩

/-- Once terminal, the row is terminal along every run. -/
theorem settled_run (trace : List Op) (w : World) (h : w.Settled) : (w.run cfg trace).Settled :=
  Trace.run_inv (I := World.Settled) (P := fun _ => True) (fun w op h _ => settled_step w op h)
    trace w h fun _ _ => trivial

/-- A terminal row drops every state that is not terminal. -/
theorem rowAfter_of_settled {r : AgentState} (h : r.status.Terminal)
    (saved : Surroundings × AgentState) (hsaved : ¬ saved.2.status.Terminal) :
    rowAfter (some r) saved = some r := by
  rcases rowAfter_cases (some r) saved with heq | ⟨s', -, -, hprot⟩
  · exact heq
  · exact absurd ⟨r, rfl, h, hsaved⟩ hprot

theorem save_of_settled {w : World} (h : w.Settled) {s : AgentState} (hs : ¬ s.status.Terminal) :
    (w.step cfg (.save s)).row = w.row := by
  obtain ⟨r, hrow, hterm⟩ := h
  rw [step_row, hrow]
  exact rowAfter_of_settled hterm (w.surroundings cfg, s) hs

/-- Until some state of a terminal status is saved, the old record is all that is stored. -/
theorem row_of_settled (trace : List Op) (w : World) (h : w.Settled)
    (hsaves : ∀ s, .save s ∈ trace → ¬ s.status.Terminal) : (w.run cfg trace).row = w.row := by
  have hstep : ∀ (v : World) (op : Op), (v.row = w.row ∧ v.Settled) →
      (∀ s, op = .save s → ¬ s.status.Terminal) →
        (v.step cfg op).row = w.row ∧ (v.step cfg op).Settled := by
    rintro v op ⟨hrow, hset⟩ hop
    refine ⟨?_, settled_step v op hset⟩
    rw [← hrow]
    cases op with
    | save s => exact save_of_settled hset (hop s rfl)
    | _ => exact step_row v _
  exact (Trace.run_inv hstep trace w ⟨rfl, h⟩ fun op hop s heq => hsaves s (heq ▸ hop)).1

/-! ### The next turn -/

/-- A row of the session is continued. -/
theorem prepareSessionTurn_of_session (w : Surroundings) {existing : AgentState} {sessionId : Text}
    (hsession : existing.sessionId = sessionId) (inbound : Option AgentState → Fields) :
    prepareSessionTurn w (some existing) sessionId false inbound =
      (syncFsmState w (resetExecutionFields existing (inbound (some existing))), false) := by
  have hbranch : (some existing).filter (fun r => !false && r.sessionId == sessionId) =
      some existing := by
    simp [Option.filter, hsession]
  rw [prepareSessionTurn, hbranch]

/-- A continued session is at its next turn, with status NEW. -/
theorem prepareSessionTurn_continued (w : Surroundings) {existing : AgentState} {sessionId : Text}
    (hsession : existing.sessionId = sessionId) (inbound : Option AgentState → Fields) :
    ∃ s, prepareSessionTurn w (some existing) sessionId false inbound = (s, false) ∧
      s.status = .new ∧ s.sessionTurn = some (existing.sessionTurn.getD 0 + 1) := by
  have hkeep := untouched_syncFsmState w (resetExecutionFields existing (inbound (some existing)))
  exact ⟨_, prepareSessionTurn_of_session w hsession inbound, hkeep.status, hkeep.sessionTurn⟩

/-- A save that a terminal row drops is not what is loaded. -/
theorem not_returned {w : World} (h : w.Settled) {s : AgentState} (hs : ¬ s.status.Terminal) :
    ¬ Returned (w.step cfg (.save s)).row s := by
  rintro ⟨r, hr, hstatus, -⟩
  have hsettled : (w.step cfg (.save s)).Settled := settled_step w (.save s) h
  obtain ⟨r', hrow, hterm⟩ := hsettled
  rw [Option.mem_def, hrow] at hr
  rw [← hstatus, ← Option.some.inj hr] at hs
  exact hs hterm

/-- A cancelled, timed-out or aborted record stops the run of the next turn. -/
theorem stopped_of_settled {w : World} {existing : AgentState} (hrow : w.row = some existing)
    (hstop : Timeout existing ∨ Aborted existing) {s : AgentState} (htask : s.taskId ≠ [])
    (phase : Text) : ∃ message, assertRunActive cfg w s phase = .error (.runCancelled message) := by
  refine assertRunActive_cancelled_iff.2 (Or.inl ⟨existing, ?_, hstop⟩)
  rw [storedFor, if_neg htask, hrow]
  rfl

/-- NOT CORRECT: whatever record with a terminal status is stored, the next turn of its session is
    lost. Along every run that holds the runner's start of the turn, no state that is not terminal is
    returned after its save; and while the graph has saved no terminal one, the old record is all
    that is stored and, if it says stop, every check of the new run raises. -/
theorem next_turn_lost (cfg : Surroundings) (w : World) (existing : AgentState) (sessionId : Text)
    (inbound : Option AgentState → Fields) (hrow : w.row = some existing)
    (hterm : existing.status.Terminal) (hsession : existing.sessionId = sessionId) :
    ∃ s, prepareSessionTurn (w.surroundings cfg) w.row sessionId false inbound = (s, false) ∧
      s.status = .new ∧ s.sessionTurn = some (existing.sessionTurn.getD 0 + 1) ∧
      ∀ runId streamed trace, (turnProgram cfg s runId streamed).Sublist trace →
        ¬ TurnKept cfg w s.sessionTurn trace ∧
        (∀ pre outcome post, trace = pre ++ .save outcome :: post → ¬ outcome.status.Terminal →
          (w.run cfg (pre ++ [.save outcome])).row = (w.run cfg pre).row ∧
            ¬ Returned (w.run cfg (pre ++ [.save outcome])).row outcome) ∧
        ((∀ outcome, .save outcome ∈ trace → ¬ outcome.status.Terminal) →
          (w.run cfg trace).row = some existing ∧
            (Timeout existing ∨ Aborted existing → ∀ carried phase, carried.taskId ≠ [] →
              ∃ message, assertRunActive cfg (w.run cfg trace) carried phase =
                .error (.runCancelled message))) := by
  obtain ⟨s, hprep, hstatus, hturn⟩ :=
    prepareSessionTurn_continued (w.surroundings cfg) hsession inbound
  have hsettled : w.Settled := ⟨existing, hrow, hterm⟩
  refine ⟨s, by rw [hrow, hprep], hstatus, hturn, fun runId streamed trace hsub => ?_⟩
  have hdropped : ∀ pre outcome post, trace = pre ++ .save outcome :: post →
      ¬ outcome.status.Terminal →
        (w.run cfg (pre ++ [.save outcome])).row = (w.run cfg pre).row ∧
          ¬ Returned (w.run cfg (pre ++ [.save outcome])).row outcome := by
    intro pre outcome post _ houtcome
    have hset : (w.run cfg pre).Settled := settled_run pre w hsettled
    have hlast : w.run cfg (pre ++ [.save outcome]) = (w.run cfg pre).step cfg (.save outcome) :=
      Trace.run_append _ _ _
    rw [hlast]
    exact ⟨save_of_settled hset houtcome, not_returned hset houtcome⟩
  refine ⟨fun hkept => ?_, hdropped, fun hsaves => ?_⟩
  · -- the prepared state is itself saved, and dropped
    have hmem : Op.save s ∈ trace := hsub.subset List.mem_cons_self
    obtain ⟨pre, post, heq⟩ := List.append_of_mem hmem
    have hnew : ¬ s.status.Terminal := by
      rw [hstatus]
      decide
    exact (hdropped pre s post heq hnew).2 (hkept pre s post heq rfl hnew)
  · have hkept : (w.run cfg trace).row = some existing :=
      (row_of_settled trace w hsettled hsaves).trans hrow
    exact ⟨hkept, fun hstop carried phase htask => stopped_of_settled hkept hstop htask phase⟩

/-- The process after a turn that ended with some status. -/
def afterTurn (status : TaskStatus) : World := { row := some (secondTurn status) }

/-- The turn after a cancelled one is lost. -/
theorem turn_after_cancel_lost :
    ∃ s, prepareSessionTurn ((afterTurn .cancelled).surroundings idleProcess)
        (afterTurn .cancelled).row "s1".toList false (fun _ => PyDict.empty) = (s, false) ∧
      s.sessionTurn = some 3 ∧
        ¬ TurnKept idleProcess (afterTurn .cancelled) s.sessionTurn
          (turnProgram idleProcess s "b2e1".toList true) := by
  obtain ⟨s, hprep, -, hturn, hlost⟩ := next_turn_lost idleProcess (afterTurn .cancelled)
    (secondTurn .cancelled) "s1".toList (fun _ => PyDict.empty) rfl (by decide) rfl
  exact ⟨s, hprep, hturn, (hlost "b2e1".toList true _ (List.Sublist.refl _)).1⟩

/-- After a completed second turn, the third one waits for a review that nobody ever loads. -/
theorem review_of_next_turn_lost :
    let turn := (prepareSessionTurn idleProcess (afterTurn .completed).row "s1".toList false
      fun _ => PyDict.empty).1
    let waiting := { turn with status := .waitingReview, reviewRequired := true }
    waiting.sessionTurn = some 3 ∧
      ¬ Returned ((afterTurn .completed).run idleProcess
        (turnProgram idleProcess turn "b2e1".toList true ++ [.save waiting])).row waiting := by
  have hload : ((afterTurn .completed).run idleProcess
      (turnProgram idleProcess (prepareSessionTurn idleProcess (afterTurn .completed).row
        "s1".toList false fun _ => PyDict.empty).1 "b2e1".toList true ++
        [.save { (prepareSessionTurn idleProcess (afterTurn .completed).row "s1".toList false
          fun _ => PyDict.empty).1 with status := .waitingReview, reviewRequired := true }])).row =
      some (secondTurn .completed) := by decide +kernel
  refine ⟨by decide +kernel, ?_⟩
  rintro ⟨r, hr, hstatus, -⟩
  rw [hload, Option.mem_def] at hr
  rw [← Option.some.inj hr] at hstatus
  exact absurd hstatus (by decide)

end AgentLangraph.Run
