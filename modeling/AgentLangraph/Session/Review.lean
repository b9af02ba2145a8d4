import AgentLangraph.Lib.Party
import AgentLangraph.Lib.Trace
import AgentLangraph.Session.Store

/-! Resolving a review: `submit_review` (`graph_runner.py`) and the timeout sweep
    (`review_timeout_service.py`). Both read the task, go on if it waits for a review, and save what
    they make of their copy; between the two the task still waits. Every load and every save is one
    step.

        load, WAITING_REVIEW? → node, save → … → save      list → ABANDONED, save -/

namespace AgentLangraph.Session
open PyText Trace

inductive ReviewPhase
  | idle
  /-- Went on with a copy; the number says how many saves had been written by then. -/
  | acting (seen : ℕ) (copy : AgentState)
  | through
  deriving DecidableEq

/-- A call of `submit_review`, or one round of the sweep for the task. -/
structure Reviewer where
  sweep : Bool := false
  phase : ReviewPhase := .idle
  deriving DecidableEq

/-- The task and those who resolve its review. The log has, latest first, who wrote the row and whether
    it was a decision: a state that does not wait for a review any more. -/
structure Reviews where
  row : Option AgentState
  reviewers : List Reviewer
  log : List (ℕ × Bool) := []
  deriving DecidableEq

inductive ReviewStep
  /-- The load of `submit_review`; for the sweep `list_waiting_review_older_than`, with what the
      comparison with the deadline says. -/
  | load (i : ℕ) (expired : Bool)
  /-- A save of a node of the resumed graph, or the one at the end of `submit_review`. -/
  | save (i : ℕ) (w : Surroundings) (s : AgentState)
  /-- The save of the sweep. -/
  | timeout (i : ℕ) (w : Surroundings)
  /-- The call returns or raises. -/
  | leave (i : ℕ)

/-- A save that replaces the row. -/
def written (w : Surroundings) (row : Option AgentState) (s : AgentState) : Bool :=
  !w.tombstoned && !decide (Protects row s) && (writeRow w row s).isOk

/-- What `process_expired` makes of a task (`REVIEW_TIMEOUT_ACTION`). -/
def timedOutReview (escalate : Bool) (s : AgentState) : AgentState :=
  if escalate then { s with reviewRequired := true }
  else { s with reviewRequired := false, status := .abandoned, currentNode := "review_timeout".toList }

def Reviews.goTo (r : Reviews) (i : ℕ) (p : Reviewer) (phase : ReviewPhase) : Reviews :=
  { r with reviewers := r.reviewers.set i { p with phase := phase } }

def Reviews.saveBy (r : Reviews) (i : ℕ) (w : Surroundings) (s : AgentState) : Reviews :=
  { r with
    row := rowAfter r.row (w, s)
    log := if written w r.row s then (i, decide (s.status ≠ .waitingReview)) :: r.log else r.log }

/-- One step of a reviewer. No node of a resumed graph puts the task back to waiting: that is done
    where there is no feedback yet. -/
def Reviews.act (escalate : Bool) (r : Reviews) (i : ℕ) (p : Reviewer) : ReviewStep → Reviews
  | .load _ expired =>
    match p.phase, r.row with
    | .idle, some stored =>
      if stored.status = .waitingReview ∧ (p.sweep = true → expired = true) then
        r.goTo i p (.acting r.log.length stored)
      else r.goTo i p .through
    | .idle, none => r.goTo i p .through
    | _, _ => r
  | .save _ w s =>
    match p.sweep, p.phase with
    | false, .acting seen copy =>
      if s.status = .waitingReview ∧ copy.status ≠ .waitingReview then r
      else (r.saveBy i w s).goTo i p (.acting seen s)
    | _, _ => r
  | .timeout _ w =>
    match p.sweep, p.phase with
    | true, .acting _ copy => (r.saveBy i w (timedOutReview escalate copy)).goTo i p .through
    | _, _ => r
  | .leave _ => r.goTo i p .through

def ReviewStep.party : ReviewStep → ℕ
  | .load i _ | .save i _ _ | .timeout i _ | .leave i => i

def Reviews.step (escalate : Bool) (r : Reviews) (a : ReviewStep) : Reviews :=
  match r.reviewers[a.party]? with
  | some p => r.act escalate a.party p a
  | none => r

/-- Whatever is written after a decision is written by the one who decided. -/
def Reviews.ResolvedOnce (r : Reviews) : Prop :=
  r.log.Pairwise fun later earlier => earlier.2 = true → later.1 = earlier.1

/-- The state that a step saves, and how much its author had seen. -/
def Reviews.saving (escalate : Bool) (r : Reviews) (a : ReviewStep) :
    Option (ℕ × Surroundings × AgentState) :=
  match r.reviewers[a.party]?, a with
  | some ⟨false, .acting seen copy⟩, .save _ w s =>
    if s.status = .waitingReview ∧ copy.status ≠ .waitingReview then none else some (seen, w, s)
  | some ⟨true, .acting seen copy⟩, .timeout _ w => some (seen, w, timedOutReview escalate copy)
  | _, _ => none

/-- No one else has decided between the load and a save that is written. -/
def Reviews.Current (escalate : Bool) (r : Reviews) (a : ReviewStep) : Prop :=
  ∀ x ∈ r.saving escalate a, written x.2.1 r.row x.2.2 = true →
    ∀ e ∈ r.log.take (r.log.length - x.1), e.2 = true → e.1 = a.party

/-- The task with those who are going to resolve its review; the flags say which are the sweep. -/
def Reviews.start (row : Option AgentState) (sweeps : List Bool) : Reviews where
  row := row
  reviewers := sweeps.map fun sweep => { sweep := sweep }

/-! ### What a save writes and what a step does -/

theorem rowAfter_of_not_written {w : Surroundings} {row : Option AgentState} {s : AgentState}
    (h : written w row s ≠ true) : rowAfter row (w, s) = row := by
  rw [rowAfter, save]
  split_ifs with htomb hprot
  · rfl
  · rfl
  · cases hw : writeRow w row s with
    | error e => rfl
    | ok s' =>
      rw [Bool.not_eq_true] at htomb
      exact absurd (by simp [written, show w.tombstoned = false from htomb, hprot, hw,
        Except.isOk, Except.toBool]) h

/-- A written row has the status of the state that was saved. -/
theorem rowAfter_of_written {w : Surroundings} {row : Option AgentState} {s : AgentState}
    (h : written w row s = true) :
    ∃ s', rowAfter row (w, s) = some s' ∧ s'.status = s.status := by
  rw [written, Bool.and_eq_true, Bool.and_eq_true] at h
  obtain ⟨⟨htomb, hprot⟩, hok⟩ := h
  cases hw : writeRow w row s with
  | error e =>
    rw [hw] at hok
    cases hok
  | ok s' =>
    refine ⟨s', ?_, (writeRow_untouched hw).status⟩
    rw [rowAfter, save, if_neg (by simpa using htomb), if_neg (by simpa using hprot), hw]
    rfl

theorem timedOutReview_status {escalate : Bool} {s : AgentState}
    (h : (timedOutReview escalate s).status = .waitingReview) : s.status = .waitingReview := by
  cases escalate with
  | false => cases h
  | true => exact h

/-- A step of a reviewer who saves nothing: it loads a task that waits, or ends, or is no step of
    its phase. -/
def Reviews.Quiet (r : Reviews) (i : ℕ) (p : Reviewer) (r' : Reviews) : Prop :=
  r' = r ∨ r' = r.goTo i p .through ∨
    ∃ stored ∈ r.row, stored.status = .waitingReview ∧
      r' = r.goTo i p (.acting r.log.length stored)

/-- A step that saves: the author had loaded the task, and its copy waits where the saved state does. -/
def Reviews.Saves (r : Reviews) (i : ℕ) (p : Reviewer) (x : ℕ × Surroundings × AgentState)
    (r' : Reviews) : Prop :=
  ∃ copy phase, p.phase = .acting x.1 copy ∧
    (x.2.2.status = .waitingReview → copy.status = .waitingReview) ∧
    (phase = .through ∨ phase = .acting x.1 x.2.2) ∧
    r' = (r.saveBy i x.2.1 x.2.2).goTo i p phase

/-- Every step of a reviewer is quiet or saves. -/
theorem Reviews.act_cases (escalate : Bool) (r : Reviews) {p : Reviewer} {a : ReviewStep}
    (hp : r.reviewers[a.party]? = some p) :
    match r.saving escalate a with
    | none => r.Quiet a.party p (r.act escalate a.party p a)
    | some x => r.Saves a.party p x (r.act escalate a.party p a) := by
  obtain ⟨sweep, phase⟩ := p
  cases a with
  | load i expired =>
    simp only [saving, hp]
    cases phase with
    | acting seen copy => exact Or.inl rfl
    | through => exact Or.inl rfl
    | idle =>
      cases hrow : r.row with
      | none => exact Or.inr (Or.inl (by simp only [act, hrow]))
      | some stored =>
        by_cases hwait : stored.status = .waitingReview ∧ (sweep = true → expired = true)
        · exact Or.inr (Or.inr ⟨stored, hrow, hwait.1, by simp only [act, hrow, if_pos hwait]⟩)
        · exact Or.inr (Or.inl (by simp only [act, hrow, if_neg hwait]))
  | save i w s =>
    cases sweep with
    | true => simp only [saving, hp]; exact Or.inl rfl
    | false =>
      cases phase with
      | idle => simp only [saving, hp]; exact Or.inl rfl
      | through => simp only [saving, hp]; exact Or.inl rfl
      | acting seen copy =>
        by_cases hback : s.status = .waitingReview ∧ copy.status ≠ .waitingReview
        · simp only [saving, hp, if_pos hback]
          exact Or.inl (by simp only [act, if_pos hback])
        · simp only [saving, hp, if_neg hback]
          refine ⟨copy, .acting seen s, rfl, fun hs => ?_, Or.inr rfl, ?_⟩
          · exact not_not.1 fun hcopy => hback ⟨hs, hcopy⟩
          · simp only [act, if_neg hback]
  | timeout i w =>
    cases sweep with
    | false => simp only [saving, hp]; exact Or.inl rfl
    | true =>
      cases phase with
      | idle => simp only [saving, hp]; exact Or.inl rfl
      | through => simp only [saving, hp]; exact Or.inl rfl
      | acting seen copy =>
        simp only [saving, hp]
        exact ⟨copy, .through, rfl, timedOutReview_status, Or.inl rfl, rfl⟩
  | leave i =>
    simp only [saving, hp]
    exact Or.inr (Or.inl rfl)

/-! ### What a run keeps as long as every save is current -/

/-- A reviewer who goes on has seen no decision, and has not decided itself without knowing it. -/
def Informed (log : List (ℕ × Bool)) (i : ℕ) : ReviewPhase → Prop
  | .acting seen copy =>
    seen ≤ log.length ∧ (∀ e ∈ log.drop (log.length - seen), e.2 = false) ∧
      ((i, true) ∈ log → copy.status ≠ .waitingReview)
  | _ => True

structure Reviews.Sound (r : Reviews) : Prop where
  once : r.ResolvedOnce
  decided : ∀ e ∈ r.log, e.2 = true → ∀ s ∈ r.row, s.status ≠ .waitingReview
  informed : ∀ i p, r.reviewers[i]? = some p → Informed r.log i p.phase

theorem Reviews.sound_start (row : Option AgentState) (sweeps : List Bool) :
    (Reviews.start row sweeps).Sound where
  once := .nil
  decided := fun e he => absurd he (by simp [Reviews.start])
  informed := by
    intro i p hp
    have hmem : p ∈ sweeps.map fun sweep => ({ sweep := sweep } : Reviewer) :=
      List.mem_of_getElem? hp
    obtain ⟨sweep, -, rfl⟩ := List.mem_map.1 hmem
    trivial

theorem Reviews.Sound.goTo {r : Reviews} (h : r.Sound) {i : ℕ} {p : Reviewer}
    (hp : r.reviewers[i]? = some p) {phase : ReviewPhase} (hphase : Informed r.log i phase) :
    (r.goTo i p phase).Sound where
  once := h.once
  decided := h.decided
  informed := Party.forall_getElem?_set h.informed hp hphase

/-- A load that goes on has seen the whole log, and no decision is in it. -/
theorem Reviews.Sound.quiet {r r' : Reviews} (h : r.Sound) {i : ℕ} {p : Reviewer}
    (hp : r.reviewers[i]? = some p) (hquiet : r.Quiet i p r') : r'.Sound := by
  rcases hquiet with rfl | rfl | ⟨stored, hrow, hwait, rfl⟩
  · exact h
  · exact h.goTo hp trivial
  · have hnone : ∀ e ∈ r.log, e.2 = false := by
      intro e he
      by_contra htrue
      exact h.decided e he (by simpa using htrue) stored hrow hwait
    refine h.goTo hp ⟨le_rfl, ?_, fun hmem => absurd (hnone _ hmem) (by simp)⟩
    intro e he
    exact hnone e (List.mem_of_mem_drop he)

/-- One more entry of someone else, or one that says the copy. -/
theorem Informed.cons {log : List (ℕ × Bool)} {i : ℕ} {phase : ReviewPhase}
    (h : Informed log i phase) {e : ℕ × Bool} (he : e ≠ (i, true)) :
    Informed (e :: log) i phase := by
  cases phase with
  | idle => trivial
  | through => trivial
  | acting seen copy =>
    obtain ⟨hle, hdrop, hcopy⟩ := h
    refine ⟨Nat.le_succ_of_le hle, ?_, ?_⟩
    · rw [List.length_cons, Nat.succ_sub hle]
      exact hdrop
    · intro hmem
      exact hcopy ((List.mem_cons.1 hmem).resolve_left (Ne.symm he))

/-- A decision that the author of a save has not seen is one since its load. -/
theorem Informed.since {log : List (ℕ × Bool)} {i seen : ℕ} {copy : AgentState}
    (h : Informed log i (.acting seen copy)) {e : ℕ × Bool} (he : e ∈ log) (hdec : e.2 = true) :
    e ∈ log.take (log.length - seen) := by
  rw [← List.take_append_drop (log.length - seen) log, List.mem_append] at he
  rcases he with he | he
  · exact he
  · exact absurd hdec (by rw [h.2.1 e he]; simp)

/-! ### A review is resolved once -/

theorem Reviews.saveBy_of_not_written {r : Reviews} (i : ℕ) {w : Surroundings} {s : AgentState}
    (h : written w r.row s ≠ true) : r.saveBy i w s = r := by
  rw [saveBy, if_neg h, rowAfter_of_not_written h]

theorem Reviews.log_saveBy {r : Reviews} (i : ℕ) {w : Surroundings} {s : AgentState}
    (h : written w r.row s = true) :
    (r.saveBy i w s).log = (i, decide (s.status ≠ .waitingReview)) :: r.log := by
  rw [saveBy, if_pos h]

/-- A save that is written adds its author, and must not come after the decision of someone else. -/
theorem Reviews.resolvedOnce_saveBy {r : Reviews} (h : r.ResolvedOnce) (i : ℕ) (w : Surroundings)
    (s : AgentState) : (r.saveBy i w s).ResolvedOnce ↔
      (written w r.row s = true → ∀ e ∈ r.log, e.2 = true → i = e.1) := by
  by_cases hw : written w r.row s = true
  · rw [ResolvedOnce, log_saveBy i hw, List.pairwise_cons]
    exact ⟨fun hall _ => hall.1, fun hall => ⟨hall hw, h⟩⟩
  · rw [saveBy_of_not_written i hw]
    exact iff_of_true h fun hw' => absurd hw' hw

/-- STEP: what a step writes comes after the decision of someone else exactly when that decision was
    made since its author's load. -/
theorem Reviews.Sound.resolvedOnce_iff {r : Reviews} (h : r.Sound) (escalate : Bool)
    (a : ReviewStep) : (r.step escalate a).ResolvedOnce ↔ r.Current escalate a := by
  rw [step, Current]
  cases hp : r.reviewers[a.party]? with
  | none =>
    have hnone : r.saving escalate a = none := by simp only [saving, hp]
    exact iff_of_true h.once fun x hx => absurd (hnone ▸ hx) (by simp)
  | some p =>
    have hcases := Reviews.act_cases escalate r hp
    cases hsaving : r.saving escalate a with
    | none =>
      rw [hsaving] at hcases
      exact iff_of_true (h.quiet hp hcases).once fun x hx => absurd hx (by simp)
    | some x =>
      rw [hsaving] at hcases
      obtain ⟨copy, phase, hphase, -, -, heq⟩ := hcases
      have hinf := h.informed _ p hp
      rw [hphase] at hinf
      change (r.act escalate a.party p a).ResolvedOnce ↔ _
      rw [heq]
      refine (resolvedOnce_saveBy h.once a.party x.2.1 x.2.2).trans ?_
      constructor
      · intro hall y hy hw e he hdec
        cases hy
        exact (hall hw e (List.mem_of_mem_take he) hdec).symm
      · intro hall hw e he hdec
        exact (hall x rfl hw e (hinf.since he hdec) hdec).symm

/-- STEP: a save that is written after no decision but its author's. -/
theorem Reviews.Sound.saveBy {r : Reviews} (h : r.Sound) {i : ℕ} {w : Surroundings}
    {s : AgentState} (honce : (r.saveBy i w s).ResolvedOnce) (hw : written w r.row s = true)
    (hown : (i, true) ∈ r.log → s.status ≠ .waitingReview) {p : Reviewer}
    (hp : r.reviewers[i]? = some p) {phase : ReviewPhase}
    (hphase : Informed (r.saveBy i w s).log i phase) :
    ((r.saveBy i w s).goTo i p phase).Sound where
  once := honce
  decided := by
    obtain ⟨s', hrow, hstatus⟩ := rowAfter_of_written hw
    intro e he hdec t ht
    rw [Option.some.inj (Option.mem_def.1 ht ▸ hrow : some t = some s'), hstatus]
    change e ∈ (r.saveBy i w s).log at he
    rw [log_saveBy i hw, List.mem_cons] at he
    rcases he with rfl | he
    · exact of_decide_eq_true hdec
    · have hi := (resolvedOnce_saveBy h.once i w s).1 honce hw e he hdec
      have hmine : e = (i, true) := Prod.ext hi.symm hdec
      exact hown (hmine ▸ he)
  informed := by
    intro j q hq
    change (r.reviewers.set i { p with phase := phase })[j]? = some q at hq
    change Informed (r.saveBy i w s).log j q.phase
    rw [Party.getElem?_set_of_some hp] at hq
    split_ifs at hq with hji
    · rw [← Option.some.inj hq, hji]
      exact hphase
    · rw [log_saveBy i hw]
      refine (h.informed j q hq).cons fun heq => hji ?_
      exact (congrArg Prod.fst heq).symm

/-- STEP: a step that is current keeps everyone informed. -/
theorem Reviews.Sound.step {r : Reviews} (h : r.Sound) {escalate : Bool} {a : ReviewStep}
    (ha : r.Current escalate a) : (r.step escalate a).Sound := by
  have honce := (h.resolvedOnce_iff escalate a).2 ha
  rw [Reviews.step] at honce ⊢
  cases hp : r.reviewers[a.party]? with
  | none => exact h
  | some p =>
    have hcases := Reviews.act_cases escalate r hp
    simp only [hp] at honce ⊢
    cases hsaving : r.saving escalate a with
    | none =>
      rw [hsaving] at hcases
      exact h.quiet hp hcases
    | some x =>
      rw [hsaving] at hcases
      obtain ⟨copy, phase, hphase, hback, hnext, heq⟩ := hcases
      have hinf := h.informed _ p hp
      rw [hphase] at hinf
      -- whoever has decided saves no state that waits
      have hown : (a.party, true) ∈ r.log → x.2.2.status ≠ .waitingReview :=
        fun hmem hwait => hinf.2.2 hmem (hback hwait)
      rw [heq] at honce ⊢
      by_cases hw : written x.2.1 r.row x.2.2 = true
      · refine h.saveBy honce hw hown hp ?_
        rcases hnext with rfl | rfl
        · trivial
        · rw [log_saveBy _ hw]
          refine ⟨Nat.le_succ_of_le hinf.1, ?_, fun hmem => ?_⟩
          · rw [List.length_cons, Nat.succ_sub hinf.1]
            exact hinf.2.1
          · rcases List.mem_cons.1 hmem with hmine | hmine
            · exact of_decide_eq_true (congrArg Prod.snd hmine).symm
            · exact hown hmine
      · rw [saveBy_of_not_written _ hw]
        refine h.goTo hp ?_
        rcases hnext with rfl | rfl
        · trivial
        · exact ⟨hinf.1, hinf.2.1, hown⟩

/-- CORRECT when it can be: in every run of calls and sweeps the review is resolved once exactly when
    no save is written over a decision that someone else made since its author's load. -/
theorem resolved_once_iff (escalate : Bool) (row : Option AgentState) (sweeps : List Bool)
    (trace : List ReviewStep) :
    Along (Reviews.step escalate) (fun r a => (r.step escalate a).ResolvedOnce)
        (Reviews.start row sweeps) trace ↔
      Along (Reviews.step escalate) (Reviews.Current escalate) (Reviews.start row sweeps) trace :=
  along_iff (fun _ a h => h.resolvedOnce_iff escalate a) (fun _ _ h ha => h.step ha) trace _
    (Reviews.sound_start row sweeps)

/-- An approval runs to its end while the sweep holds the task it has listed. -/
def approveDuringSweep : List ReviewStep :=
  [.load 0 false, .load 1 true, .save 0 idleProcess (secondTurn .reviewResolved),
    .save 0 idleProcess (secondTurn .completed), .leave 0, .timeout 1 idleProcess]

/-- The approved and completed task is abandoned after all. -/
theorem approved_then_abandoned :
    let r := Reviews.start (some (secondTurn .waitingReview)) [false, true]
    (run (Reviews.step false) r (approveDuringSweep.take 5)).row.map AgentState.status =
        some .completed ∧
      (run (Reviews.step false) r approveDuringSweep).row.map AgentState.status =
        some .abandoned ∧
      (run (Reviews.step false) r approveDuringSweep).log =
        [(1, true), (0, true), (0, true)] ∧
      ¬ (run (Reviews.step false) r approveDuringSweep).ResolvedOnce := by
  intro r
  have hruns : (run (Reviews.step false) r (approveDuringSweep.take 5)).row.map AgentState.status =
        some .completed ∧
      (run (Reviews.step false) r approveDuringSweep).row.map AgentState.status = some .abandoned ∧
      (run (Reviews.step false) r approveDuringSweep).log = [(1, true), (0, true), (0, true)] := by
    decide +kernel
  obtain ⟨happroved, habandoned, hlog⟩ := hruns
  refine ⟨happroved, habandoned, hlog, fun h => ?_⟩
  rw [Reviews.ResolvedOnce, hlog] at h
  exact absurd (List.rel_of_pairwise_cons h (List.mem_cons_self ..) rfl) (by decide)

end AgentLangraph.Session
