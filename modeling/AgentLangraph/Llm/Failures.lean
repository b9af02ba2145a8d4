import AgentLangraph.Llm.Retry

/-! What the breaker is told of the attempts. Each failed attempt of the provider should count once,
    an attempt that was called off not at all, and an open breaker should stay open until its timeout
    has passed, whatever it hears from calls that were let through before. -/

namespace AgentLangraph.Llm
open PyText Party Trace

variable (cfg : Settings)

/-- The end of attempt `k` of a wrapper. -/
structure Attempt where
  k : ℕ
  outcome : Outcome
  /-- The provider was called in this attempt, and not by a wrapped function that it called. -/
  own : Bool
  deriving DecidableEq

/-- The attempt of a calling wrapper that ends with the innermost one. -/
def endOfCaller (o : Outcome) : List Frame → Option Attempt
  | .trying k :: _ => some { k := k, outcome := o, own := false }
  | _ => none

/-- The attempt that a statement ends, if it ends one. -/
def attemptEnded (b : CircuitBreaker) (now : ℚ) : List Frame → Act → Option Attempt
  | .trying k :: _, .ends o => some { k := k, outcome := o, own := true }
  | .recording [] (.leave o) :: rest, .go => endOfCaller o rest
  | .entering :: rest, .go =>
    if b.refuses cfg.toPolicy now then endOfCaller (.raised circuitOpenError) rest
    else if cfg.retries = 0 then endOfCaller (.raised loopExited) rest
    else none
  | _, _ => none

def failures (records : List Record) : ℕ := records.count .failure

/-- How many failures of the provider the attempt is, by itself. -/
def Attempt.failed (a : Attempt) : ℕ :=
  match a.outcome with
  | .raised e => if a.own ∧ (e.kind = .retryable ∨ e.kind = .error) then 1 else 0
  | .returned => 0

def Attempt.aborted (a : Attempt) : Bool :=
  match a.outcome with
  | .raised e => e.kind = .aborted
  | .returned => false

/-- A failed attempt counts once, one that was called off is not recorded. -/
def Attempt.Counted (a : Attempt) : Prop :=
  failures (handle cfg a.k a.outcome).1 = a.failed ∧
    (a.aborted → (handle cfg a.k a.outcome).1 = [])

/-- The attempt was not called off; what the provider raised in it is a `RetryableError`, or of a
    retryable category and not to be tried again; what a wrapped call raised in it is neither. -/
def Attempt.Plain (a : Attempt) : Prop :=
  match a.outcome with
  | .returned => True
  | .raised e =>
    match e.kind with
    | .circuitOpen | .base => True
    | .retryable => a.own
    | .aborted => False
    | .error =>
      if a.own then (classify cfg e).retryable ∧ (tryAgain cfg e → a.k + 1 = cfg.retries)
      else ¬ (classify cfg e).retryable

/-- The breaker is open, and its timeout has not passed. -/
def CircuitBreaker.Shut (b : CircuitBreaker) (now : ℚ) : Prop :=
  b.state = .opened ∧ now - b.lastFailureTime < cfg.recoveryTimeout

def reportsSuccess : List Frame → Act → Bool
  | .recording (.success :: _) _ :: _, .go => true
  | _, _ => false

/-- The attempt that the step ends is counted as it should be, and the step does not close a breaker
    before its time. -/
structure Pool.Accounts (s : Pool) (i : ℕ) (now : ℚ) (act : Act) : Prop where
  counted : ∀ stack ∈ s.calls[i]?, ∀ a ∈ attemptEnded cfg s.breaker now stack act, a.Counted cfg
  shut : s.breaker.Shut cfg now → (s.step cfg (.advance i now act)).breaker.state ≠ .closed

/-- The attempt is plain, and no success is reported to a breaker before its time. -/
structure Pool.Plain (s : Pool) (i : ℕ) (now : ℚ) (act : Act) : Prop where
  plain : ∀ stack ∈ s.calls[i]?, ∀ a ∈ attemptEnded cfg s.breaker now stack act, a.Plain cfg
  late : ∀ stack ∈ s.calls[i]?, s.breaker.Shut cfg now → ¬ reportsSuccess stack act

/-- Of every statement of every call. -/
def OfAdvance (P : Pool → ℕ → ℚ → Act → Prop) (s : Pool) : Event → Prop
  | .call => True
  | .advance i now act => P s i now act

variable {cfg}

/-! ### What an attempt is recorded as -/

/-- A branch that was passed by. -/
theorem passed_of_ite_eq {P : Prop} [Decidable P] {c d u : Category} (hc : c ≠ u)
    (h : (if P then c else d) = u) : ¬ P ∧ d = u := by
  split_ifs at h with hP
  · exact absurd h hc
  · exact ⟨hP, h⟩

/-- Every word of `tryAgain` is one that `classify` looks for. -/
theorem classify_ne_unknown {e : Exc} (h : tryAgain cfg e) : classify cfg e ≠ .unknown := by
  intro hunknown
  obtain ⟨-, hunknown⟩ := passed_of_ite_eq (by decide) hunknown
  obtain ⟨-, hunknown⟩ := passed_of_ite_eq (by decide) hunknown
  obtain ⟨-, hunknown⟩ := passed_of_ite_eq (by decide) hunknown
  obtain ⟨htimeout, hunknown⟩ := passed_of_ite_eq (by decide) hunknown
  obtain ⟨hrate, hunknown⟩ := passed_of_ite_eq (by decide) hunknown
  obtain ⟨hpeer, hunknown⟩ := passed_of_ite_eq (by decide) hunknown
  obtain ⟨hserver, -⟩ := passed_of_ite_eq (by decide) hunknown
  simp only [containsAny, List.any_cons, List.any_nil, Bool.or_false, Bool.or_eq_true,
    not_or] at htimeout hrate hpeer hserver
  obtain ⟨htimeout, -⟩ := htimeout
  obtain ⟨-, hrate, -⟩ := hrate
  obtain ⟨hchunked, hpeer, -, -⟩ := hpeer
  obtain ⟨-, h502, h503, h529, -⟩ := hserver
  simp only [tryAgain, containsAny, List.any_cons, List.any_nil, Bool.or_false,
    Bool.or_eq_true] at h
  rcases h with h | h | h | h | h | h | h
  exacts [htimeout h, hrate h, h529 h, h503 h, h502 h, hchunked h, hpeer h]

/-- What may be tried again is of a retryable category, or raised at once. -/
theorem retryable_of_tryAgain {e : Exc} (h : tryAgain cfg e) (hfatal : (classify cfg e).fatal = false) :
    (classify cfg e).retryable := by
  have hknown := classify_ne_unknown h
  cases hc : classify cfg e with
  | unknown => exact absurd hc hknown
  | timeout => rfl
  | rateLimit => rfl
  | serverError => rfl
  | authError => rw [hc] at hfatal; cases hfatal
  | contentFilter => rw [hc] at hfatal; cases hfatal
  | contextTooLong => rw [hc] at hfatal; cases hfatal

theorem not_retryable_of_fatal {c : Category} (h : c.fatal) : ¬ c.retryable := by
  cases c <;> simp_all [Category.fatal, Category.retryable]

/-- The records of an exception of the last arm. -/
theorem handle_error (k : ℕ) {e : Exc} (h : e.kind = .error) :
    failures (handle cfg k (.raised e)).1 =
      if (classify cfg e).retryable then
        if tryAgain cfg e ∧ k + 1 ≠ cfg.retries then 2 else 1
      else 0 := by
  rw [handle, h]
  dsimp only
  by_cases hfatal : (classify cfg e).fatal
  · simp [hfatal, not_retryable_of_fatal hfatal, failures]
  · by_cases hagain : tryAgain cfg e
    · have hretryable := retryable_of_tryAgain hagain (by simpa using hfatal)
      by_cases hlast : k + 1 = cfg.retries <;>
        simp [hfatal, hagain, hretryable, hlast, failures]
    · by_cases hretryable : (classify cfg e).retryable <;>
        simp [hfatal, hagain, hretryable, failures]

theorem handle_aborted (k : ℕ) {e : Exc} (h : e.kind = .aborted) :
    (handle cfg k (.raised e)).1 ≠ [] := by
  rw [handle, h]
  dsimp only
  split_ifs <;> simp

theorem counted_iff_plain (a : Attempt) : a.Counted cfg ↔ a.Plain cfg := by
  obtain ⟨k, o, own⟩ := a
  cases o with
  | returned => exact iff_of_true ⟨rfl, fun h => by cases h⟩ trivial
  | raised e =>
    simp only [Attempt.Counted, Attempt.Plain, Attempt.failed, Attempt.aborted]
    cases hkind : e.kind with
    | circuitOpen => simp [handle, hkind, failures]
    | base => simp [handle, hkind, failures]
    | retryable => cases own <;> simp [handle, hkind, failures]
    | aborted => simp [handle_aborted k hkind]
    | error =>
      rw [handle_error k hkind]
      cases own with
      | true =>
        by_cases hretryable : (classify cfg e).retryable
        · by_cases hagain : tryAgain cfg e ∧ k + 1 ≠ cfg.retries
          · simp [hretryable, hagain.1, hagain.2]
          · simp only [hretryable, if_neg hagain]
            simpa using hagain
        · simp [hretryable]
      | false =>
        by_cases hretryable : (classify cfg e).retryable
        · by_cases hagain : tryAgain cfg e ∧ k + 1 ≠ cfg.retries <;> simp [hretryable, hagain]
        · simp [hretryable]

/-! ### What closes an open breaker -/

theorem allowCall_of_shut {b : CircuitBreaker} {now : ℚ} (h : b.Shut cfg now) :
    b.allowCall cfg.toPolicy now = b := by
  obtain ⟨hopen, hearly⟩ := h
  have hsame : b.maybeTransition cfg.toPolicy now = b := by
    rw [CircuitBreaker.maybeTransition, if_neg]
    rintro ⟨-, hlate⟩
    exact absurd hearly (not_lt.2 hlate)
  simp [CircuitBreaker.allowCall, hsame, hopen]

/-- Before its time a breaker is closed by a reported success only. -/
theorem state_advance_of_shut {b : CircuitBreaker} {now : ℚ} (h : b.Shut cfg now)
    (stack : List Frame) (act : Act) :
    (advance cfg b now stack act).1.state = .closed ↔ reportsSuccess stack act := by
  have hsame : b.state ≠ .closed := by
    rw [h.1]
    simp
  match stack, act with
  | [], _ => exact iff_of_false hsame (by simp [reportsSuccess])
  | .entering :: rest, .nest => exact iff_of_false hsame (by simp [reportsSuccess])
  | .entering :: rest, .ends o => exact iff_of_false hsame (by simp [reportsSuccess])
  | .entering :: rest, .go =>
    refine iff_of_false ?_ (by simp [reportsSuccess])
    rw [advance, allowCall_of_shut h]
    split_ifs <;> exact hsame
  | .trying k :: rest, .go => exact iff_of_false hsame (by simp [reportsSuccess])
  | .trying k :: rest, .nest => exact iff_of_false hsame (by simp [reportsSuccess])
  | .trying k :: rest, .ends o => exact iff_of_false hsame (by simp [reportsSuccess])
  | .recording records after :: rest, .nest =>
    rw [advance_recording cfg (by simp)]
    exact iff_of_false hsame (by simp [reportsSuccess])
  | .recording records after :: rest, .ends o =>
    rw [advance_recording cfg (by simp)]
    exact iff_of_false hsame (by simp [reportsSuccess])
  | .recording [] (.again k) :: rest, .go => exact iff_of_false hsame (by simp [reportsSuccess])
  | .recording [] (.leave o) :: rest, .go => exact iff_of_false hsame (by simp [reportsSuccess])
  | .recording (.success :: records) after :: rest, .go => exact iff_of_true rfl rfl
  | .recording (.failure :: records) after :: rest, .go =>
    refine iff_of_false ?_ (by simp [reportsSuccess])
    simp [advance, record, CircuitBreaker.recordFailure, h.1]

theorem accounts_iff_plain (s : Pool) (i : ℕ) (now : ℚ) (act : Act) :
    s.Accounts cfg i now act ↔ s.Plain cfg i now act := by
  have hcounted : (∀ stack ∈ s.calls[i]?, ∀ a ∈ attemptEnded cfg s.breaker now stack act,
        a.Counted cfg) ↔
      ∀ stack ∈ s.calls[i]?, ∀ a ∈ attemptEnded cfg s.breaker now stack act, a.Plain cfg := by
    simp only [counted_iff_plain]
  have hshut : (s.breaker.Shut cfg now →
        (s.step cfg (.advance i now act)).breaker.state ≠ .closed) ↔
      ∀ stack ∈ s.calls[i]?, s.breaker.Shut cfg now → ¬ reportsSuccess stack act := by
    cases hi : s.calls[i]? with
    | none =>
      rw [step_advance_none cfg hi]
      refine iff_of_true (fun hshut => ?_) (by simp)
      rw [hshut.1]
      simp
    | some stack =>
      rw [step_advance cfg hi]
      simp only [Option.mem_some_iff, forall_eq']
      exact forall_congr' fun hshut => (state_advance_of_shut hshut stack act).not
  constructor
  · rintro ⟨ha, hs⟩
    exact ⟨hcounted.1 ha, hshut.1 hs⟩
  · rintro ⟨ha, hs⟩
    exact ⟨hcounted.2 ha, hshut.2 hs⟩

/-! ### Failures over a whole run -/

/-- The failures that the wrapper has yet to record. -/
def Frame.pending : Frame → ℕ
  | .recording records _ => failures records
  | _ => 0

def pending (stack : List Frame) : ℕ := (stack.map Frame.pending).sum

/-- The statement records a failure. -/
def reportsFailure : List Frame → Act → ℕ
  | .recording (.failure :: _) _ :: _, .go => 1
  | _, _ => 0

variable (cfg) in
/-- The failures that the wrapper of an attempt is going to record. -/
def booked (a : Option Attempt) : ℕ := a.elim 0 fun a => failures (handle cfg a.k a.outcome).1

theorem pending_cons (f : Frame) (rest : List Frame) :
    pending (f :: rest) = f.pending + pending rest := rfl

theorem pending_deliver (o : Outcome) (stack : List Frame) :
    pending (deliver cfg o stack) = pending stack + booked cfg (endOfCaller o stack) := by
  match stack with
  | .trying k :: rest =>
    rw [deliver, pending_cons, pending_cons, endOfCaller, booked]
    simp [Frame.pending, Nat.add_comm]
  | [] => rfl
  | .entering :: rest => rfl
  | .recording records after :: rest => rfl

variable (cfg) in
/-- A statement books the failures of the attempt it ends, and records one of those booked. -/
theorem pending_advance (b : CircuitBreaker) (now : ℚ) (stack : List Frame) (act : Act) :
    pending (advance cfg b now stack act).2 + reportsFailure stack act =
      pending stack + booked cfg (attemptEnded cfg b now stack act) := by
  match stack, act with
  | [], _ => rfl
  | .entering :: rest, .nest => rfl
  | .entering :: rest, .ends o => rfl
  | .entering :: rest, .go =>
    have hzero : reportsFailure (.entering :: rest) .go = 0 := rfl
    rw [advance, attemptEnded, hzero, pending_cons]
    split_ifs
    · rw [pending_deliver]
      simp [Frame.pending]
    · rw [pending_deliver]
      simp [Frame.pending]
    · rfl
  | .trying k :: rest, .go => rfl
  | .trying k :: rest, .nest => simp [advance, attemptEnded, reportsFailure, booked, pending_cons,
      Frame.pending]
  | .trying k :: rest, .ends o =>
    rw [advance, pending_deliver]
    rfl
  | .recording records after :: rest, .nest =>
    rw [advance_recording cfg (by simp)]
    rcases records with - | ⟨⟨⟩, records⟩ <;> cases after <;> rfl
  | .recording records after :: rest, .ends o =>
    rw [advance_recording cfg (by simp)]
    rcases records with - | ⟨⟨⟩, records⟩ <;> cases after <;> rfl
  | .recording [] (.again k) :: rest, .go => rfl
  | .recording [] (.leave o) :: rest, .go =>
    rw [advance, pending_deliver, pending_cons]
    simp [reportsFailure, attemptEnded, Frame.pending, failures]
  | .recording (.success :: records) after :: rest, .go =>
    simp [advance, reportsFailure, attemptEnded, booked, pending_cons, Frame.pending, failures]
  | .recording (.failure :: records) after :: rest, .go =>
    simp [advance, reportsFailure, attemptEnded, booked, pending_cons, Frame.pending, failures,
      Nat.add_right_comm]

/-- A pool, how many attempts of the provider failed, and how many failures were recorded. -/
structure Tally where
  pool : Pool := {}
  failed : ℕ := 0
  recorded : ℕ := 0

variable (cfg) in
def Tally.step (t : Tally) (e : Event) : Tally :=
  match e with
  | .call => { t with pool := t.pool.step cfg .call }
  | .advance i now act =>
    let stack := (t.pool.calls[i]?).getD []
    { pool := t.pool.step cfg (.advance i now act)
      failed := t.failed +
        (attemptEnded cfg t.pool.breaker now stack act).elim 0 Attempt.failed
      recorded := t.recorded + reportsFailure stack act }

/-- Each failed attempt is recorded, or about to be. -/
def Tally.Balanced (t : Tally) : Prop :=
  t.recorded + (t.pool.calls.map pending).sum = t.failed

theorem Tally.Balanced.step {t : Tally} (h : t.Balanced) {e : Event}
    (hplain : OfAdvance (Pool.Plain cfg) t.pool e) : (t.step cfg e).Balanced := by
  cases e with
  | call => simpa [Balanced, Tally.step, Pool.step, pending, Frame.pending] using h
  | advance i now act =>
    cases hi : t.pool.calls[i]? with
    | none =>
      simp only [Balanced, Tally.step, hi, step_advance_none cfg hi]
      exact h
    | some stack =>
      have hsum := sum_set pending (Llm.advance cfg t.pool.breaker now stack act).2 hi
      have hadvance := pending_advance cfg t.pool.breaker now stack act
      have hbooked : booked cfg (attemptEnded cfg t.pool.breaker now stack act) =
          (attemptEnded cfg t.pool.breaker now stack act).elim 0 Attempt.failed := by
        cases hended : attemptEnded cfg t.pool.breaker now stack act with
        | none => rfl
        | some a => exact ((counted_iff_plain a).2 (hplain.plain stack hi a hended)).1
      simp only [Balanced, Tally.step, hi, step_advance cfg hi, Option.getD_some] at h ⊢
      omega

/-- Over a run of plain attempts the breaker is told of each failed attempt once. -/
theorem failures_balanced : ∀ (trace : List Event) (t : Tally), t.Balanced →
    Along (Pool.step cfg) (OfAdvance (Pool.Plain cfg)) t.pool trace →
    (run (Tally.step cfg) t trace).Balanced
  | [], _, h, _ => h
  | e :: trace, t, h, ⟨he, htrace⟩ => by
      refine failures_balanced trace (t.step cfg e) (h.step he) ?_
      cases e <;> exact htrace

/-- Every step counts what it should and keeps an open breaker open exactly when its attempt is
    plain, and no success is reported before the time of the breaker. -/
theorem accounts_iff (cfg : Settings) (trace : List Event) :
    Along (Pool.step cfg) (OfAdvance (Pool.Accounts cfg)) {} trace ↔
      Along (Pool.step cfg) (OfAdvance (Pool.Plain cfg)) {} trace := by
  refine along_iff (I := fun _ => True) (fun s e _ => ?_) (fun _ _ _ _ => trivial) trace _ trivial
  cases e with
  | call => exact Iff.rfl
  | advance i now act => exact accounts_iff_plain s i now act

/-- Two attempts a call. -/
def twoAttempts : Settings :=
  { failureThreshold := 5, recoveryTimeout := 60, retries := 2,
    lower := fun t => t.map Char.toLower }

def timedOut : Exc := { kind := .error, type := "APIError".toList, message := "timeout".toList }

/-- A provider times out once. -/
def oneTimeout : List Event := [.call, .advance 0 0 .go, .advance 0 9 (.ends (.raised timedOut))]

/-- The time out is recorded twice. -/
theorem timeout_counts_twice :
    ¬ Along (Pool.step twoAttempts) (OfAdvance (Pool.Accounts twoAttempts)) {} oneTimeout := by
  rintro ⟨-, -, haccounts, -⟩
  have hcounted := haccounts.counted [.trying 0] (by decide +kernel)
    { k := 0, outcome := .raised timedOut, own := true } (by decide +kernel)
  exact absurd hcounted.1 (by decide +kernel)

end AgentLangraph.Llm
