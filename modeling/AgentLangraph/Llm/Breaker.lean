import AgentLangraph.Lib.PyText
import Mathlib.Algebra.Order.Field.Rat
import Mathlib.Tactic.SplitIfs

/-! The circuit breaker of the model calls (`circuit_breaker.py`): closed, open after too many
    failures, half open once the recovery timeout has passed. Half open it lets a few calls through,
    and takes their slots back only when it hears of an outcome. -/

namespace AgentLangraph.Llm
open PyText

inductive CircuitState
  | closed | opened | halfOpen
  deriving DecidableEq

/-- What a breaker is made with; no breaker is made with fewer than one half-open call. -/
structure Policy where
  failureThreshold : ℤ
  recoveryTimeout : ℚ
  halfOpenMaxCalls : ℕ := 1
  halfOpenMaxCalls_pos : 0 < halfOpenMaxCalls := by decide

structure CircuitBreaker where
  state : CircuitState := .closed
  failureCount : ℕ := 0
  lastFailureTime : ℚ := 0
  halfOpenCalls : ℕ := 0
  deriving DecidableEq

namespace CircuitBreaker

variable (cfg : Policy)

/-- `_maybe_transition`. -/
def maybeTransition (b : CircuitBreaker) (now : ℚ) : CircuitBreaker :=
  if b.state = .opened ∧ cfg.recoveryTimeout ≤ now - b.lastFailureTime then
    { b with state := .halfOpen, halfOpenCalls := 0 }
  else b

/-- `record_success`. -/
def recordSuccess (b : CircuitBreaker) : CircuitBreaker :=
  { b with failureCount := 0, state := .closed, halfOpenCalls := 0 }

/-- `record_failure`. -/
def recordFailure (b : CircuitBreaker) (now : ℚ) : CircuitBreaker :=
  { b with
    failureCount := b.failureCount + 1
    lastFailureTime := now
    state :=
      if b.state = .halfOpen ∨ cfg.failureThreshold ≤ b.failureCount + 1 then .opened
      else b.state }

/-- The breaker is half open and its slots are taken. -/
def full (b : CircuitBreaker) : Bool :=
  b.state = .halfOpen && cfg.halfOpenMaxCalls ≤ b.halfOpenCalls

/-- Whether `allow_call` raises. -/
def refuses (b : CircuitBreaker) (now : ℚ) : Bool :=
  let b := b.maybeTransition cfg now
  b.state = .opened || b.full cfg

/-- What `allow_call` leaves, whether it raises or not. -/
def allowCall (b : CircuitBreaker) (now : ℚ) : CircuitBreaker :=
  let b := b.maybeTransition cfg now
  if b.state = .halfOpen ∧ b.full cfg = false then
    { b with halfOpenCalls := b.halfOpenCalls + 1 }
  else b

variable {cfg}

@[simp] theorem full_recordSuccess (b : CircuitBreaker) : b.recordSuccess.full cfg = false := rfl

@[simp] theorem full_recordFailure (b : CircuitBreaker) (now : ℚ) :
    (b.recordFailure cfg now).full cfg = false := by
  simp only [full, recordFailure]
  split_ifs with h
  · rfl
  · have hstate : b.state ≠ .halfOpen := (not_or.1 h).1
    simp [hstate]

/-- A breaker that has just become half open has a slot. -/
theorem full_maybeTransition (b : CircuitBreaker) (now : ℚ) (h : b.full cfg = false) :
    (b.maybeTransition cfg now).full cfg = false := by
  rw [maybeTransition]
  split_ifs with hopen
  · have hpos := cfg.halfOpenMaxCalls_pos
    simp [full]
    omega
  · exact h

theorem maybeTransition_of_full {b : CircuitBreaker} (h : b.full cfg) (now : ℚ) :
    b.maybeTransition cfg now = b := by
  rw [full, Bool.and_eq_true, decide_eq_true_eq] at h
  rw [maybeTransition, if_neg]
  rintro ⟨hopen, -⟩
  rw [h.1] at hopen
  cases hopen

theorem refuses_of_full {b : CircuitBreaker} (h : b.full cfg) (now : ℚ) : b.refuses cfg now := by
  rw [refuses, maybeTransition_of_full h, h, Bool.or_true]

theorem allowCall_of_full {b : CircuitBreaker} (h : b.full cfg) (now : ℚ) :
    b.allowCall cfg now = b := by
  rw [allowCall, maybeTransition_of_full h]
  simp [h]

/-- A call that is refused finds the breaker open, or full before it asked. -/
theorem full_allowCall_of_refuses {b : CircuitBreaker} {now : ℚ} (h : b.refuses cfg now) :
    (b.allowCall cfg now).full cfg = b.full cfg := by
  cases hfull : b.full cfg with
  | true => rw [allowCall_of_full hfull, hfull]
  | false =>
    have hafter := full_maybeTransition b now hfull
    have hopen : (b.maybeTransition cfg now).state = .opened := by
      simpa [refuses, hafter] using h
    simp [allowCall, hopen, full]

end CircuitBreaker

end AgentLangraph.Llm
