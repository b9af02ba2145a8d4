import AgentLangraph.Llm.Breaker
import AgentLangraph.Lib.Party
import AgentLangraph.Lib.Trace

/-! The calls of the model under `with_retry` (`llm_client.py`). A call is a stack of wrapped
    functions, the innermost first: the tool call of the gateway falls back on a wrapped text call
    from inside an attempt. Whatever touches the breaker is a step of its own, and the steps of the
    calls come in any order.

        entering ─ allow_call ─▶ trying k ─ outcome ─▶ recording ─▶ trying (k + 1), or left -/

namespace AgentLangraph.Llm
open PyText Party Trace

/-! ### What a wrapped function raises -/

/-- As far as the `except` arms tell exceptions apart. -/
inductive Kind
  | circuitOpen | retryable
  /-- A cancellation, a pause or an exhausted budget. -/
  | aborted
  | error
  /-- No `Exception`, such as `KeyboardInterrupt`. -/
  | base
  deriving DecidableEq

structure Exc where
  kind : Kind
  /-- The name of its type. -/
  type : Text := []
  message : Text := []
  deriving DecidableEq

inductive Outcome
  | returned
  | raised (e : Exc)
  deriving DecidableEq

/-- `LLMErrorCategory`. -/
inductive Category
  | rateLimit | serverError | authError | contextTooLong | contentFilter | timeout | unknown
  deriving DecidableEq

structure Settings extends Policy where
  retries : ℕ
  /-- `str.lower`. -/
  lower : Text → Text

variable (cfg : Settings)

def containsAny (t : Text) (subs : List String) : Bool := subs.any fun s => contains t s.toList

/-- `classify_llm_error`. -/
def classify (e : Exc) : Category :=
  let message := cfg.lower e.message
  if containsAny message ["auth", "401", "403"] ||
      contains (cfg.lower e.type) "authentication".toList then .authError
  else if containsAny message ["content"] && containsAny message ["filter", "policy"] then
    .contentFilter
  else if containsAny message ["context"] &&
      containsAny message ["length", "too long", "token"] then .contextTooLong
  else if containsAny message ["timeout", "timed out"] then .timeout
  else if containsAny message ["429", "rate", "limit"] then .rateLimit
  else if containsAny message
      ["incomplete chunked", "peer closed", "connection reset", "broken pipe"] then .serverError
  else if containsAny message ["500", "502", "503", "529", "server error"] then .serverError
  else .unknown

/-- `is_retryable_category`. -/
def Category.retryable (c : Category) : Bool := c ∈ [.rateLimit, .serverError, .timeout]

/-- The categories that are raised at once. -/
def Category.fatal (c : Category) : Bool := c ∈ [.authError, .contentFilter, .contextTooLong]

/-- The message says that another attempt may help. -/
def tryAgain (e : Exc) : Bool :=
  containsAny (cfg.lower e.message)
    ["timeout", "rate", "529", "503", "502", "incomplete chunked", "peer closed"]

/-! ### The wrapper -/

inductive Record
  | success | failure
  deriving DecidableEq

inductive After
  | again (k : ℕ)
  | leave (o : Outcome)
  deriving DecidableEq

/-- `RetryableError(str(exc))`. -/
def retryableError (e : Exc) : Exc :=
  { kind := .retryable, type := "RetryableError".toList, message := e.message }

/-- What the wrapper records of attempt `k`, in order, and where it goes from there. -/
def handle (k : ℕ) : Outcome → List Record × After
  | .returned => ([.success], .leave .returned)
  | .raised e =>
    match e.kind with
    | .circuitOpen | .base => ([], .leave (.raised e))
    | .retryable =>
      ([.failure], if k + 1 = cfg.retries then .leave (.raised e) else .again (k + 1))
    | .aborted | .error =>
      let category := classify cfg e
      let first := if category.retryable then Record.failure else .success
      if category.fatal then ([first], .leave (.raised e))
      else if tryAgain cfg e then
        if k + 1 = cfg.retries then ([first], .leave (.raised (retryableError e)))
        else ([first, .failure], .again (k + 1))
      else ([first], .leave (.raised e))

inductive Frame
  | entering
  | trying (k : ℕ)
  | recording (records : List Record) (after : After)
  deriving DecidableEq

/-- `RuntimeError("retry loop exited unexpectedly")`. -/
def loopExited : Exc :=
  { kind := .error, type := "RuntimeError".toList,
    message := "retry loop exited unexpectedly".toList }

/-- `CircuitOpenError`. -/
def circuitOpenError : Exc :=
  { kind := .circuitOpen, type := "CircuitOpenError".toList,
    message := "LLM circuit breaker open: default".toList }

/-- The outcome of the innermost function is that of the attempt that called it. -/
def deliver (o : Outcome) : List Frame → List Frame
  | .trying k :: rest => .recording (handle cfg k o).1 (handle cfg k o).2 :: rest
  | stack => stack

/-- `record_success` or `record_failure`. -/
def record (now : ℚ) (b : CircuitBreaker) : Record → CircuitBreaker
  | .success => b.recordSuccess
  | .failure => b.recordFailure cfg.toPolicy now

inductive Act
  /-- The next statement of the wrapper. -/
  | go
  /-- The attempt calls another wrapped function. -/
  | nest
  /-- The attempt comes to an end by itself. -/
  | ends (o : Outcome)
  deriving DecidableEq

/-- A statement of a call at a time; what does not fit the innermost function does nothing. -/
def advance (b : CircuitBreaker) (now : ℚ) : List Frame → Act → CircuitBreaker × List Frame
  | .entering :: rest, .go =>
    if b.refuses cfg.toPolicy now then
      (b.allowCall cfg.toPolicy now, deliver cfg (.raised circuitOpenError) rest)
    else if cfg.retries = 0 then
      (b.allowCall cfg.toPolicy now, deliver cfg (.raised loopExited) rest)
    else (b.allowCall cfg.toPolicy now, .trying 0 :: rest)
  | .trying k :: rest, .nest => (b, .entering :: .trying k :: rest)
  | .trying k :: rest, .ends o => (b, deliver cfg o (.trying k :: rest))
  | .recording (r :: records) after :: rest, .go =>
    (record cfg now b r, .recording records after :: rest)
  | .recording [] (.again k) :: rest, .go => (b, .trying k :: rest)
  | .recording [] (.leave o) :: rest, .go => (b, deliver cfg o rest)
  | stack, _ => (b, stack)

/-- A wrapper that records does not hear of anything else. -/
theorem advance_recording {b : CircuitBreaker} {now : ℚ} {records : List Record} {after : After}
    {rest : List Frame} {act : Act} (h : act ≠ .go) :
    advance cfg b now (.recording records after :: rest) act =
      (b, .recording records after :: rest) := by
  cases act with
  | go => exact absurd rfl h
  | nest => cases records <;> cases after <;> rfl
  | ends o => cases records <;> cases after <;> rfl

/-- The breaker, and the stack of each call. -/
structure Pool where
  breaker : CircuitBreaker := {}
  calls : List (List Frame) := []
  deriving DecidableEq

inductive Event
  | call
  | advance (i : ℕ) (now : ℚ) (act : Act)
  deriving DecidableEq

def Pool.step (s : Pool) : Event → Pool
  | .call => { s with calls := s.calls ++ [[.entering]] }
  | .advance i now act =>
    match s.calls[i]? with
    | none => s
    | some stack =>
      let next := Llm.advance cfg s.breaker now stack act
      { breaker := next.1, calls := s.calls.set i next.2 }

theorem step_advance {s : Pool} {i : ℕ} {stack : List Frame} (h : s.calls[i]? = some stack)
    (now : ℚ) (act : Act) : s.step cfg (.advance i now act) =
      { breaker := (advance cfg s.breaker now stack act).1
        calls := s.calls.set i (advance cfg s.breaker now stack act).2 } := by
  simp only [Pool.step, h]

theorem step_advance_none {s : Pool} {i : ℕ} (h : s.calls[i]? = none) (now : ℚ) (act : Act) :
    s.step cfg (.advance i now act) = s := by
  simp only [Pool.step, h]

end AgentLangraph.Llm
