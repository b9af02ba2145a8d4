import Mathlib.Algebra.Order.Group.Unbundled.Int
import Mathlib.Algebra.Order.Ring.Rat
import AgentLangraph.Lib.Party
import AgentLangraph.Lib.Trace
import AgentLangraph.Lib.Wakeups

/-! The slots for graph runs (`graph_execution_pool.py`). Whoever holds the lock runs until it waits, is
    admitted or is rejected; `Condition.wait` gives the lock back, and a waiter that was notified, or whose
    time is up, takes it again before it looks at the slots.

        arrived ─┬─ a slot is free ──────────────▶ admitted ──▶ left, notify
                 ├─ wait ──notified / timed out──▶ looks again
                 └─ the deadline has passed ─────▶ rejected -/

namespace AgentLangraph.Run
open Trace Party Wakeups

/-- The arguments of the constructor. -/
structure PoolConfig where
  maxConcurrent : ℤ
  acquireTimeoutSec : ℚ

/-- `_max`. -/
def PoolConfig.slots (cfg : PoolConfig) : ℤ := max 1 cfg.maxConcurrent

/-- `_timeout`. -/
def PoolConfig.timeout (cfg : PoolConfig) : ℚ := max 0 cfg.acquireTimeoutSec

/-- Where a call of `acquire` is. -/
inductive CallerPhase
  | arrived
  /-- Inside `wait`: whether it was taken out of the queue by a `notify`, and whether its time was up before
      it got the signal. -/
  | waiting (notified timedOut : Bool)
  /-- In the body of the `with`, with a slot. -/
  | admitted
  /-- In the body, with `GRAPH_RUNNER_BACKPRESSURE_ENABLED` off. -/
  | unguarded
  | left
  | rejected
  deriving DecidableEq

structure Caller where
  deadline : Option ℚ
  phase : CallerPhase := .arrived
  deriving DecidableEq

/-- `GraphExecutionPool`, with the callers of `acquire` and the queue of the condition. -/
structure GraphExecutionPool where
  active : ℤ := 0
  waiting : ℤ := 0
  rejectedTotal : ℕ := 0
  callers : List Caller := []
  /-- `_cond._waiters`, the callers by their places. -/
  waiters : List ℕ := []

inductive PoolEvent
  /-- A call, at a time, with the setting. -/
  | call (backpressure : Bool) (now : ℚ)
  /-- A caller takes the lock for the first time. -/
  | enter (i : ℕ) (now : ℚ)
  /-- The time that a caller waits with is up. -/
  | timeout (i : ℕ)
  /-- A caller takes the lock again inside `wait`; it reads the clock after `wait`, and once more before it
      waits again. -/
  | resume (i : ℕ) (woken now : ℚ)
  /-- A caller leaves the body, in whatever way. -/
  | leave (i : ℕ)

namespace GraphExecutionPool

variable (cfg : PoolConfig)

def setPhase (s : GraphExecutionPool) (i : ℕ) (c : Caller) (phase : CallerPhase) : GraphExecutionPool :=
  { s with callers := s.callers.set i { c with phase := phase } }

def grant (s : GraphExecutionPool) (i : ℕ) (c : Caller) : GraphExecutionPool :=
  { s.setPhase i c .admitted with active := s.active + 1 }

def reject (s : GraphExecutionPool) (i : ℕ) (c : Caller) : GraphExecutionPool :=
  { s.setPhase i c .rejected with rejectedTotal := s.rejectedTotal + 1 }

/-- `deadline is not None and time.monotonic() >= deadline`. -/
def expired (c : Caller) (now : ℚ) : Bool := c.deadline.any (· ≤ now)

/-- The head of the loop, down to `wait`. -/
def tryAcquire (s : GraphExecutionPool) (i : ℕ) (c : Caller) (now : ℚ) : GraphExecutionPool :=
  if s.active < cfg.slots then s.grant i c
  else
    let s := { s with waiting := s.waiting + 1 }
    if expired c now then { s with waiting := s.waiting - 1 }.reject i c
    else { s.setPhase i c (.waiting false false) with waiters := s.waiters ++ [i] }

/-- The rest of `wait`, and of the loop: a caller that was not signalled in time takes itself out of the
    queue, if it is still there. -/
def wakeUp (s : GraphExecutionPool) (i : ℕ) (c : Caller) (timedOut : Bool) (woken now : ℚ) :
    GraphExecutionPool :=
  let s := { s with waiters := if timedOut then s.waiters.erase i else s.waiters, waiting := s.waiting - 1 }
  if s.active < cfg.slots then s.grant i c
  else if expired c woken then s.reject i c
  else s.tryAcquire cfg i c now

/-- `Condition.notify`: the first one in the queue gets the signal. -/
def notify (s : GraphExecutionPool) : GraphExecutionPool :=
  match s.waiters with
  | [] => s
  | j :: rest =>
    match s.callers[j]? with
    | some c =>
      match c.phase with
      | .waiting _ timedOut => { s.setPhase j c (.waiting true timedOut) with waiters := rest }
      | _ => { s with waiters := rest }
    | none => { s with waiters := rest }

/-- The `finally`. -/
def release (s : GraphExecutionPool) (i : ℕ) (c : Caller) : GraphExecutionPool :=
  notify { s.setPhase i c .left with active := max 0 (s.active - 1) }

/-- A step of a caller that does not come next for it does nothing. -/
def step (s : GraphExecutionPool) : PoolEvent → GraphExecutionPool
  | .call backpressure now =>
    let deadline := if 0 < cfg.timeout then some (now + cfg.timeout) else none
    { s with callers := s.callers ++ [⟨deadline, if backpressure then .arrived else .unguarded⟩] }
  | .enter i now =>
    match s.callers[i]? with
    | some c => if c.phase = .arrived then s.tryAcquire cfg i c now else s
    | none => s
  | .timeout i =>
    match s.callers[i]? with
    | some c => if c.phase = .waiting false false then s.setPhase i c (.waiting false true) else s
    | none => s
  | .resume i woken now =>
    match s.callers[i]? with
    | some c =>
      match c.phase with
      | .waiting false false => s
      | .waiting _ timedOut => s.wakeUp cfg i c timedOut woken now
      | _ => s
    | none => s
  | .leave i =>
    match s.callers[i]? with
    | some c =>
      match c.phase with
      | .admitted => s.release i c
      | .unguarded => s.setPhase i c .left
      | _ => s
    | none => s

end GraphExecutionPool

/-! ### What the counters are for -/

namespace CallerPhase

/-- In the queue of the condition. -/
def queued : CallerPhase → Bool
  | .waiting notified _ => !notified
  | _ => false

/-- Taken out of the queue by a `notify`, and not back from `wait`. -/
def signalled : CallerPhase → Bool
  | .waiting notified _ => notified
  | _ => false

/-- Inside `wait`. -/
def inWait : CallerPhase → Bool
  | .waiting _ _ => true
  | _ => false

/-- Inside `wait`, with a wake-up under way. -/
def waking : CallerPhase → Bool
  | .waiting notified timedOut => notified || timedOut
  | _ => false

end CallerPhase

namespace GraphExecutionPool

variable (cfg : PoolConfig)

def count (s : GraphExecutionPool) (p : CallerPhase → Bool) : ℕ := s.callers.countP fun c => p c.phase

def admittedCount (s : GraphExecutionPool) : ℕ := s.count (· = .admitted)

/-- The counters say who is where, no more callers are admitted than there are slots, and where one waits for
    a signal, the signals under way are as many as the free slots. -/
structure Sound (s : GraphExecutionPool) : Prop where
  active : s.active = s.admittedCount
  bounded : s.active ≤ cfg.slots
  waiting : s.waiting = s.count CallerPhase.inWait
  awake : s.active < cfg.slots → s.count CallerPhase.queued ≠ 0 →
    cfg.slots - s.active ≤ s.count CallerPhase.signalled

/-- The event rejects a caller. -/
def Rejects (s : GraphExecutionPool) (e : PoolEvent) : Prop :=
  ∃ (i : ℕ) (c c' : Caller), s.callers[i]? = some c ∧ (s.step cfg e).callers[i]? = some c' ∧
    c.phase ≠ .rejected ∧ c'.phase = .rejected

/-- All slots are taken by callers that are admitted. -/
def Full (s : GraphExecutionPool) : Prop := cfg.slots = s.admittedCount

/-! ### The books -/

def books (s : GraphExecutionPool) : Books :=
  ⟨s.admittedCount, s.count CallerPhase.queued, s.count CallerPhase.signalled⟩

/-- The queue of the condition holds the callers that are in it, each once. -/
structure Queue (s : GraphExecutionPool) : Prop where
  nodup : s.waiters.Nodup
  mem : ∀ j, j ∈ s.waiters ↔ ∃ c, s.callers[j]? = some c ∧ c.phase.queued

structure Inv (s : GraphExecutionPool) : Prop where
  active : s.active = s.admittedCount
  waiting : s.waiting = s.count CallerPhase.inWait
  queue : s.Queue
  sound : Wakeups.Sound cfg.slots.toNat s.books

variable {cfg}

theorem slots_toNat (cfg : PoolConfig) : (cfg.slots.toNat : ℤ) = cfg.slots :=
  Int.toNat_of_nonneg (le_trans (by decide) (le_max_left 1 cfg.maxConcurrent))

theorem count_eq_add {p q r : CallerPhase → Bool} (h : ∀ phase, one (p phase) = one (q phase) + one (r phase))
    (s : GraphExecutionPool) : s.count p = s.count q + s.count r := by
  simp only [count]
  induction s.callers with
  | nil => rfl
  | cons c callers ih =>
    have hc := h c.phase
    simp only [one] at hc
    rw [List.countP_cons, List.countP_cons, List.countP_cons, ih]
    omega

/-- Who is inside `wait` is in the queue or was signalled. -/
theorem count_inWait (s : GraphExecutionPool) : s.count CallerPhase.inWait =
    s.count CallerPhase.queued + s.count CallerPhase.signalled := by
  refine count_eq_add (fun phase => ?_) s
  cases phase with
  | waiting notified timedOut => cases notified <;> rfl
  | _ => rfl

theorem Inv.sound' {s : GraphExecutionPool} (h : s.Inv cfg) : s.Sound cfg := by
  have hslots := slots_toNat cfg
  have hbounded : s.admittedCount ≤ cfg.slots.toNat := h.sound.bounded
  refine ⟨h.active, ?_, h.waiting, fun _ hqueued => ?_⟩
  · rw [h.active]
    omega
  · have hcovered : cfg.slots.toNat ≤ s.admittedCount + s.count CallerPhase.signalled := h.sound.covered hqueued
    rw [h.active]
    omega

/-! ### What a step can do -/

theorem count_setPhase {s : GraphExecutionPool} {i : ℕ} {c : Caller} (hi : s.callers[i]? = some c)
    (phase : CallerPhase) (p : CallerPhase → Bool) :
    (s.setPhase i c phase).count p + one (p c.phase) = s.count p + one (p phase) :=
  countP_set (fun c : Caller => p c.phase) { c with phase := phase } hi

/-- A caller that holds the lock and looks at the slots: it has arrived, or a wake-up has got it out of
    `wait`. -/
def Looks (c : Caller) : Prop := c.phase = .arrived ∨ c.phase.waking

/-- It has no slot, and is in the queue or signalled, not both. -/
theorem Looks.share {c : Caller} (h : Looks c) :
    one (c.phase = .admitted) = 0 ∧ one c.phase.queued + one c.phase.signalled ≤ 1 := by
  rcases h with harrived | hwaking
  · rw [harrived]
    exact ⟨rfl, by decide⟩
  · cases hc : c.phase with
    | waiting notified timedOut => cases notified <;> exact ⟨rfl, Nat.le_refl 1⟩
    | _ => rw [hc] at hwaking; cases hwaking

/-- The pool without the caller, if that was inside `wait`. -/
def back (s : GraphExecutionPool) (i : ℕ) (c : Caller) : GraphExecutionPool :=
  { s with waiters := s.waiters.erase i, waiting := s.waiting - one c.phase.inWait }

/-- What has become of a caller. -/
structure Settled (s : GraphExecutionPool) (i : ℕ) (c : Caller) (phase : CallerPhase) (s' : GraphExecutionPool) :
    Prop where
  callers : s'.callers = s.callers.set i { c with phase := phase }
  active : s'.active = s.active + one (phase = .admitted)
  waiting : s'.waiting = s.waiting + one phase.inWait
  waiters : s'.waiters = s.waiters ++ if phase.queued then [i] else []

/-- What a caller comes to that looks at the slots. -/
def Looked (cfg : PoolConfig) (s : GraphExecutionPool) (i : ℕ) (c : Caller) (s' : GraphExecutionPool) : Prop :=
  s.active < cfg.slots ∧ s.Settled i c .admitted s' ∨
    cfg.slots ≤ s.active ∧ (s.Settled i c .rejected s' ∨ s.Settled i c (.waiting false false) s')

theorem settled_grant (s : GraphExecutionPool) (i : ℕ) (c : Caller) : s.Settled i c .admitted (s.grant i c) :=
  ⟨rfl, by simp [grant, setPhase], by simp [grant, setPhase, CallerPhase.inWait],
    by simp [grant, setPhase, CallerPhase.queued]⟩

theorem settled_reject (s : GraphExecutionPool) (i : ℕ) (c : Caller) : s.Settled i c .rejected (s.reject i c) :=
  ⟨rfl, by simp [reject, setPhase], by simp [reject, setPhase, CallerPhase.inWait],
    by simp [reject, setPhase, CallerPhase.queued]⟩

theorem looked_tryAcquire (s : GraphExecutionPool) (i : ℕ) (c : Caller) (now : ℚ) :
    Looked cfg s i c (s.tryAcquire cfg i c now) := by
  rw [tryAcquire]
  dsimp only
  split_ifs with hfree hexpired
  · exact Or.inl ⟨hfree, settled_grant s i c⟩
  · have hsame : s.waiting + 1 - 1 = s.waiting := Int.add_sub_cancel ..
    rw [hsame]
    exact Or.inr ⟨not_lt.1 hfree, Or.inl (settled_reject s i c)⟩
  · refine Or.inr ⟨not_lt.1 hfree, Or.inr ⟨rfl, ?_, ?_, ?_⟩⟩
    · simp [setPhase]
    · simp [setPhase, CallerPhase.inWait]
    · simp [CallerPhase.queued]

theorem Queue.not_mem {s : GraphExecutionPool} (h : s.Queue) {i : ℕ} {c : Caller} (hi : s.callers[i]? = some c)
    (hc : c.phase.queued = false) : i ∉ s.waiters := by
  rw [h.mem]
  rintro ⟨c', hi', hc'⟩
  rw [hi, Option.some.injEq] at hi'
  rw [← hi', hc] at hc'
  cases hc'

/-- Whoever does not take itself out of the queue is not in it. -/
theorem looked_wakeUp {s : GraphExecutionPool} (hqueue : s.Queue) {i : ℕ} {c : Caller}
    (hi : s.callers[i]? = some c) {notified timedOut : Bool} (hc : c.phase = .waiting notified timedOut)
    (hwaking : notified || timedOut) (woken now : ℚ) :
    Looked cfg (s.back i c) i c (s.wakeUp cfg i c timedOut woken now) := by
  have hback : s.back i c =
      { s with waiters := if timedOut then s.waiters.erase i else s.waiters, waiting := s.waiting - 1 } := by
    cases timedOut with
    | true => simp [back, hc, CallerPhase.inWait]
    | false =>
      have hnotified : notified = true := by simpa using hwaking
      have hmem : i ∉ s.waiters := hqueue.not_mem hi (by simp [hc, hnotified, CallerPhase.queued])
      simp [back, hc, CallerPhase.inWait, List.erase_of_not_mem hmem]
  rw [wakeUp, ← hback]
  split_ifs with hfree hexpired
  · exact Or.inl ⟨hfree, settled_grant _ i c⟩
  · exact Or.inr ⟨not_lt.1 hfree, Or.inl (settled_reject _ i c)⟩
  · exact looked_tryAcquire _ i c now

/-! ### The queue and the books -/

/-- The queue after a caller has moved that may have been in it. -/
theorem Queue.move {s s' : GraphExecutionPool} (h : s.Queue) {i : ℕ} {c : Caller} (hi : s.callers[i]? = some c)
    {phase : CallerPhase} (hcallers : s'.callers = s.callers.set i { c with phase := phase })
    (hwaiters : s'.waiters = s.waiters.erase i ++ if phase.queued then [i] else []) : s'.Queue := by
  have hout : ∀ j, j ∈ s.waiters.erase i ↔ j ≠ i ∧ j ∈ s.waiters := fun j => h.nodup.mem_erase_iff
  refine ⟨?_, fun j => ?_⟩
  · rw [hwaiters]
    refine List.nodup_append.2 ⟨h.nodup.erase i, by split_ifs <;> simp, fun a ha b hb => ?_⟩
    split_ifs at hb with hphase
    · rw [List.mem_singleton.1 hb]
      exact ((hout a).1 ha).1
    · cases hb
  · rw [hwaiters, hcallers, List.mem_append, hout, h.mem, getElem?_set_of_some hi]
    by_cases hji : j = i
    · rw [if_pos hji, hji]
      by_cases hphase : phase.queued <;> simp [hphase]
    · rw [if_neg hji]
      by_cases hphase : phase.queued <;> simp [hphase, hji]

/-- A caller that looks at the slots moves the books. -/
theorem move_books {s s' : GraphExecutionPool} {i : ℕ} {c : Caller} (hi : s.callers[i]? = some c)
    (hlooks : Looks c) {phase : CallerPhase} (hcallers : s'.callers = s.callers.set i { c with phase := phase })
    (hphase : s.admittedCount < cfg.slots.toNat ∧ phase = .admitted ∨
      cfg.slots.toNat ≤ s.admittedCount ∧ (phase = .rejected ∨ phase = .waiting false false)) :
    Move cfg.slots.toNat s.books s'.books := by
  have hcount : ∀ p : CallerPhase → Bool, s'.count p + one (p c.phase) = s.count p + one (p phase) := by
    intro p
    rw [count, hcallers]
    exact count_setPhase hi phase p
  have htaken : s'.admittedCount + one (c.phase = .admitted) = s.admittedCount + one (phase = .admitted) :=
    hcount (· = .admitted)
  have hqueued := hcount CallerPhase.queued
  have hsignalled := hcount CallerPhase.signalled
  obtain ⟨hnone, hone⟩ := hlooks.share
  rw [hnone] at htaken
  rcases hphase with ⟨hfree, rfl⟩ | ⟨hfull, rfl | rfl⟩
  · exact .takes hfree hone htaken hqueued hsignalled
  · have ht : s'.admittedCount = s.admittedCount := htaken
    rw [books, books, ht]
    exact .gives_up hfull hone hqueued hsignalled
  · have ht : s'.admittedCount = s.admittedCount := htaken
    rw [books, books, ht]
    exact .sleeps hfull hone hqueued hsignalled

/-! ### Each step keeps the invariant -/

theorem inv_empty : Inv cfg {} := by
  refine ⟨rfl, rfl, ⟨List.nodup_nil, fun j => ?_⟩, sound_empty _⟩
  simp

/-- A caller that looks at the slots keeps it. -/
theorem Inv.looked {s s' : GraphExecutionPool} (h : s.Inv cfg) {i : ℕ} {c : Caller} (hi : s.callers[i]? = some c)
    (hlooks : Looks c) (hlooked : Looked cfg (s.back i c) i c s') : s'.Inv cfg := by
  have hslots := slots_toNat cfg
  have hactive := h.active
  have hsettled : ∃ phase, (s.back i c).Settled i c phase s' ∧
      (s.admittedCount < cfg.slots.toNat ∧ phase = .admitted ∨
        cfg.slots.toNat ≤ s.admittedCount ∧ (phase = .rejected ∨ phase = .waiting false false)) := by
    rcases hlooked with ⟨hfree, hs'⟩ | ⟨hfull, hs' | hs'⟩
    · change s.active < cfg.slots at hfree
      exact ⟨_, hs', Or.inl ⟨by omega, rfl⟩⟩
    · change cfg.slots ≤ s.active at hfull
      exact ⟨_, hs', Or.inr ⟨by omega, Or.inl rfl⟩⟩
    · change cfg.slots ≤ s.active at hfull
      exact ⟨_, hs', Or.inr ⟨by omega, Or.inr rfl⟩⟩
  obtain ⟨phase, hs', hphase⟩ := hsettled
  have hcount : ∀ p : CallerPhase → Bool, s'.count p + one (p c.phase) = s.count p + one (p phase) := by
    intro p
    rw [count, hs'.callers]
    exact count_setPhase hi phase p
  refine ⟨?_, ?_, h.queue.move hi hs'.callers hs'.waiters, h.sound.move (move_books hi hlooks hs'.callers hphase)⟩
  · have htaken : s'.admittedCount + one (c.phase = .admitted) = s.admittedCount + one (phase = .admitted) :=
      hcount (· = .admitted)
    rw [hlooks.share.1] at htaken
    rw [hs'.active]
    change s.active + _ = _
    omega
  · have hin := hcount CallerPhase.inWait
    have hwaiting := h.waiting
    rw [hs'.waiting]
    change s.waiting - _ + _ = _
    omega

theorem Queue.setPhase {s : GraphExecutionPool} (h : s.Queue) {i : ℕ} {c : Caller} (hi : s.callers[i]? = some c)
    {phase : CallerPhase} (hqueued : phase.queued = c.phase.queued) : (s.setPhase i c phase).Queue := by
  refine ⟨h.nodup, fun j => ?_⟩
  change j ∈ s.waiters ↔ ∃ c', (s.callers.set i { c with phase := phase })[j]? = some c' ∧ c'.phase.queued
  rw [h.mem, getElem?_set_of_some hi]
  by_cases hji : j = i
  · subst hji
    simp [hi, hqueued]
  · rw [if_neg hji]

/-- The phase of a caller moves, and nothing that is counted does. -/
theorem Inv.setPhase {s : GraphExecutionPool} (h : s.Inv cfg) {i : ℕ} {c : Caller} (hi : s.callers[i]? = some c)
    {phase : CallerPhase} (hadmitted : one (phase = .admitted) = one (c.phase = .admitted))
    (hqueued : phase.queued = c.phase.queued) (hsignalled : phase.signalled = c.phase.signalled) :
    (s.setPhase i c phase).Inv cfg := by
  have htaken : (s.setPhase i c phase).admittedCount = s.admittedCount := by
    have := count_setPhase hi phase (· = .admitted)
    rw [hadmitted] at this
    exact Nat.add_right_cancel this
  have hq : (s.setPhase i c phase).count CallerPhase.queued = s.count CallerPhase.queued := by
    have := count_setPhase hi phase CallerPhase.queued
    rw [hqueued] at this
    exact Nat.add_right_cancel this
  have hn : (s.setPhase i c phase).count CallerPhase.signalled = s.count CallerPhase.signalled := by
    have := count_setPhase hi phase CallerPhase.signalled
    rw [hsignalled] at this
    exact Nat.add_right_cancel this
  refine ⟨?_, ?_, h.queue.setPhase hi hqueued, ?_⟩
  · rw [htaken]
    exact h.active
  · rw [count_inWait, hq, hn, ← count_inWait]
    exact h.waiting
  · rw [books, htaken, hq, hn]
    exact h.sound

theorem Inv.call {s : GraphExecutionPool} (h : s.Inv cfg) {c : Caller}
    (hc : c.phase = .arrived ∨ c.phase = .unguarded) : Inv cfg { s with callers := s.callers ++ [c] } := by
  have hcount : ∀ p : CallerPhase → Bool, p .arrived = false → p .unguarded = false →
      count { s with callers := s.callers ++ [c] } p = s.count p := by
    intro p harrived hunguarded
    have hp : p c.phase = false := by
      rcases hc with hc | hc <;> rw [hc]
      · exact harrived
      · exact hunguarded
    rw [count, List.countP_append, List.countP_singleton, hp]
    rfl
  refine ⟨?_, ?_, ⟨h.queue.nodup, fun j => ?_⟩, ?_⟩
  · rw [admittedCount, hcount _ rfl rfl]
    exact h.active
  · rw [hcount _ rfl rfl]
    exact h.waiting
  · change j ∈ s.waiters ↔ ∃ c', (s.callers ++ [c])[j]? = some c' ∧ c'.phase.queued
    rw [h.queue.mem]
    have hnew : c.phase.queued = false := by rcases hc with hc | hc <;> rw [hc] <;> rfl
    constructor
    · rintro ⟨c', hj, hq⟩
      exact ⟨c', List.getElem?_append_left (List.getElem?_eq_some_iff.1 hj).1 ▸ hj, hq⟩
    · rintro ⟨c', hj, hq⟩
      rw [List.getElem?_append] at hj
      split_ifs at hj with hlt
      · exact ⟨c', hj, hq⟩
      · rw [List.getElem?_singleton] at hj
        split_ifs at hj
        rw [Option.some.injEq] at hj
        rw [← hj, hnew] at hq
        cases hq
  · rw [books, admittedCount, hcount _ rfl rfl, hcount _ rfl rfl, hcount _ rfl rfl]
    exact h.sound

theorem Queue.count_eq_zero {s : GraphExecutionPool} (h : s.Queue) (hnil : s.waiters = []) :
    s.count CallerPhase.queued = 0 := by
  rw [count, List.countP_eq_zero]
  intro c hc hq
  obtain ⟨j, hj⟩ := List.mem_iff_getElem?.1 hc
  have hmem := (h.mem j).2 ⟨c, hj, hq⟩
  rw [hnil] at hmem
  cases hmem

/-- A slot has been given back: the first in the queue gets the signal for it. -/
theorem inv_notify {s : GraphExecutionPool} (hactive : s.active = s.admittedCount)
    (hwaiting : s.waiting = s.count CallerPhase.inWait) (hqueue : s.Queue)
    (hsound : Wakeups.Sound cfg.slots.toNat
      ⟨s.admittedCount + 1, s.count CallerPhase.queued, s.count CallerPhase.signalled⟩) :
    s.notify.Inv cfg := by
  rw [notify]
  cases hwaiters : s.waiters with
  | nil =>
    have hnone := hqueue.count_eq_zero hwaiters
    refine ⟨hactive, hwaiting, hqueue, ?_⟩
    rw [hnone] at hsound
    rw [books, hnone]
    exact hsound.move .free
  | cons j rest =>
    obtain ⟨c, hj, hq⟩ := (hqueue.mem j).1 (hwaiters ▸ List.mem_cons_self)
    cases hc : c.phase with
    | waiting notified timedOut =>
      obtain rfl : notified = false := by simpa [hc, CallerPhase.queued] using hq
      simp only [hj, hc]
      have hcount : ∀ p : CallerPhase → Bool, (s.setPhase j c (.waiting true timedOut)).count p +
          one (p (.waiting false timedOut)) = s.count p + one (p (.waiting true timedOut)) := by
        intro p
        have := count_setPhase hj (.waiting true timedOut) p
        rwa [hc] at this
      have htaken : (s.setPhase j c (.waiting true timedOut)).admittedCount = s.admittedCount :=
        hcount (· = .admitted)
      have hqueued : (s.setPhase j c (.waiting true timedOut)).count CallerPhase.queued + 1 =
        s.count CallerPhase.queued := hcount CallerPhase.queued
      have hsignalled : (s.setPhase j c (.waiting true timedOut)).count CallerPhase.signalled =
        s.count CallerPhase.signalled + 1 := hcount CallerPhase.signalled
      have hmoved : Queue { s.setPhase j c (.waiting true timedOut) with waiters := rest } := by
        refine hqueue.move hj rfl ?_
        simp [hwaiters, CallerPhase.queued]
      refine ⟨?_, ?_, hmoved, ?_⟩
      · exact hactive.trans (congrArg _ htaken.symm)
      · have hin : (s.setPhase j c (.waiting true timedOut)).count CallerPhase.inWait =
          s.count CallerPhase.inWait := Nat.add_right_cancel (hcount CallerPhase.inWait)
        exact hwaiting.trans (congrArg _ hin.symm)
      · have hb : books { s.setPhase j c (.waiting true timedOut) with waiters := rest } =
            ⟨s.admittedCount, (s.setPhase j c (.waiting true timedOut)).count CallerPhase.queued,
              s.count CallerPhase.signalled + 1⟩ := by
          rw [← htaken, ← hsignalled]
          rfl
        rw [hb]
        rw [← hqueued] at hsound
        exact hsound.move .signal
    | _ => rw [hc] at hq; cases hq

theorem Inv.release {s : GraphExecutionPool} (h : s.Inv cfg) {i : ℕ} {c : Caller} (hi : s.callers[i]? = some c)
    (hc : c.phase = .admitted) : (s.release i c).Inv cfg := by
  have hcount : ∀ p : CallerPhase → Bool,
      (s.setPhase i c .left).count p + one (p .admitted) = s.count p + one (p .left) := by
    intro p
    have := count_setPhase hi .left p
    rwa [hc] at this
  have htaken : (s.setPhase i c .left).admittedCount + 1 = s.admittedCount := hcount (· = .admitted)
  have hactive := h.active
  refine inv_notify ?_ ?_ ?_ ?_
  · change max 0 (s.active - 1) = ((s.setPhase i c .left).admittedCount : ℤ)
    rw [max_eq_right (by omega)]
    omega
  · have hin : (s.setPhase i c .left).count CallerPhase.inWait = s.count CallerPhase.inWait :=
      hcount CallerPhase.inWait
    exact h.waiting.trans (congrArg _ hin.symm)
  · have hqueue : (s.setPhase i c .left).Queue := h.queue.setPhase hi (by rw [hc]; rfl)
    exact ⟨hqueue.nodup, hqueue.mem⟩
  · have hq : (s.setPhase i c .left).count CallerPhase.queued = s.count CallerPhase.queued :=
      hcount CallerPhase.queued
    have hn : (s.setPhase i c .left).count CallerPhase.signalled = s.count CallerPhase.signalled :=
      hcount CallerPhase.signalled
    change Wakeups.Sound _ ⟨(s.setPhase i c .left).admittedCount + 1, (s.setPhase i c .left).count _,
      (s.setPhase i c .left).count _⟩
    rw [htaken, hq, hn]
    exact h.sound

theorem inv_step {s : GraphExecutionPool} (e : PoolEvent) (h : s.Inv cfg) : (s.step cfg e).Inv cfg := by
  cases e with
  | call backpressure now =>
    refine h.call ?_
    cases backpressure
    · exact Or.inr rfl
    · exact Or.inl rfl
  | enter i now =>
    rw [step]
    split
    · next c hi =>
      split_ifs with hc
      · have hback : s.back i c = s := by
          have hmem : i ∉ s.waiters := h.queue.not_mem hi (by rw [hc]; rfl)
          simp [back, hc, CallerPhase.inWait, List.erase_of_not_mem hmem]
        exact h.looked hi (Or.inl hc) (hback.symm ▸ looked_tryAcquire s i c now)
      · exact h
    · exact h
  | timeout i =>
    rw [step]
    split
    · next c hi =>
      split_ifs with hc
      · exact h.setPhase hi (by rw [hc]; rfl) (by rw [hc]; rfl) (by rw [hc]; rfl)
      · exact h
    · exact h
  | resume i woken now =>
    rw [step]
    split
    · next c hi =>
      split
      · exact h
      · next notified timedOut hasleep hc =>
        have hwaking : notified || timedOut := by
          cases notified <;> cases timedOut <;> simp_all
        exact h.looked hi (Or.inr (by rw [hc]; exact hwaking)) (looked_wakeUp h.queue hi hc hwaking woken now)
      · exact h
    · exact h
  | leave i =>
    rw [step]
    split
    · next c hi =>
      split
      · next hc => exact h.release hi hc
      · next hc => exact h.setPhase hi (by rw [hc]; rfl) (by rw [hc]; rfl) (by rw [hc]; rfl)
      · exact h
    · exact h

theorem inv_run (trace : List PoolEvent) : (run (step cfg) {} trace).Inv cfg :=
  run_inv (P := fun _ => True) (fun _ e h _ => inv_step e h) trace _ inv_empty fun _ _ => trivial

/-! ### Who is rejected -/

/-- Whoever is rejected was so before. -/
def RejectsNone (s s' : GraphExecutionPool) : Prop :=
  ∀ (i : ℕ) (c' : Caller), s'.callers[i]? = some c' → c'.phase = .rejected →
    ∃ c, s.callers[i]? = some c ∧ c.phase = .rejected

theorem RejectsNone.refl (s : GraphExecutionPool) : s.RejectsNone s := fun _ c' h hc => ⟨c', h, hc⟩

theorem RejectsNone.trans {s s' s'' : GraphExecutionPool} (h : s.RejectsNone s') (h' : s'.RejectsNone s'') :
    s.RejectsNone s'' := by
  intro i c'' hi hc
  obtain ⟨c', hi', hc'⟩ := h' i c'' hi hc
  exact h i c' hi' hc'

theorem rejectsNone_of_set {s s' : GraphExecutionPool} {i : ℕ} {c : Caller} (hi : s.callers[i]? = some c)
    {phase : CallerPhase} (hphase : phase ≠ .rejected)
    (hcallers : s'.callers = s.callers.set i { c with phase := phase }) : s.RejectsNone s' := by
  intro j c' hj hc
  rw [hcallers, getElem?_set_of_some hi] at hj
  split_ifs at hj
  · rw [Option.some.injEq] at hj
    rw [← hj] at hc
    exact absurd hc hphase
  · exact ⟨c', hj, hc⟩

theorem rejectsNone_notify (s : GraphExecutionPool) : s.RejectsNone s.notify := by
  rw [notify]
  split
  · exact .refl s
  · next j rest _ =>
    split
    · next c hj =>
      split
      · exact rejectsNone_of_set hj (by simp) rfl
      · exact .refl s
    · exact .refl s

theorem rejectsNone_call (s : GraphExecutionPool) {c : Caller} (hc : c.phase ≠ .rejected) :
    s.RejectsNone { s with callers := s.callers ++ [c] } := by
  intro i c' hi hc'
  rw [List.getElem?_append] at hi
  split_ifs at hi
  · exact ⟨c', hi, hc'⟩
  · rw [List.getElem?_singleton] at hi
    split_ifs at hi
    rw [Option.some.injEq] at hi
    exact absurd (hi ▸ hc') hc

theorem Looked.rejectsNone_or_full {s s' : GraphExecutionPool} {i : ℕ} {c : Caller}
    (h : Looked cfg s i c s') (hi : s.callers[i]? = some c) : s.RejectsNone s' ∨ cfg.slots ≤ s.active := by
  rcases h with ⟨_, hs'⟩ | ⟨hfull, _⟩
  · exact Or.inl (rejectsNone_of_set hi (by simp) hs'.callers)
  · exact Or.inr hfull

theorem rejectsNone_or_full {s : GraphExecutionPool} (h : s.Inv cfg) (e : PoolEvent) :
    s.RejectsNone (s.step cfg e) ∨ cfg.slots ≤ s.active := by
  cases e with
  | call backpressure now =>
    refine Or.inl (rejectsNone_call s ?_)
    cases backpressure <;> simp
  | enter i now =>
    rw [step]
    split
    · next c hi =>
      split_ifs with hc
      · exact (looked_tryAcquire s i c now).rejectsNone_or_full hi
      · exact Or.inl (.refl s)
    · exact Or.inl (.refl s)
  | timeout i =>
    refine Or.inl ?_
    rw [step]
    split
    · next c hi =>
      split_ifs
      · exact rejectsNone_of_set hi (by simp) rfl
      · exact .refl s
    · exact .refl s
  | resume i woken now =>
    rw [step]
    split
    · next c hi =>
      split
      · exact Or.inl (.refl s)
      · next notified timedOut hasleep hc =>
        have hwaking : notified || timedOut := by
          cases notified <;> cases timedOut <;> simp_all
        exact (looked_wakeUp h.queue hi hc hwaking woken now).rejectsNone_or_full hi
      · exact Or.inl (.refl s)
    · exact Or.inl (.refl s)
  | leave i =>
    refine Or.inl ?_
    rw [step]
    split
    · next c hi =>
      split
      · have hleft : s.RejectsNone (s.setPhase i c .left) := rejectsNone_of_set hi (by simp) rfl
        exact hleft.trans (rejectsNone_notify _)
      · exact rejectsNone_of_set hi (by simp) rfl
      · exact .refl s
    · exact .refl s

/-- SLOTS: in every interleaving the counters say who is where, no more callers are admitted than there are
    slots, no wake-up is lost, and a caller is rejected only when the others have all slots. -/
theorem pool_sound (cfg : PoolConfig) (trace : List PoolEvent) :
    (run (step cfg) {} trace).Sound cfg ∧
      ∀ e, (run (step cfg) {} trace).Rejects cfg e → (run (step cfg) {} trace).Full cfg := by
  have hinv : (run (step cfg) {} trace).Inv cfg := inv_run trace
  refine ⟨hinv.sound', fun e hrejects => ?_⟩
  obtain ⟨i, c, c', hi, hi', hbefore, hafter⟩ := hrejects
  have hsound := hinv.sound'
  rcases rejectsNone_or_full hinv e with hnone | hfull
  · obtain ⟨c'', hi'', hc''⟩ := hnone i c' hi' hafter
    rw [hi, Option.some.injEq] at hi''
    exact absurd (hi'' ▸ hc'') hbefore
  · exact (le_antisymm hfull hsound.bounded).trans hsound.active

/-- One slot, which the first caller has; the second one's time is up, and it takes the lock again. -/
theorem pool_sound_timed_out :
    let cfg : PoolConfig := ⟨1, 1 / 2⟩
    let s := run (step cfg) {} [.call true 0, .call true 0, .enter 0 0, .enter 1 0, .timeout 1]
    s.Rejects cfg (.resume 1 (1 / 2) (1 / 2)) ∧ s.Full cfg := by
  intro cfg s
  have hrejects : s.Rejects cfg (.resume 1 (1 / 2) (1 / 2)) :=
    ⟨1, ⟨some (1 / 2), .waiting false true⟩, ⟨some (1 / 2), .rejected⟩, by decide +kernel⟩
  exact ⟨hrejects, (pool_sound cfg _).2 _ hrejects⟩

end GraphExecutionPool
end AgentLangraph.Run
