import Mathlib.Data.Nat.Basic

/-! Slots that are handed out behind a condition variable, as counts: the slots that are taken, the waiters
    that are in the queue of the variable, and those that a signal has taken out of it and that have not
    resumed. Whoever comes by may take a free slot, also before a waiter that was signalled for it.

        enter ──▶ taken ──signal──▶ one out of the queue ──resume──▶ taken, back to the queue, or gone -/

namespace Wakeups

structure Books where
  taken : ℕ
  queued : ℕ
  notified : ℕ

/-- What the parties may do, one at a time. -/
inductive Move (cap : ℕ) : Books → Books → Prop
  | stay {b : Books} : Move cap b b
  /-- A newcomer finds a free slot. -/
  | enter {t q n : ℕ} (h : t < cap) : Move cap ⟨t, q, n⟩ ⟨t + 1, q, n⟩
  /-- A waiter that was signalled does. -/
  | resume {t q n : ℕ} (h : t < cap) : Move cap ⟨t, q, n + 1⟩ ⟨t + 1, q, n⟩
  /-- A waiter that was not signalled does. -/
  | late {t q n : ℕ} (h : t < cap) : Move cap ⟨t, q + 1, n⟩ ⟨t + 1, q, n⟩
  /-- A newcomer finds none. -/
  | sleep {t q n : ℕ} (h : cap ≤ t) : Move cap ⟨t, q, n⟩ ⟨t, q + 1, n⟩
  /-- A waiter that was signalled finds none; it goes back to the queue or gives up. -/
  | turned {t q q' n : ℕ} (h : cap ≤ t) : Move cap ⟨t, q, n + 1⟩ ⟨t, q', n⟩
  /-- A waiter that was not signalled gives up. -/
  | quit {t q n : ℕ} : Move cap ⟨t, q + 1, n⟩ ⟨t, q, n⟩
  /-- A slot is given back, with a signal to one of the queue. -/
  | signal {t q n : ℕ} : Move cap ⟨t + 1, q + 1, n⟩ ⟨t, q, n + 1⟩
  /-- A slot is given back, and nobody is in the queue. -/
  | free {t n : ℕ} : Move cap ⟨t + 1, 0, n⟩ ⟨t, 0, n⟩

/-! A party that comes by is a newcomer, in the queue, or was signalled: `a` and `b` are its share of the
    queue and of the signals. -/

theorem Move.takes {cap t t' q q' n n' a b : ℕ} (hfree : t < cap) (hone : a + b ≤ 1) (ht : t' = t + 1)
    (hq : q' + a = q) (hn : n' + b = n) : Move cap ⟨t, q, n⟩ ⟨t', q', n'⟩ := by
  subst ht hq hn
  rcases (by omega : a = 0 ∧ b = 0 ∨ a = 0 ∧ b = 1 ∨ a = 1 ∧ b = 0) with ⟨rfl, rfl⟩ | ⟨rfl, rfl⟩ | ⟨rfl, rfl⟩
  · exact .enter hfree
  · exact .resume hfree
  · exact .late hfree

theorem Move.sleeps {cap t q q' n n' a b : ℕ} (hfull : cap ≤ t) (hone : a + b ≤ 1) (hq : q' + a = q + 1)
    (hn : n' + b = n) : Move cap ⟨t, q, n⟩ ⟨t, q', n'⟩ := by
  subst hn
  rcases (by omega : a = 0 ∧ b = 0 ∨ a = 0 ∧ b = 1 ∨ a = 1 ∧ b = 0) with ⟨rfl, rfl⟩ | ⟨rfl, rfl⟩ | ⟨rfl, rfl⟩
  · obtain rfl : q' = q + 1 := hq
    exact .sleep hfull
  · exact .turned hfull
  · obtain rfl : q' = q := Nat.succ.inj hq
    exact .stay

theorem Move.gives_up {cap t q q' n n' a b : ℕ} (hfull : cap ≤ t) (hone : a + b ≤ 1) (hq : q' + a = q)
    (hn : n' + b = n) : Move cap ⟨t, q, n⟩ ⟨t, q', n'⟩ := by
  subst hq hn
  rcases (by omega : a = 0 ∧ b = 0 ∨ a = 0 ∧ b = 1 ∨ a = 1 ∧ b = 0) with ⟨rfl, rfl⟩ | ⟨rfl, rfl⟩ | ⟨rfl, rfl⟩
  · exact .stay
  · exact .turned hfull
  · exact .quit

/-- No more slots are taken than there are, and as long as anyone is in the queue, every free slot has a
    waiter that was signalled for it. -/
structure Sound (cap : ℕ) (b : Books) : Prop where
  bounded : b.taken ≤ cap
  covered : b.queued ≠ 0 → cap ≤ b.taken + b.notified

theorem sound_empty (cap : ℕ) : Sound cap ⟨0, 0, 0⟩ := ⟨Nat.zero_le cap, fun h => absurd rfl h⟩

/-- SIGNAL RULE: every move keeps the books sound. A signal pays for the slot that is given back, and a
    waiter that was signalled takes a slot or has found none. -/
theorem Sound.move {cap : ℕ} {b b' : Books} (h : Sound cap b) (hmove : Move cap b b') : Sound cap b' := by
  obtain ⟨hbounded, hcovered⟩ := h
  cases hmove with
  | stay => exact ⟨hbounded, hcovered⟩
  | enter hfree => exact ⟨hfree, fun hq => by have := hcovered hq; simp only at this ⊢; omega⟩
  | resume hfree => exact ⟨hfree, fun hq => by have := hcovered hq; simp only at this ⊢; omega⟩
  | late hfree => exact ⟨hfree, fun _ => by have := hcovered (Nat.succ_ne_zero _); simp only at this ⊢; omega⟩
  | sleep hfull => exact ⟨hbounded, fun _ => Nat.le_add_right_of_le hfull⟩
  | turned hfull => exact ⟨hbounded, fun _ => Nat.le_add_right_of_le hfull⟩
  | quit => exact ⟨hbounded, fun _ => hcovered (Nat.succ_ne_zero _)⟩
  | signal =>
    have hpaid := hcovered (Nat.succ_ne_zero _)
    simp only at hpaid hbounded
    exact ⟨by simp only; omega, fun _ => by simp only; omega⟩
  | free => exact ⟨Nat.le_of_succ_le hbounded, fun h => absurd rfl h⟩

end Wakeups
