import AgentLangraph.Lib.Attempt
import Mathlib.Data.List.Infix

/-! Programs that keep a log beside the state they work on. What a program adds to the log is never taken
    back, so a property of all entries of a run is a property of what each step of it adds. -/

/-- A state with a log. -/
structure Logged (σ κ : Type) where
  world : σ
  log : List κ := []

namespace Logged

variable {σ κ ε α β : Type}

/-- A program of the state alone. -/
def inside (x : Attempt σ ε α) : Attempt (Logged σ κ) ε α := fun s =>
  match x s.world with
  | (w, r) => ({ s with world := w }, r)

def note (k : κ) : Attempt (Logged σ κ) ε Unit := .change fun s => { s with log := s.log ++ [k] }

/-- What a program adds to the log. -/
def added (x : Attempt (Logged σ κ) ε α) (s : Logged σ κ) : List κ := (x s).1.log.drop s.log.length

/-- The log only grows. -/
def Grows (x : Attempt (Logged σ κ) ε α) : Prop := Attempt.Moves (fun s t => s.log <+: t.log) x

theorem grows_refl (s : Logged σ κ) : s.log <+: s.log := List.prefix_rfl

theorem grows_trans (s t u : Logged σ κ) (h : s.log <+: t.log) (h' : t.log <+: u.log) :
    s.log <+: u.log := h.trans h'

theorem grows_inside (x : Attempt σ ε α) : Grows (inside (κ := κ) x) := fun _ => List.prefix_rfl

theorem grows_note (k : κ) : Grows (note (σ := σ) (ε := ε) k) := fun s => List.prefix_append s.log [k]

theorem grows_pure (a : α) : Grows (pure a : Attempt (Logged σ κ) ε α) := fun _ => List.prefix_rfl

theorem grows_raise (e : ε) : Grows (.raise e : Attempt (Logged σ κ) ε α) := fun _ => List.prefix_rfl

theorem grows_lift (x : Except ε α) : Grows (.lift x : Attempt (Logged σ κ) ε α) := fun _ => List.prefix_rfl

theorem grows_bind {x : Attempt (Logged σ κ) ε α} {f : α → Attempt (Logged σ κ) ε β} (hx : Grows x)
    (hf : ∀ a, Grows (f a)) : Grows (x >>= f) := Attempt.moves_bind grows_trans hx hf

theorem grows_caught {x : Attempt (Logged σ κ) ε α} (hx : Grows x) (h : ε → α) :
    Grows (.caught x h) := Attempt.moves_caught hx h

/-- The log of a run is the log before it and what the run adds. -/
theorem log_eq {x : Attempt (Logged σ κ) ε α} (hx : Grows x) (s : Logged σ κ) :
    (x s).1.log = s.log ++ added x s := by
  obtain ⟨t, ht⟩ := hx s
  rw [added, ← ht, List.drop_left]

theorem added_eq {x : Attempt (Logged σ κ) ε α} {s : Logged σ κ} {t : List κ}
    (h : (x s).1.log = s.log ++ t) : added x s = t := by
  rw [added, h, List.drop_left]

@[simp] theorem added_inside (x : Attempt σ ε α) (s : Logged σ κ) : added (inside x) s = [] :=
  added_eq (List.append_nil s.log).symm

@[simp] theorem added_note (k : κ) (s : Logged σ κ) : added (note (ε := ε) k) s = [k] := added_eq rfl

@[simp] theorem added_pure (a : α) (s : Logged σ κ) :
    added (pure a : Attempt (Logged σ κ) ε α) s = [] := added_eq (List.append_nil s.log).symm

@[simp] theorem added_raise (e : ε) (s : Logged σ κ) :
    added (.raise e : Attempt (Logged σ κ) ε α) s = [] := added_eq (List.append_nil s.log).symm

/-- What a sequence adds: what its first part adds and, if that does not raise, its second. -/
theorem added_bind_ok {x : Attempt (Logged σ κ) ε α} {f : α → Attempt (Logged σ κ) ε β}
    {s s' : Logged σ κ} {a : α} (h : x s = (s', .ok a)) (hx : Grows x) (hf : Grows (f a)) :
    added (x >>= f) s = added x s ++ added (f a) s' := by
  refine added_eq ?_
  have hfirst := log_eq hx s
  rw [h] at hfirst
  rw [Attempt.bind_ok h, log_eq hf, ← List.append_assoc, ← hfirst]

theorem added_bind_error {x : Attempt (Logged σ κ) ε α} {f : α → Attempt (Logged σ κ) ε β}
    {s s' : Logged σ κ} {e : ε} (h : x s = (s', .error e)) : added (x >>= f) s = added x s := by
  rw [added, added, Attempt.bind_error h, h]

/-- SEQUENCE RULE: a property of what both parts add is one of what they add together. -/
theorem forall_added_bind {P : κ → Prop} {x : Attempt (Logged σ κ) ε α} {f : α → Attempt (Logged σ κ) ε β}
    (hx : Grows x) (hf : ∀ a, Grows (f a)) {s : Logged σ κ} (h : ∀ k ∈ added x s, P k)
    (h' : ∀ a t, ∀ k ∈ added (f a) t, P k) : ∀ k ∈ added (x >>= f) s, P k := by
  rcases hr : x s with ⟨t, r⟩
  cases r with
  | ok a =>
    rw [added_bind_ok hr hx (hf a), List.forall_mem_append]
    exact ⟨h, h' a t⟩
  | error e => rwa [added_bind_error hr]

/-- A value computed at the end adds nothing. -/
theorem added_bind_pure {x : Attempt (Logged σ κ) ε α} (hx : Grows x) (f : α → β) (s : Logged σ κ) :
    added (x >>= fun a => pure (f a)) s = added x s := by
  rcases hr : x s with ⟨s', r⟩
  cases r with
  | ok a =>
    refine added_eq ?_
    rw [Attempt.bind_ok hr, ← log_eq hx, hr]
    rfl
  | error e => exact added_bind_error hr

/-- After a program of the state alone, only the rest adds to the log. -/
theorem added_inside_bind {x : Attempt σ ε α} (f : α → Attempt (Logged σ κ) ε β) (s : Logged σ κ) :
    added (inside x >>= f) s =
      match x s.world with
      | (w, .ok a) => added (f a) { s with world := w }
      | (_, .error _) => [] := by
  rcases hr : x s.world with ⟨w, r⟩
  have hin : inside (κ := κ) x s = ({ s with world := w }, r) := by
    rw [inside, hr]
  cases r with
  | ok a =>
    change ((inside x >>= f) s).1.log.drop s.log.length = added (f a) { s with world := w }
    rw [Attempt.bind_ok hin]
    rfl
  | error e => rw [added_bind_error hin, added_inside]

@[simp] theorem added_caught (x : Attempt (Logged σ κ) ε α) (h : ε → α) (s : Logged σ κ) :
    added (.caught x h) s = added x s := by
  rw [added, added]
  rcases hr : x s with ⟨s', r⟩
  cases r with
  | ok a => rw [Attempt.caught_ok hr]
  | error e => rw [Attempt.caught_error hr]

/-! ### The log of a loop -/

section
variable {body : α → Attempt (Logged σ κ) ε Unit}

theorem grows_forEach {l : List α} (h : ∀ a ∈ l, Grows (body a)) : Grows (.forEach body l) :=
  Attempt.forEach_moves grows_refl grows_trans h

/-- LOG RULE: every entry that a loop adds has a property exactly when every entry has it that one of its
    rounds adds. -/
theorem forall_added_forEach {P : κ → Prop} (hgrows : ∀ a, Grows (body a)) : ∀ {l : List α} {s : Logged σ κ},
    (∀ k ∈ added (.forEach body l) s, P k) ↔
      Attempt.Along body (fun s a => ∀ k ∈ added (body a) s, P k) s l
  | [], s => by
      rw [Attempt.Along]
      change (∀ k ∈ added (pure () : Attempt (Logged σ κ) ε Unit) s, P k) ↔ True
      simp
  | a :: l, s => by
      rw [Attempt.Along, Attempt.forEach]
      rcases hr : body a s with ⟨s', r⟩
      cases r with
      | ok u =>
        rw [added_bind_ok hr (hgrows a) (grows_forEach fun b _ => hgrows b), List.forall_mem_append,
          forall_added_forEach hgrows]
        simp
      | error e =>
        rw [added_bind_error hr]
        simp

/-- A loop adds an entry with a property exactly when one of the rounds that it comes to does. -/
theorem exists_added_forEach {P : κ → Prop} (hgrows : ∀ a, Grows (body a)) {l : List α} {s : Logged σ κ} :
    (∃ k ∈ added (.forEach body l) s, P k) ↔
      Attempt.Sometime body (fun s a => ∃ k ∈ added (body a) s, P k) s l := by
  have hnone := not_congr (forall_added_forEach (P := fun k => ¬ P k) hgrows (l := l) (s := s))
  rw [Attempt.not_along_iff] at hnone
  simpa only [Classical.not_forall, not_not, exists_prop] using hnone

theorem forall_added_rounds {P : κ → Prop} (hgrows : ∀ a, Grows (body a)) {l : List α}
    (h : ∀ a s, ∀ k ∈ added (body a) s, P k) (s : Logged σ κ) : ∀ k ∈ added (.forEach body l) s, P k :=
  (forall_added_forEach hgrows).2 (Attempt.along_iff_forall.2 fun _ a _ _ s' _ => h a s')

end

end Logged
