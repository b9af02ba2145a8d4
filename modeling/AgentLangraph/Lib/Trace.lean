import Mathlib.Data.List.Basic
import Mathlib.Data.List.Perm.Basic
import Mathlib.Data.List.Sublists

/-! Runs of a deterministic machine over a list of steps, and the interleavings of several programs.
    Whatever holds along every interleaving is proved over lists of steps: a step lemma, the
    invariant rule, and the rule for what a step establishes and no later step undoes. -/

namespace Trace

variable {σ α : Type*} {step : σ → α → σ}

/-- The state after a list of steps. -/
def run (step : σ → α → σ) (s : σ) (trace : List α) : σ := trace.foldl step s

@[simp] theorem run_nil (s : σ) : run step s [] = s := rfl

@[simp] theorem run_cons (s : σ) (a : α) (trace : List α) :
    run step s (a :: trace) = run step (step s a) trace := rfl

@[simp] theorem run_append (s : σ) (t u : List α) :
    run step s (t ++ u) = run step (run step s t) u := List.foldl_append ..

/-- INVARIANT RULE: what every step of a kind preserves, every run of such steps preserves. -/
theorem run_inv {I : σ → Prop} {P : α → Prop} (hstep : ∀ s a, I s → P a → I (step s a))
    (trace : List α) : ∀ s, I s → (∀ a ∈ trace, P a) → I (run step s trace) := by
  induction trace with
  | nil => intro s hs _; exact hs
  | cons a trace ih =>
    intro s hs h
    rw [List.forall_mem_cons] at h
    exact ih _ (hstep s a hs h.1) h.2

/-- From every step that `Sets` on, `I` holds at each later point of the trace. -/
def HeldFrom (step : σ → α → σ) (s : σ) (trace : List α) (Sets : σ → α → Prop) (I : σ → Prop) :
    Prop :=
  ∀ pre a post, pre ++ a :: post <+: trace → Sets (run step s pre) a →
    I (run step s (pre ++ a :: post))

/-- No step that `Drops` comes after one that `Sets`. -/
def NoneAfter (step : σ → α → σ) (s : σ) (trace : List α) (Sets : σ → α → Prop)
    (Drops : α → Prop) : Prop :=
  ∀ pre a post, pre ++ a :: post = trace → Sets (run step s pre) a → ∀ b ∈ post, ¬ Drops b

/-- KEPT RULE: what some steps set, and only some steps drop, is held from there on exactly when
    none of the latter comes after one of the former. -/
theorem heldFrom_iff {I : σ → Prop} {Sets : σ → α → Prop} {Drops : α → Prop} {trace : List α}
    (s : σ) (hset : ∀ s a, Sets s a → I (step s a))
    (hkeep : ∀ s, ∀ a ∈ trace, I s → ¬ Drops a → I (step s a))
    (hdrop : ∀ s a, Drops a → ¬ I (step s a)) :
    HeldFrom step s trace Sets I ↔ NoneAfter step s trace Sets Drops := by
  constructor
  · intro h pre a post heq hsets b hb hbad
    obtain ⟨p, q, rfl⟩ := List.append_of_mem hb
    have hprefix : pre ++ a :: (p ++ [b]) <+: trace := ⟨q, by simp [← heq]⟩
    have hlast := h pre a (p ++ [b]) hprefix hsets
    rw [← List.cons_append, ← List.append_assoc, run_append, run_cons, run_nil] at hlast
    exact hdrop _ b hbad hlast
  · rintro h pre a post ⟨rest, heq⟩ hsets
    have hkept : ∀ b ∈ post, b ∈ trace ∧ ¬ Drops b := by
      intro b hb
      refine ⟨by simp [← heq, hb], h pre a (post ++ rest) (by simp [← heq]) hsets b ?_⟩
      exact List.mem_append_left rest hb
    rw [run_append, run_cons]
    exact run_inv (P := fun b => b ∈ trace ∧ ¬ Drops b) (fun s b hs hb => hkeep s b hb.1 hs hb.2)
      post _ (hset _ a hsets) hkept

/-- Nothing sets before the split and nothing drops after it. -/
theorem noneAfter_of_split {Sets : σ → α → Prop} {Drops : α → Prop} {before after : List α} (s : σ)
    (hbefore : ∀ a ∈ before, ∀ s, ¬ Sets s a) (hafter : ∀ a ∈ after, ¬ Drops a) :
    NoneAfter step s (before ++ after) Sets Drops := by
  intro pre a post heq hsets b hb
  rcases List.append_eq_append_iff.1 heq with ⟨x, rfl, hx⟩ | ⟨x, rfl, rfl⟩
  · cases x with
    | nil => exact hafter b (by rw [List.nil_append] at hx; rw [← hx]; exact .tail a hb)
    | cons c x =>
      rw [List.cons_append, List.cons.injEq] at hx
      rw [← hx.1] at hbefore
      exact absurd hsets (hbefore a (by simp) _)
  · exact hafter b (by simp [hb])

/-- SINCE RULE: where each step either keeps, resets or sets a property, it holds after a trace exactly
    when it held before and was never reset, or was set and not reset since. -/
theorem run_since_iff {F : σ → Prop} {Resets : α → Prop} {Sets : σ → α → Prop}
    (hstep : ∀ s a, F (step s a) ↔ F s ∧ ¬ Resets a ∨ Sets s a) (s : σ) (trace : List α) :
    F (run step s trace) ↔ (F s ∧ ∀ a ∈ trace, ¬ Resets a) ∨
      ∃ pre a post, trace = pre ++ a :: post ∧ Sets (run step s pre) a ∧
        ∀ b ∈ post, ¬ Resets b := by
  induction trace generalizing s with
  | nil => simp
  | cons c trace ih =>
    rw [run_cons, ih, hstep]
    constructor
    · rintro (⟨⟨hs, hc⟩ | hset, htrace⟩ | ⟨pre, a, post, rfl, hset, hpost⟩)
      · exact Or.inl ⟨hs, List.forall_mem_cons.2 ⟨hc, htrace⟩⟩
      · exact Or.inr ⟨[], c, trace, rfl, hset, htrace⟩
      · exact Or.inr ⟨c :: pre, a, post, rfl, hset, hpost⟩
    · rintro (⟨hs, htrace⟩ | ⟨pre, a, post, heq, hset, hpost⟩)
      · rw [List.forall_mem_cons] at htrace
        exact Or.inl ⟨Or.inl ⟨hs, htrace.1⟩, htrace.2⟩
      · cases pre with
        | nil =>
          rw [List.nil_append, List.cons.injEq] at heq
          obtain ⟨rfl, rfl⟩ := heq
          exact Or.inl ⟨Or.inr hset, hpost⟩
        | cons d pre =>
          rw [List.cons_append, List.cons.injEq] at heq
          obtain ⟨rfl, rfl⟩ := heq
          exact Or.inr ⟨pre, a, post, rfl, hset, hpost⟩

/-! ### What holds of every step -/

/-- Every step of the trace, with the state it is taken from, has the property. -/
def Along (step : σ → α → σ) (P : σ → α → Prop) : σ → List α → Prop
  | _, [] => True
  | s, a :: trace => P s a ∧ Along step P (step s a) trace

theorem along_append {P : σ → α → Prop} : ∀ (t u : List α) (s : σ),
    Along step P s (t ++ u) ↔ Along step P s t ∧ Along step P (run step s t) u
  | [], u, s => by rw [List.nil_append, run_nil, Along, true_and]
  | a :: t, u, s => by rw [List.cons_append, Along, Along, along_append t u, run_cons, and_assoc]

theorem along_of_forall {P : σ → α → Prop} (h : ∀ s a, P s a) : ∀ (trace : List α) (s : σ),
    Along step P s trace
  | [], _ => trivial
  | a :: trace, s => ⟨h s a, along_of_forall h trace _⟩

/-- RUN RULE: what every step keeps that meets a condition is kept by a run whose steps all meet it. -/
theorem run_of_along {I : σ → Prop} {C : σ → α → Prop} (hstep : ∀ s a, I s → C s a → I (step s a)) :
    ∀ (trace : List α) (s : σ), I s → Along step C s trace → I (run step s trace)
  | [], _, hs, _ => hs
  | a :: trace, s, hs, h => run_of_along hstep trace (step s a) (hstep s a hs h.1) h.2

/-- GUARD RULE: where a step has a property exactly when it meets a condition, as long as the steps
    before met theirs, a run has it at every step exactly when every step meets the condition. -/
theorem along_iff {I : σ → Prop} {P C : σ → α → Prop} (hiff : ∀ s a, I s → (P s a ↔ C s a))
    (hstep : ∀ s a, I s → C s a → I (step s a)) :
    ∀ (trace : List α) (s : σ), I s → (Along step P s trace ↔ Along step C s trace)
  | [], _, _ => Iff.rfl
  | a :: trace, s, hs => by
      rw [Along, Along, hiff s a hs]
      exact and_congr_right fun ha => along_iff hiff hstep trace _ (hstep s a hs ha)

/-- BREAK RULE: where a step that misses its condition breaks something for good, a run meets the
    condition at every step and keeps the invariant, or it ends broken. -/
theorem along_or_broken {I B : σ → Prop} {C : σ → α → Prop}
    (hkeep : ∀ s a, I s → C s a → I (step s a)) (hbreak : ∀ s a, I s → ¬ C s a → B (step s a))
    (hstay : ∀ s a, B s → B (step s a)) :
    ∀ (trace : List α) (s : σ), I s → Along step C s trace ∧ I (run step s trace) ∨
      ¬ Along step C s trace ∧ B (run step s trace)
  | [], _, hs => Or.inl ⟨trivial, hs⟩
  | a :: trace, s, hs => by
      rw [Along, run_cons]
      by_cases ha : C s a
      · simpa [ha] using along_or_broken hkeep hbreak hstay trace _ (hkeep s a hs ha)
      · have hbroken := run_inv (P := fun _ => True) (fun s a h _ => hstay s a h) trace _
          (hbreak s a hs ha) (fun _ _ => trivial)
        exact Or.inr ⟨fun h => ha h.1, hbroken⟩

instance decidableAlong {P : σ → α → Prop} [∀ s a, Decidable (P s a)] :
    (s : σ) → (trace : List α) → Decidable (Along step P s trace)
  | _, [] => .isTrue trivial
  | s, a :: trace =>
    have := decidableAlong (P := P) (step s a) trace
    inferInstanceAs (Decidable (P s a ∧ Along step P (step s a) trace))

/-! ### Interleavings -/

/-- `trace` is made of the steps of all programs, those of each program in its order. -/
inductive Interleaves : List (List α) → List α → Prop
  | done {programs : List (List α)} (h : ∀ p ∈ programs, p = []) : Interleaves programs []
  | pick (before after : List (List α)) (a : α) {p trace : List α}
      (h : Interleaves (before ++ p :: after) trace) :
      Interleaves (before ++ (a :: p) :: after) (a :: trace)

/-- One program runs its next steps at a stretch. -/
theorem Interleaves.block (before after : List (List α)) (steps : List α) {p trace : List α}
    (h : Interleaves (before ++ p :: after) trace) :
    Interleaves (before ++ (steps ++ p) :: after) (steps ++ trace) := by
  induction steps with
  | nil => exact h
  | cons a steps ih => exact .pick before after a ih

/-- No step is lost and none is made up. -/
theorem Interleaves.perm {programs : List (List α)} {trace : List α}
    (h : Interleaves programs trace) : trace.Perm programs.flatten := by
  induction h with
  | done h => rw [List.flatten_eq_nil_iff.2 h]
  | @pick before after a p trace _ ih =>
    rw [List.flatten_append, List.flatten_cons] at ih ⊢
    exact (ih.cons a).trans List.perm_middle.symm

theorem Interleaves.mem_iff {programs : List (List α)} {trace : List α}
    (h : Interleaves programs trace) {a : α} : a ∈ trace ↔ ∃ p ∈ programs, a ∈ p := by
  rw [h.perm.mem_iff, List.mem_flatten]

end Trace
