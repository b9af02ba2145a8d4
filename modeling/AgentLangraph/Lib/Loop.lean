import Mathlib.Data.List.Sort

/-! Fuelled `while` loops. A loop body is a function `σ → σ ⊕ ρ`: `inl` asks for another round,
    `inr` leaves the loop with a result. `run step n s` gives the loop `n` rounds; `Returns` says
    some number of rounds is enough. The rules below are the ones a partial-correctness proof needs
    (invariant), a termination proof needs (measure, one-round unfolding) and a divergence proof
    needs (an invariant under which every round asks for another). -/

namespace Loop

variable {σ ρ : Type*} {step : σ → σ ⊕ ρ}

/-- The loop with `n` rounds of fuel. -/
def run (step : σ → σ ⊕ ρ) : ℕ → σ → Option ρ
  | 0, _ => none
  | n + 1, s =>
    match step s with
    | .inl s' => run step n s'
    | .inr r => some r

/-- The loop started in `s` leaves with `r`. -/
def Returns (step : σ → σ ⊕ ρ) (s : σ) (r : ρ) : Prop := ∃ n, run step n s = some r

/-- The loop started in `s` leaves at all. -/
def Terminates (step : σ → σ ⊕ ρ) (s : σ) : Prop := ∃ r, Returns step s r

@[simp] theorem run_zero (s : σ) : run step 0 s = none := rfl

theorem run_succ_inl {s s' : σ} (h : step s = .inl s') (n : ℕ) :
    run step (n + 1) s = run step n s' := by
  simp only [run, h]

theorem run_succ_inr {s : σ} {r : ρ} (h : step s = .inr r) (n : ℕ) :
    run step (n + 1) s = some r := by
  simp only [run, h]

/-- More fuel does not change the result. -/
theorem run_mono : ∀ {n m : ℕ} {s : σ} {r : ρ}, run step n s = some r → n ≤ m →
    run step m s = some r
  | 0, _, _, _, h, _ => by simp at h
  | n + 1, 0, _, _, _, hle => by omega
  | n + 1, m + 1, s, r, h, hle => by
      cases hs : step s with
      | inl s' =>
        rw [run_succ_inl hs] at h ⊢
        exact run_mono h (by omega)
      | inr r' =>
        rw [run_succ_inr hs] at h ⊢
        exact h

/-- One round that continues: the loop leaves from `s` exactly when it leaves from `s'`. -/
theorem terminates_inl {s s' : σ} (h : step s = .inl s') :
    Terminates step s ↔ Terminates step s' := by
  constructor
  · rintro ⟨r, n, hn⟩
    cases n with
    | zero => simp at hn
    | succ n => exact ⟨r, n, by rwa [run_succ_inl h] at hn⟩
  · rintro ⟨r, n, hn⟩
    exact ⟨r, n + 1, by rwa [run_succ_inl h]⟩

theorem terminates_inr {s : σ} {r : ρ} (h : step s = .inr r) : Terminates step s :=
  ⟨r, 1, run_succ_inr h 0⟩

/-- Invariant rule: what every continuing round preserves and every leaving round turns into `Q`
    holds of the result. -/
theorem run_inv {I : σ → Prop} {Q : ρ → Prop} (hstep : ∀ s s', I s → step s = .inl s' → I s')
    (hexit : ∀ s r, I s → step s = .inr r → Q r) :
    ∀ {n : ℕ} {s : σ} {r : ρ}, I s → run step n s = some r → Q r
  | 0, _, _, _, h => by simp at h
  | n + 1, s, r, hI, h => by
      cases hs : step s with
      | inl s' =>
        rw [run_succ_inl hs] at h
        exact run_inv hstep hexit (hstep s s' hI hs) h
      | inr r' =>
        rw [run_succ_inr hs] at h
        exact Option.some.inj h ▸ hexit s r' hI hs

/-- Measure rule: a natural number that every continuing round makes smaller bounds the rounds. -/
theorem terminates_of_measure (μ : σ → ℕ) (hμ : ∀ s s', step s = .inl s' → μ s' < μ s) (s : σ) :
    Terminates step s := by
  induction hn : μ s using Nat.strong_induction_on generalizing s with
  | _ n ih =>
    cases hs : step s with
    | inl s' => exact (terminates_inl hs).2 (ih (μ s') (hn ▸ hμ s s' hs) s' rfl)
    | inr r => exact terminates_inr hs

/-- Divergence rule: an invariant under which every round asks for another is never left. -/
theorem not_terminates_of_inv {I : σ → Prop} (hI : ∀ s, I s → ∃ s', step s = .inl s' ∧ I s')
    {s : σ} (h : I s) : ¬ Terminates step s := by
  rintro ⟨r, n, hn⟩
  induction n generalizing s with
  | zero => simp at hn
  | succ n ih =>
    obtain ⟨s', hs, hI'⟩ := hI s h
    exact ih hI' (by rwa [run_succ_inl hs] at hn)

end Loop
