import AgentLangraph.Lib.Trace

/-! Maps with a value for each key, and programs that work on some of the keys alone. Two maps that agree
    but for hidden keys cannot be told apart by a program that works on none of these; along a run of such
    programs they stay that way. -/

namespace Footprint

variable {κ ρ σ α : Type} {ν : κ → Type}

/-- The maps agree on every key that is not hidden. -/
def AgreeOff (hidden : List κ) (s s' : (k : κ) → ν k) : Prop := ∀ k, k ∉ hidden → s k = s' k

/-! ### Programs on some of the keys -/

section
variable [DecidableEq κ] [∀ k, Inhabited (ν k)]

/-- What is seen of a map through some keys. -/
def seen (keys : List κ) (s : (k : κ) → ν k) : (k : κ) → ν k :=
  fun k => if k ∈ keys then s k else default

/-- A program that reads and writes some keys alone. -/
def act (keys : List κ) (f : ((k : κ) → ν k) → ((k : κ) → ν k) × ρ) (s : (k : κ) → ν k) :
    ((k : κ) → ν k) × ρ :=
  (fun k => if k ∈ keys then (f (seen keys s)).1 k else s k, (f (seen keys s)).2)

variable {keys hidden : List κ} {f : ((k : κ) → ν k) → ((k : κ) → ν k) × ρ} {s s' : (k : κ) → ν k}

/-- FRAME RULE: a program leaves the keys as they are that it does not work on. -/
theorem act_frame {k : κ} (h : k ∉ keys) : (act keys f s).1 k = s k := if_neg h

theorem seen_congr (hagree : AgreeOff hidden s s') (hkeys : ∀ k ∈ keys, k ∉ hidden) :
    seen keys s = seen keys s' := by
  funext k
  rw [seen, seen]
  split_ifs with hk
  · exact hagree k (hkeys k hk)
  · rfl

theorem act_congr (hagree : AgreeOff hidden s s') (hkeys : ∀ k ∈ keys, k ∉ hidden) :
    (act keys f s).2 = (act keys f s').2 := by
  rw [act, act, seen_congr hagree hkeys]

/-- LOCALITY RULE: a program that works on no hidden key keeps an agreement. -/
theorem act_agreeOff (hagree : AgreeOff hidden s s') (hkeys : ∀ k ∈ keys, k ∉ hidden) :
    AgreeOff hidden (act keys f s).1 (act keys f s').1 := by
  intro k hk
  rw [act, act, seen_congr hagree hkeys]
  dsimp only
  split_ifs
  · rfl
  · exact hagree k hk

end

/-! ### Runs with outputs -/

/-- What a run puts out, step by step. -/
def outputs (step : σ → α → σ × ρ) : σ → List α → List ρ
  | _, [] => []
  | s, a :: trace => (step s a).2 :: outputs step (step s a).1 trace

/-- The state after a run. -/
abbrev finalState (step : σ → α → σ × ρ) (s : σ) (trace : List α) : σ :=
  Trace.run (fun s a => (step s a).1) s trace

/-- UNWINDING RULE: if related states put out the same in every step that meets a condition, and stay
    related, they put out the same along every run whose steps all meet it. -/
theorem unwinding {step : σ → α → σ × ρ} {R : σ → σ → Prop} {C : σ → α → Prop}
    (hstep : ∀ s s' a, R s s' → C s a → (step s a).2 = (step s' a).2 ∧ R (step s a).1 (step s' a).1) :
    ∀ (trace : List α) (s s' : σ), R s s' → Trace.Along (fun s a => (step s a).1) C s trace →
      outputs step s trace = outputs step s' trace
  | [], _, _, _, _ => rfl
  | a :: trace, s, s', hrel, hmeets => by
      obtain ⟨hout, hnext⟩ := hstep s s' a hrel hmeets.1
      rw [outputs, outputs, hout, unwinding hstep trace _ _ hnext hmeets.2]

end Footprint
