import Mathlib.Data.List.Basic
import Mathlib.Data.List.Dedup
import Mathlib.Logic.Relation

/-! What can be reached from some keys. A set of keys that holds what can be reached and is closed under the
    edges is just that set. `sweep` collects it by going through rows again whenever a row was taken in,
    whatever their order. -/

namespace Reach

open Relation

/-! ### Closed sets -/

section Closed

variable {κ : Type*} {edge : κ → κ → Prop} {root b : κ}

/-- What is reached by one edge or more, from a set that holds the first steps and is closed. -/
theorem mem_iff_transGen {found : κ → Prop} (hsound : ∀ b, found b → TransGen edge root b)
    (hroot : ∀ b, edge root b → found b) (hclosed : ∀ a b, found a → edge a b → found b) :
    found b ↔ TransGen edge root b := by
  refine ⟨hsound b, fun h => ?_⟩
  induction h with
  | single hstep => exact hroot _ hstep
  | tail _ hstep ih => exact hclosed _ _ ih hstep

/-- What is reached at all, from a closed set that holds the root. -/
theorem mem_iff_reflTransGen {found : κ → Prop} (hsound : ∀ b, found b → ReflTransGen edge root b)
    (hroot : found root) (hclosed : ∀ a b, found a → edge a b → found b) :
    found b ↔ ReflTransGen edge root b := by
  refine ⟨hsound b, fun h => ?_⟩
  induction h with
  | refl => exact hroot
  | tail _ hstep ih => exact hclosed _ _ ih hstep

end Closed

/-! ### Sweeping -/

section Sweep

variable {ρ κ : Type*} [DecidableEq κ] (key : ρ → κ) (after : List κ → ρ → Bool) (rows : List ρ)

/-- One row of a sweep: it is taken in where it comes after something found, and then all rows are gone
    through again. -/
def visit (again : List κ → Option (List κ)) (found : List κ) (row : ρ) : Option (List κ) :=
  if key row ∈ found then some found
  else if after found row then again (key row :: found)
  else some found

/-- The keys found, where the recursion is no deeper than the fuel. -/
def sweep : ℕ → List κ → Option (List κ)
  | 0, _ => none
  | fuel + 1, found => rows.foldlM (visit key after (sweep fuel)) found

/-- The rows whose key has not been found. -/
def missing (found : List κ) : List κ := (rows.map key).dedup.filter fun k => k ∉ found

variable {key after rows}

theorem length_missing_lt {found : List κ} {row : ρ} (hrow : row ∈ rows) (hnew : key row ∉ found) :
    (missing key rows (key row :: found)).length < (missing key rows found).length := by
  have hsub : missing key rows (key row :: found) =
      (missing key rows found).filter fun k => k ≠ key row := by
    rw [missing, missing, List.filter_filter]
    refine List.filter_congr fun k _ => ?_
    simp [not_or]
  rw [hsub]
  refine List.length_filter_lt_length_iff_exists.2 ⟨key row, ?_, by simp⟩
  exact List.mem_filter.2 ⟨List.mem_dedup.2 (List.mem_map_of_mem hrow), by simpa using hnew⟩

theorem length_missing_mono {found found' : List κ} (h : found ⊆ found') :
    (missing key rows found').length ≤ (missing key rows found).length := by
  refine List.Sublist.length_le ?_
  refine List.monotone_filter_right _ fun k hk => ?_
  simp only [decide_eq_true_eq] at hk ⊢
  exact fun hin => hk (h hin)

theorem length_missing_le (found : List κ) : (missing key rows found).length ≤ rows.length := by
  have hsub : (missing key rows found).Sublist (rows.map key) := List.filter_sublist.trans (List.dedup_sublist _)
  simpa using hsub.length_le

/-- Nothing found is left behind: no row that is not found comes after something found. -/
def Closed (key : ρ → κ) (after : List κ → ρ → Bool) (rows : List ρ) (found : List κ) : Prop :=
  ∀ row ∈ rows, key row ∉ found → after found row = false

/-- A sweep with fuel for the missing rows ends with a closed set around the one it started from, which
    every property of the start that new rows keep also holds of. -/
theorem sweep_spec {P : List κ → Prop}
    (hP : ∀ found row, P found → row ∈ rows → key row ∉ found → after found row → P (key row :: found)) :
    ∀ {fuel : ℕ} {found : List κ}, (missing key rows found).length < fuel → P found →
      ∃ result, sweep key after rows fuel found = some result ∧ found ⊆ result ∧
        Closed key after rows result ∧ P result := by
  intro fuel
  induction fuel with
  | zero => intro found hfuel; omega
  | succ fuel ih =>
    intro found hfuel hfound
    -- over the rows gone through: either the set is closed already, or nothing has been taken in
    have hrows : ∀ (rest done : List ρ) (s : List κ), rows = done ++ rest → found ⊆ s → P s →
        (Closed key after rows s ∨ s = found ∧ ∀ row ∈ done, key row ∉ found → after found row = false) →
        ∃ result, rest.foldlM (visit key after (sweep key after rows fuel)) s = some result ∧
          found ⊆ result ∧ Closed key after rows result ∧ P result := by
      intro rest
      induction rest with
      | nil =>
        intro done s hsplit hsub hs hstate
        refine ⟨s, rfl, hsub, ?_, hs⟩
        rcases hstate with hclosed | ⟨rfl, hdone⟩
        · exact hclosed
        · rw [List.append_nil] at hsplit
          exact hsplit ▸ hdone
      | cons row rest ihrest =>
        intro done s hsplit hsub hs hstate
        have hrow : row ∈ rows := by
          rw [hsplit]
          exact List.mem_append_right _ List.mem_cons_self
        have hnext : rows = (done ++ [row]) ++ rest := by rw [hsplit, List.append_assoc]; rfl
        rw [List.foldlM_cons, visit]
        split_ifs with hin hafter
        · refine ihrest (done ++ [row]) s hnext hsub hs (hstate.imp_right ?_)
          rintro ⟨rfl, hdone⟩
          refine ⟨rfl, fun r hr hnew => ?_⟩
          rcases List.mem_append.1 hr with hr | hr
          · exact hdone r hr hnew
          · exact absurd (List.mem_singleton.1 hr ▸ hin) hnew
        · have hlt := length_missing_lt hrow hin
          have hle : (missing key rows s).length ≤ (missing key rows found).length := length_missing_mono hsub
          obtain ⟨result, hresult, hgrow, hclosed, hPresult⟩ :=
            @ih (key row :: s) (by omega) (hP s row hs hrow hin hafter)
          have hsub' : found ⊆ result := fun k hk => hgrow (List.mem_cons_of_mem _ (hsub hk))
          rw [hresult]
          exact ihrest (done ++ [row]) result hnext hsub' hPresult (.inl hclosed)
        · refine ihrest (done ++ [row]) s hnext hsub hs (hstate.imp_right ?_)
          rintro ⟨rfl, hdone⟩
          refine ⟨rfl, fun r hr hnew => ?_⟩
          rcases List.mem_append.1 hr with hr | hr
          · exact hdone r hr hnew
          · rw [List.mem_singleton.1 hr]
            simpa using hafter
    rw [sweep]
    exact hrows rows [] found rfl (List.Subset.refl _) hfound (.inr ⟨rfl, by simp⟩)

end Sweep

end Reach
