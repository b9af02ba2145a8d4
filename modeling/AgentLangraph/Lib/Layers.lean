import Mathlib.Data.List.Perm.Basic
import Mathlib.Data.Fintype.Basic
import Mathlib.Order.WellFounded
import Mathlib.Data.Set.Finite.List
import Mathlib.Order.RelClasses
import AgentLangraph.Lib.Loop

/-! Taking a list apart in layers: each round picks some of what remains. Whatever is picked, every element
    is in just one layer; and if one element is never picked while another remains, the other is in a
    strictly earlier layer. Over a relation without cycles something can always be picked that nothing
    remaining comes before.

        l ──pick──▶ layer₁ │ rest ──pick──▶ layer₂ │ … ▶ [] -/

namespace Layers

/-! ### Earlier layers -/

section Precedes

variable {α β : Type*} {layers : List (List α)} {layer : List α} {a b : α}

/-- The first is in a strictly earlier layer than the second. -/
def Precedes (layers : List (List α)) (a b : α) : Prop :=
  ∃ early late, layers = early ++ late ∧ a ∈ early.flatten ∧ b ∈ late.flatten

theorem precedes_cons (ha : a ∈ layer) (hb : b ∈ layers.flatten) : Precedes (layer :: layers) a b :=
  ⟨[layer], layers, rfl, by simpa using ha, hb⟩

theorem Precedes.cons (h : Precedes layers a b) : Precedes (layer :: layers) a b := by
  obtain ⟨early, late, rfl, ha, hb⟩ := h
  exact ⟨layer :: early, late, rfl, by simp at ha ⊢; exact .inr ha, hb⟩

/-- Taking each layer apart further keeps what is earlier. -/
theorem Precedes.flatMap {f : List α → List (List β)} {a' b' : β} (h : Precedes layers a b)
    (ha : ∀ layer, a ∈ layer → a' ∈ (f layer).flatten) (hb : ∀ layer, b ∈ layer → b' ∈ (f layer).flatten) :
    Precedes (layers.flatMap f) a' b' := by
  obtain ⟨early, late, rfl, hearly, hlate⟩ := h
  have hpart : ∀ {c : α} {c' : β} {part : List (List α)}, (∀ layer, c ∈ layer → c' ∈ (f layer).flatten) →
      c ∈ part.flatten → c' ∈ (part.flatMap f).flatten := by
    intro c c' part hc hmem
    obtain ⟨layer, hlayer, hin⟩ := List.mem_flatten.1 hmem
    obtain ⟨piece, hpiece, hin'⟩ := List.mem_flatten.1 (hc layer hin)
    exact List.mem_flatten.2 ⟨piece, List.mem_flatMap.2 ⟨layer, hlayer, hpiece⟩, hin'⟩
  exact ⟨early.flatMap f, late.flatMap f, List.flatMap_append, hpart ha hearly, hpart hb hlate⟩

end Precedes

/-! ### Rounds -/

variable {α : Type*} [DecidableEq α] {pick : List α → List α}

/-- Something of what remains is picked, and nothing twice. -/
structure Picks (pick : List α → List α) : Prop where
  subset : ∀ l, pick l ⊆ l
  nonempty : ∀ l, l ≠ [] → pick l ≠ []
  nodup : ∀ l, l.Nodup → (pick l).Nodup

/-- What remains after a round. -/
def rest (pick : List α → List α) (l : List α) : List α := l.filter fun a => a ∉ pick l

/-- The layers of so many rounds. -/
def rounds (pick : List α → List α) : ℕ → List α → List (List α)
  | 0, _ => []
  | fuel + 1, l => if l = [] then [] else pick l :: rounds pick fuel (rest pick l)

/-- The rounds as a `while` loop, with the layers so far. -/
def round (pick : List α → List α) (s : List α × List (List α)) : List α × List (List α) ⊕ List (List α) :=
  if s.1 = [] then .inr s.2 else .inl (rest pick s.1, s.2 ++ [pick s.1])

theorem mem_rest {l : List α} {a : α} : a ∈ rest pick l ↔ a ∈ l ∧ a ∉ pick l := by
  simp [rest]

theorem nodup_rest {l : List α} (h : l.Nodup) : (rest pick l).Nodup := h.filter _

theorem Picks.length_rest_lt (hpick : Picks pick) {l : List α} (h : l ≠ []) :
    (rest pick l).length < l.length := by
  obtain ⟨a, ha⟩ := List.exists_mem_of_ne_nil _ (hpick.nonempty l h)
  exact List.length_filter_lt_length_iff_exists.2 ⟨a, hpick.subset l ha, by simp [ha]⟩

theorem Picks.perm (hpick : Picks pick) {l : List α} (h : l.Nodup) : (pick l ++ rest pick l).Perm l := by
  refine (List.perm_ext_iff_of_nodup ?_ h).2 fun a => ?_
  · refine List.nodup_append.2 ⟨hpick.nodup l h, nodup_rest h, ?_⟩
    rintro a ha b hb rfl
    exact (mem_rest.1 hb).2 ha
  · rw [List.mem_append, mem_rest]
    constructor
    · rintro (ha | ha)
      · exact hpick.subset l ha
      · exact ha.1
    · intro ha
      by_cases hp : a ∈ pick l
      · exact .inl hp
      · exact .inr ⟨ha, hp⟩

/-- The layers are the list in another order, as soon as there are enough rounds. -/
theorem Picks.flatten_rounds (hpick : Picks pick) : ∀ {fuel : ℕ} {l : List α}, l.length ≤ fuel → l.Nodup →
    (rounds pick fuel l).flatten.Perm l := by
  intro fuel
  induction fuel with
  | zero =>
    intro l hl _
    rw [List.eq_nil_of_length_eq_zero (Nat.le_zero.1 hl)]
    exact .refl _
  | succ fuel ih =>
    intro l hl hnodup
    rw [rounds]
    split_ifs with hnil
    · rw [hnil]
      exact .refl _
    · have hlt := hpick.length_rest_lt hnil
      rw [List.flatten_cons]
      exact ((ih (by omega) (nodup_rest hnodup)).append_left _).trans (hpick.perm hnodup)

/-- The loop ends with the layers. -/
theorem Picks.returns_rounds (hpick : Picks pick) : ∀ {fuel : ℕ} {l : List α} (done : List (List α)),
    l.length ≤ fuel → Loop.Returns (round pick) (l, done) (done ++ rounds pick fuel l) := by
  intro fuel
  induction fuel with
  | zero =>
    intro l done hl
    rw [List.eq_nil_of_length_eq_zero (Nat.le_zero.1 hl)]
    exact ⟨1, by simp [Loop.run, round, rounds]⟩
  | succ fuel ih =>
    intro l done hl
    by_cases hnil : l = []
    · exact ⟨1, by simp [Loop.run, round, rounds, hnil]⟩
    · have hlt := hpick.length_rest_lt hnil
      obtain ⟨n, hn⟩ := @ih (rest pick l) (done ++ [pick l]) (by omega)
      refine ⟨n + 1, ?_⟩
      rw [Loop.run_succ_inl (by rw [round, if_neg hnil]), hn, rounds, if_neg hnil]
      simp

/-- An element that is never picked while another remains comes after it. -/
theorem Picks.precedes (hpick : Picks pick) {base : List α} {a b : α}
    (hwait : ∀ l, l ⊆ base → a ∈ l → b ∉ pick l) : ∀ {fuel : ℕ} {l : List α}, l.length ≤ fuel → l.Nodup →
      l ⊆ base → a ∈ l → b ∈ l → Precedes (rounds pick fuel l) a b := by
  intro fuel
  induction fuel with
  | zero =>
    intro l hl _ _ ha _
    rw [List.eq_nil_of_length_eq_zero (Nat.le_zero.1 hl)] at ha
    cases ha
  | succ fuel ih =>
    intro l hl hnodup hbase ha hb
    have hnil : l ≠ [] := List.ne_nil_of_mem ha
    have hlt := hpick.length_rest_lt hnil
    have hbrest : b ∈ rest pick l := mem_rest.2 ⟨hb, hwait l hbase ha⟩
    have hsub : rest pick l ⊆ base := fun c hc => hbase (mem_rest.1 hc).1
    rw [rounds, if_neg hnil]
    by_cases hpicked : a ∈ pick l
    · exact precedes_cons hpicked
        ((hpick.flatten_rounds (by omega) (nodup_rest hnodup)).mem_iff.2 hbrest)
    · exact (ih (by omega) (nodup_rest hnodup) hsub (mem_rest.2 ⟨ha, hpicked⟩) hbrest).cons

/-! ### Relations without cycles -/

/-- A relation without cycles. -/
def Acyclic {α : Type*} (r : α → α → Prop) : Prop := ∀ a, ¬ Relation.TransGen r a a

/-- Among finitely many elements some are such that none of them comes before. -/
theorem Acyclic.exists_first {α : Type*} {r : α → α → Prop} (hr : Acyclic r) {l : List α} (h : l ≠ []) :
    ∃ b ∈ l, ∀ a ∈ l, ¬ r a b := by
  let below : {a // a ∈ l} → {a // a ∈ l} → Prop := fun a b => Relation.TransGen r a.1 b.1
  have : IsTrans _ below := ⟨fun _ _ _ => Relation.TransGen.trans⟩
  have : Std.Irrefl below := ⟨fun a => hr a.1⟩
  have : Finite {a // a ∈ l} := l.finite_toSet.to_subtype
  have hwf : WellFounded below := Finite.wellFounded_of_trans_of_irrefl below
  obtain ⟨a, ha⟩ := List.exists_mem_of_ne_nil l h
  obtain ⟨b, -, hb⟩ := hwf.has_min Set.univ ⟨⟨a, ha⟩, trivial⟩
  exact ⟨b.1, b.2, fun c hc hcb => hb ⟨c, hc⟩ trivial (.single hcb)⟩

end Layers
