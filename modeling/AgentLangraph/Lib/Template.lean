import AgentLangraph.Lib.Occurrences
import AgentLangraph.Lib.RegexSearch

/-! `re.sub` with a template: one pass over a text, in which every match is replaced by what the template makes of its
    groups. `str.replace` is such a pass too.

        text     … copied … │ match │ … copied … │ match │ …
                                │                    │
        result   … copied … │ template │ … copied … │ template │ … -/

namespace Regex
open PyText

/-- A pattern with groups. A match stands at the front of the text and takes something away. -/
structure SubPattern (γ : Type) where
  groups : Option Char → Text → Option γ
  whole : γ → Text
  takes : ∀ {prev t g}, groups prev t = some g → whole g ≠ [] ∧ whole g <+: t

variable {γ : Type} {m : SubPattern γ} {template : γ → Text}

/-- The fuel bounds the number of places that are looked at. -/
def SubPattern.subFrom (m : SubPattern γ) (template : γ → Text) : ℕ → Option Char → Text → Text
  | 0, _, t => t
  | fuel + 1, prev, t =>
    match m.groups prev t with
    | some g => template g ++ m.subFrom template fuel (lastOf prev (m.whole g)) (t.drop (m.whole g).length)
    | none =>
      match t with
      | [] => []
      | c :: cs => c :: m.subFrom template fuel (some c) cs

/-- `re.sub(pattern, template, t)`, of a text behind `prev`. -/
def SubPattern.sub (m : SubPattern γ) (template : γ → Text) (prev : Option Char) (t : Text) : Text :=
  m.subFrom template t.length prev t

/-! ### One step of the pass -/

theorem SubPattern.groups_nil (m : SubPattern γ) (prev : Option Char) : m.groups prev [] = none := by
  cases h : m.groups prev [] with
  | none => rfl
  | some g =>
    obtain ⟨hne, hpre⟩ := m.takes h
    exact absurd (List.prefix_nil.1 hpre) hne

theorem SubPattern.subFrom_congr : ∀ {fuel fuel' : ℕ} {prev : Option Char} {t : Text}, t.length ≤ fuel →
    t.length ≤ fuel' → m.subFrom template fuel prev t = m.subFrom template fuel' prev t
  | 0, 0, _, _, _, _ => rfl
  | 0, fuel' + 1, prev, t, hfuel, _ => by
    rw [List.eq_nil_of_length_eq_zero (Nat.le_zero.1 hfuel), subFrom, subFrom, m.groups_nil]
  | fuel + 1, 0, prev, t, _, hfuel' => by
    rw [List.eq_nil_of_length_eq_zero (Nat.le_zero.1 hfuel'), subFrom, subFrom, m.groups_nil]
  | fuel + 1, fuel' + 1, prev, [], _, _ => by rw [subFrom, subFrom, m.groups_nil]
  | fuel + 1, fuel' + 1, prev, c :: cs, hfuel, hfuel' => by
    rw [subFrom, subFrom]
    rw [List.length_cons] at hfuel hfuel'
    cases h : m.groups prev (c :: cs) with
    | none => exact congrArg (c :: ·) (subFrom_congr (Nat.le_of_succ_le_succ hfuel) (Nat.le_of_succ_le_succ hfuel'))
    | some g =>
      have hpos : 0 < (m.whole g).length := List.length_pos_of_ne_nil (m.takes h).1
      have hlen : ((c :: cs).drop (m.whole g).length).length ≤ cs.length := by
        rw [List.length_drop, List.length_cons]
        omega
      exact congrArg (template g ++ ·) (subFrom_congr (hlen.trans (Nat.le_of_succ_le_succ hfuel))
        (hlen.trans (Nat.le_of_succ_le_succ hfuel')))

theorem SubPattern.subFrom_eq {fuel : ℕ} {prev : Option Char} {t : Text} (h : t.length ≤ fuel) :
    m.subFrom template fuel prev t = m.sub template prev t := subFrom_congr h le_rfl

@[simp] theorem SubPattern.sub_nil (m : SubPattern γ) (template : γ → Text) (prev : Option Char) :
    m.sub template prev [] = [] := rfl

theorem SubPattern.sub_put {prev : Option Char} {g : γ} {r : Text} (h : m.groups prev (m.whole g ++ r) = some g) :
    m.sub template prev (m.whole g ++ r) = template g ++ m.sub template (lastOf prev (m.whole g)) r := by
  obtain ⟨c, w, hw⟩ := List.exists_cons_of_ne_nil (m.takes h).1
  have hlen : r.length ≤ (w ++ r).length := by
    rw [List.length_append]
    exact Nat.le_add_left ..
  rw [sub, show (m.whole g ++ r).length = (w ++ r).length + 1 by rw [hw]; rfl]
  unfold subFrom
  rw [h]
  dsimp only
  rw [List.drop_left, subFrom_eq hlen]

theorem SubPattern.sub_copy {prev : Option Char} {c : Char} {t : Text} (h : m.groups prev (c :: t) = none) :
    m.sub template prev (c :: t) = c :: m.sub template (some c) t := by
  rw [sub, List.length_cons, subFrom, h]
  rfl

/-- PASS: what holds of the empty text, and at a place of what follows it, holds of every text. -/
theorem SubPattern.induct (m : SubPattern γ) {C : Option Char → Text → Prop} (nil : ∀ prev, C prev [])
    (put : ∀ prev g r, m.groups prev (m.whole g ++ r) = some g → C (lastOf prev (m.whole g)) r →
      C prev (m.whole g ++ r))
    (copy : ∀ prev c t, m.groups prev (c :: t) = none → C (some c) t → C prev (c :: t)) (prev : Option Char)
    (t : Text) : C prev t := by
  induction hn : t.length using Nat.strong_induction_on generalizing prev t with
  | _ n ih =>
    cases t with
    | nil => exact nil prev
    | cons c t =>
      cases h : m.groups prev (c :: t) with
      | none => exact copy prev c t h (ih t.length (by rw [← hn]; exact Nat.lt_succ_self _) _ t rfl)
      | some g =>
        obtain ⟨hne, r, hr⟩ := m.takes h
        have hlt : r.length < n := by
          rw [← hn, ← hr, List.length_append]
          exact Nat.lt_add_of_pos_left (List.length_pos_of_ne_nil hne)
        rw [← hr] at h ⊢
        exact put prev g r h (ih r.length hlt _ r rfl)

/-! ### What a pass keeps -/

theorem lastOf_concat (prev : Option Char) (a : Text) (c : Char) : lastOf prev (a ++ [c]) = some c := by
  rw [lastOf, List.getLast?_append]
  rfl

theorem lastOf_of_ne {v : Text} (hv : v ≠ []) (prev prev' : Option Char) : lastOf prev v = lastOf prev' v := by
  rw [lastOf, lastOf, List.getLast?_eq_some_getLast hv]
  rfl

/-- Where every match is put back, nothing changes. -/
theorem SubPattern.sub_eq_self {prev : Option Char} {t : Text}
    (h : ∀ a b g, t = a ++ b → m.groups (lastOf prev a) b = some g → template g = m.whole g) :
    m.sub template prev t = t := by
  induction prev, t using m.induct with
  | nil prev => rfl
  | put prev g r hg ih =>
    rw [sub_put hg, h [] _ g rfl hg, ih]
    intro a b g' hr hg'
    exact h (m.whole g ++ a) b g' (by rw [hr, List.append_assoc]) (by rw [lastOf_append]; exact hg')
  | copy prev c t hnone ih =>
    rw [sub_copy hnone, ih]
    intro a b g' ht hg'
    exact h (c :: a) b g' (by rw [ht]; rfl) (by rw [lastOf_cons]; exact hg')

/-- A pass that keeps some characters of every match keeps these of the whole text. -/
theorem SubPattern.filter_sub {keep : Char → Bool} (h : ∀ {prev t g}, m.groups prev t = some g →
    (template g).filter keep = (m.whole g).filter keep) (prev : Option Char) (t : Text) :
    (m.sub template prev t).filter keep = t.filter keep := by
  induction prev, t using m.induct with
  | nil prev => rfl
  | put prev g r hg ih => rw [sub_put hg, List.filter_append, List.filter_append, h hg, ih]
  | copy prev c t hnone ih => rw [sub_copy hnone, List.filter_cons, List.filter_cons, ih]

/-- The first character stays where every match keeps its first character. -/
theorem SubPattern.head?_sub (h : ∀ {prev t g}, m.groups prev t = some g → (template g).head? = (m.whole g).head?)
    (prev : Option Char) (t : Text) : (m.sub template prev t).head? = t.head? := by
  induction prev, t using m.induct with
  | nil prev => rfl
  | put prev g r hg ih => rw [sub_put hg, List.head?_append, List.head?_append, h hg, ih]
  | copy prev c t hnone ih => rw [sub_copy hnone, List.head?_cons, List.head?_cons]

theorem prefix_append_cases {q a b : Text} (h : q <+: a ++ b) : q <+: a ∨ ∃ r, q = a ++ r ∧ r <+: b := by
  rcases List.prefix_or_prefix_of_prefix h (List.prefix_append a b) with hq | ⟨r, rfl⟩
  · exact Or.inl hq
  · exact Or.inr ⟨r, rfl, (List.prefix_append_right_inj a).1 h⟩

theorem infix_append_cases {q s : Text} : ∀ {v : Text}, q <:+: v ++ s →
    q <:+: s ∨ ∃ u v', v = u ++ v' ∧ v' ≠ [] ∧ q <+: v' ++ s
  | [], h => Or.inl h
  | c :: v, h => by
    rcases List.infix_cons_iff.1 h with hpre | hin
    · exact Or.inr ⟨[], c :: v, rfl, by simp, hpre⟩
    · rcases infix_append_cases hin with hs | ⟨u, v', rfl, hne, hpre⟩
      · exact Or.inl hs
      · exact Or.inr ⟨c :: u, v', rfl, hne, hpre⟩

/-- What goes on with a character behind its left part goes on behind a text without that character. -/
theorem gap_behind {y s : Text} {c : Char} : ∀ {v x : Text}, c ∉ v → x ++ c :: y <+: v ++ s →
    ∃ x', x = v ++ x' ∧ x' ++ c :: y <+: s
  | [], x, _, h => ⟨x, rfl, h⟩
  | d :: v, x, hv, h => by
    cases x with
    | nil =>
      obtain ⟨rfl, -⟩ := List.cons_prefix_cons.1 h
      exact absurd List.mem_cons_self hv
    | cons e x =>
      obtain ⟨rfl, htail⟩ := List.cons_prefix_cons.1 h
      obtain ⟨x', rfl, hx'⟩ := gap_behind (fun hmem => hv (List.mem_cons_of_mem _ hmem)) htail
      exact ⟨x', rfl, hx'⟩

/-! ### Where a text can be cut -/

/-- What stands behind the character is rewritten as if nothing stood before it. -/
def SplitsAt (q : Char) (f : Text → Text) : Prop := f [] = [] ∧ ∀ a, ∃ a', ∀ b, f (a ++ q :: b) = a' ++ q :: f b

theorem SplitsAt.comp {q : Char} {f g : Text → Text} (hf : SplitsAt q f) (hg : SplitsAt q g) :
    SplitsAt q fun t => g (f t) := by
  refine ⟨?_, fun a => ?_⟩
  · show g (f []) = []
    rw [hf.1, hg.1]
  · obtain ⟨a₁, h₁⟩ := hf.2 a
    obtain ⟨a₂, h₂⟩ := hg.2 a₁
    refine ⟨a₂, fun b => ?_⟩
    dsimp only
    rw [h₁, h₂]

theorem SplitsAt.append {q : Char} {f : Text → Text} (hf : SplitsAt q f) (a b : Text) :
    f (a ++ q :: b) = f (a ++ [q]) ++ f b := by
  obtain ⟨a', h⟩ := hf.2 a
  rw [h b, h [], hf.1, List.append_assoc]
  rfl

/-- A match neither looks behind the character nor goes on behind it, and a match that ends with it keeps it. -/
structure SubPattern.EndsAt (m : SubPattern γ) (template : γ → Text) (q : Char) : Prop where
  groups : ∀ prev s b, m.groups prev (s ++ q :: b) = m.groups prev (s ++ [q])
  fresh : ∀ t, m.groups (some q) t = m.groups none t
  keeps : ∀ {prev t g o}, m.groups prev t = some g → m.whole g = o ++ [q] → ∃ n, template g = n ++ [q]

theorem SubPattern.sub_fresh {q : Char} (h : ∀ t, m.groups (some q) t = m.groups none t) (t : Text) :
    m.sub template (some q) t = m.sub template none t := by
  cases t with
  | nil => rfl
  | cons c t =>
    cases hg : m.groups none (c :: t) with
    | none => rw [sub_copy hg, sub_copy ((h _).trans hg)]
    | some g =>
      obtain ⟨hne, r, hr⟩ := m.takes hg
      rw [← hr] at hg ⊢
      rw [sub_put hg, sub_put ((h _).trans hg), lastOf, lastOf, List.getLast?_eq_some_getLast hne]
      rfl

theorem SubPattern.splitsAt_aux {q : Char} (h : m.EndsAt template q) (prev : Option Char) (a : Text) :
    ∃ a', ∀ b, m.sub template prev (a ++ q :: b) = a' ++ q :: m.sub template none b := by
  induction hn : a.length using Nat.strong_induction_on generalizing prev a with
  | _ n ih =>
    cases hg : m.groups prev (a ++ [q]) with
    | none =>
      cases a with
      | nil =>
        refine ⟨[], fun b => ?_⟩
        rw [List.nil_append, sub_copy ((h.groups _ [] b).trans hg), sub_fresh h.fresh]
        rfl
      | cons c a =>
        obtain ⟨a', ha'⟩ := ih a.length (by rw [← hn]; exact Nat.lt_succ_self _) (some c) a rfl
        refine ⟨c :: a', fun b => ?_⟩
        have hcopy : m.groups prev (c :: (a ++ q :: b)) = none := (h.groups _ (c :: a) b).trans hg
        rw [List.cons_append, sub_copy hcopy, ha']
        rfl
    | some g =>
      obtain ⟨hne, r, hr⟩ := m.takes hg
      rcases List.eq_nil_or_concat r with rfl | ⟨r, d, rfl⟩
      · -- the match ends with the character
        rw [List.append_nil] at hr
        obtain ⟨n', hn'⟩ := h.keeps hg hr
        refine ⟨n', fun b => ?_⟩
        have hcut : a ++ q :: b = m.whole g ++ b := by rw [hr, List.append_assoc]; rfl
        have hg' := (h.groups prev a b).trans hg
        rw [hcut] at hg' ⊢
        rw [sub_put hg', hn', hr, lastOf_concat, sub_fresh h.fresh, List.append_assoc]
        rfl
      · rw [List.concat_eq_append, ← List.append_assoc] at hr
        obtain ⟨rfl, hd⟩ := List.append_inj' hr rfl
        have hlt : r.length < n := by
          rw [← hn, List.length_append]
          exact Nat.lt_add_of_pos_left (List.length_pos_of_ne_nil hne)
        obtain ⟨a', ha'⟩ := ih r.length hlt (lastOf prev (m.whole g)) r rfl
        refine ⟨template g ++ a', fun b => ?_⟩
        have hg' := (h.groups prev (m.whole g ++ r) b).trans hg
        rw [List.append_assoc] at hg' ⊢
        rw [sub_put hg', ha', List.append_assoc]

theorem SubPattern.EndsAt.splitsAt {q : Char} (h : m.EndsAt template q) : SplitsAt q (m.sub template none) :=
  ⟨rfl, SubPattern.splitsAt_aux h none⟩

/-! ### `str.replace` -/

/-- A text that is not empty, wherever it stands. -/
def literal (old : Text) (hold : old ≠ []) : SubPattern Unit where
  groups _ t := if old <+: t then some () else none
  whole _ := old
  takes := by
    intro prev t g h
    split_ifs at h with hpre
    exact ⟨hold, hpre⟩

theorem literal_groups {old : Text} {hold : old ≠ []} {prev : Option Char} {t : Text} :
    (literal old hold).groups prev t = if old <+: t then some () else none := rfl

theorem sub_literal_eq_self {old new : Text} {hold : old ≠ []} {prev : Option Char} {t : Text} (h : ¬ old <:+: t) :
    (literal old hold).sub (fun _ => new) prev t = t := by
  refine SubPattern.sub_eq_self fun a b g ht hg => ?_
  rw [literal_groups] at hg
  split_ifs at hg with hpre
  exact absurd (hpre.isInfix.trans (ht ▸ (List.suffix_append a b).isInfix)) h

theorem sub_literal_fresh {old new : Text} {hold : old ≠ []} (prev : Option Char) (t : Text) :
    (literal old hold).sub (fun _ => new) prev t = (literal old hold).sub (fun _ => new) none t := by
  cases prev with
  | none => rfl
  | some q => exact SubPattern.sub_fresh (fun _ => rfl) t

theorem sub_literal_find {old new : Text} {hold : old ≠ []} : ∀ {prev : Option Char} {t : Text} {i : ℕ},
    find old t = some i → (literal old hold).sub (fun _ => new) prev t =
      t.take i ++ new ++ (literal old hold).sub (fun _ => new) none (t.drop (i + old.length))
  | prev, [], i, h => by
    rw [find, if_neg hold] at h
    cases h
  | prev, c :: cs, i, h => by
    rw [find] at h
    by_cases hpre : old <+: c :: cs
    · rw [if_pos (List.isPrefixOf_iff_prefix.2 hpre)] at h
      cases h
      obtain ⟨r, hr⟩ := hpre
      have hg : (literal old hold).groups prev (old ++ r) = some () := if_pos (List.prefix_append old r)
      have hput : (literal old hold).sub (fun _ => new) prev (old ++ r) = _ := SubPattern.sub_put hg
      rw [← hr, Nat.zero_add, List.drop_left, hput, sub_literal_fresh]
      rfl
    · rw [if_neg fun hp => hpre (List.isPrefixOf_iff_prefix.1 hp)] at h
      obtain ⟨j, hj, rfl⟩ := Option.map_eq_some_iff.1 h
      rw [SubPattern.sub_copy (if_neg hpre), sub_literal_find hj, Nat.add_right_comm]
      rfl

theorem replaceFrom_eq_sub {old new : Text} (hold : old ≠ []) : ∀ {fuel : ℕ} {t : Text}, t.length ≤ fuel →
    replaceFrom old new fuel t = (literal old hold).sub (fun _ => new) none t
  | 0, t, hfuel => by
    rw [List.eq_nil_of_length_eq_zero (Nat.le_zero.1 hfuel)]
    rfl
  | fuel + 1, t, hfuel => by
    rw [replaceFrom]
    cases h : find old t with
    | none => exact (sub_literal_eq_self (find_eq_none_iff.1 h)).symm
    | some i =>
      have hlen : (t.drop (i + old.length)).length ≤ fuel := by
        have hpos := List.length_pos_of_ne_nil hold
        rw [List.length_drop]
        omega
      dsimp only
      rw [replaceFrom_eq_sub hold hlen, sub_literal_find h]

theorem replace_eq_sub {old new t : Text} (hold : old ≠ []) :
    replace t old new = (literal old hold).sub (fun _ => new) none t := by
  rw [replace, if_neg hold]
  exact replaceFrom_eq_sub hold le_rfl

section
variable {old new : Text} (hold : old ≠ [])
include hold

theorem replace_nil : replace [] old new = [] := by
  rw [replace_eq_sub hold]
  rfl

theorem replace_put (r : Text) : replace (old ++ r) old new = new ++ replace r old new := by
  rw [replace_eq_sub hold, replace_eq_sub hold]
  have hg : (literal old hold).groups none (old ++ r) = some () := if_pos (List.prefix_append old r)
  have hput : (literal old hold).sub (fun _ => new) none (old ++ r) = _ := SubPattern.sub_put hg
  rw [hput, sub_literal_fresh]

theorem replace_copy {c : Char} {t : Text} (h : ¬ old <+: c :: t) :
    replace (c :: t) old new = c :: replace t old new := by
  have hg : (literal old hold).groups none (c :: t) = none := if_neg h
  rw [replace_eq_sub hold, replace_eq_sub hold, SubPattern.sub_copy hg, sub_literal_fresh]

theorem replace_induct {C : Text → Prop} (nil : C []) (put : ∀ r, C r → C (old ++ r))
    (copy : ∀ c t, ¬ old <+: c :: t → C t → C (c :: t)) (t : Text) : C t := by
  refine (literal old hold).induct (C := fun _ t => C t) (fun _ => nil) (fun _ _ r _ h => put r h)
    (fun _ c t hnone h => copy c t ?_ h) none t
  intro hpre
  rw [literal_groups, if_pos hpre] at hnone
  cases hnone

end

/-! ### Putting two halves together -/

/-- Two halves, and what stands between them where they have come apart. -/
structure Seam where
  left : Text
  right : Text
  gap : Char
  left_ne : left ≠ []
  left_gap : gap ∉ left
  right_gap : gap ∉ right

namespace Seam

def torn (s : Seam) : Text := s.left ++ s.gap :: s.right

def whole (s : Seam) : Text := s.left ++ s.right

/-- The halves are put together wherever they have come apart. -/
def join (s : Seam) (t : Text) : Text := replace t s.torn s.whole

/-- The last character before the gap and the first one behind it. -/
def joint (s : Seam) : Text := s.left.drop (s.left.length - 1) ++ s.right.take 1

variable {s : Seam}

theorem torn_ne (s : Seam) : s.torn ≠ [] := by simp [torn]

theorem torn_append (s : Seam) (r : Text) : s.torn ++ r = s.left ++ s.gap :: (s.right ++ r) := by simp [torn]

@[simp] theorem join_nil (s : Seam) : s.join [] = [] := replace_nil s.torn_ne

theorem join_put (s : Seam) (r : Text) : s.join (s.torn ++ r) = s.left ++ (s.right ++ s.join r) := by
  rw [join, replace_put s.torn_ne, whole, List.append_assoc]
  rfl

theorem join_copy {c : Char} {t : Text} (h : ¬ s.torn <+: c :: t) : s.join (c :: t) = c :: s.join t :=
  replace_copy s.torn_ne h

/-- What has no gap stays at the front. -/
theorem prefix_join {q t : Text} (hq : s.gap ∉ q) (h : q <+: t) : q <+: s.join t := by
  induction t using replace_induct s.torn_ne generalizing q with
  | nil => exact h.trans (by simp)
  | put r ih =>
    rw [join_put]
    rw [torn_append] at h
    rcases prefix_append_cases h with hleft | ⟨q', rfl, hrest⟩
    · exact hleft.trans (List.prefix_append ..)
    · cases q' with
      | nil => simp
      | cons c q' =>
        obtain ⟨rfl, -⟩ := List.cons_prefix_cons.1 hrest
        simp at hq
  | copy c t hnot ih =>
    rw [join_copy hnot]
    cases q with
    | nil => exact List.nil_prefix
    | cons d q =>
      obtain ⟨rfl, htail⟩ := List.cons_prefix_cons.1 h
      exact List.cons_prefix_cons.2 ⟨rfl, ih (fun hmem => hq (List.mem_cons_of_mem _ hmem)) htail⟩

/-- What goes on behind the left half has the joint. -/
theorem joint_infix {u v q r : Text} (hv : v ≠ []) (hleft : s.left = u ++ v) (hq : q ≠ [])
    (h : q <+: s.right ++ r) : s.joint <:+: v ++ q := by
  obtain ⟨v, l, rfl⟩ := List.eq_nil_or_concat v |>.resolve_left hv
  obtain ⟨d, q, rfl⟩ := List.exists_cons_of_ne_nil hq
  have hlast : s.left.drop (s.left.length - 1) = [l] := by
    rw [hleft, List.concat_eq_append, ← List.append_assoc]
    simp
  rw [joint, hlast]
  cases hr : s.right with
  | nil => exact ⟨v, d :: q, by simp⟩
  | cons e right =>
    rw [hr] at h
    obtain ⟨rfl, -⟩ := List.cons_prefix_cons.1 h
    exact ⟨v, q, by simp⟩

/-- What has no joint was there before. -/
theorem prefix_of_join {q t : Text} (hq : ¬ s.joint <:+: q) (h : q <+: s.join t) : q <+: t := by
  induction t using replace_induct s.torn_ne generalizing q with
  | nil => simpa using h
  | put r ih =>
    rw [join_put] at h
    rw [torn_append]
    rcases prefix_append_cases h with hleft | ⟨q', rfl, hrest⟩
    · exact hleft.trans (List.prefix_append ..)
    · by_cases hne : q' = []
      · simp [hne]
      · exact absurd ( joint_infix (u := []) s.left_ne rfl hne hrest) hq
  | copy c t hnot ih =>
    rw [join_copy hnot] at h
    cases q with
    | nil => exact List.nil_prefix
    | cons d q =>
      obtain ⟨rfl, htail⟩ := List.cons_prefix_cons.1 h
      exact List.cons_prefix_cons.2 ⟨rfl, ih (fun hin => hq (hin.trans (List.suffix_cons d q).isInfix)) htail⟩

theorem infix_of_join {q t : Text} (hq : ¬ s.joint <:+: q) (h : q <:+: s.join t) : q <:+: t := by
  induction t using replace_induct s.torn_ne with
  | nil => simpa using h
  | put r ih =>
    rw [join_put] at h
    rw [torn_append]
    rcases infix_append_cases h with h | ⟨u, v, hleft, hv, h⟩
    · rcases infix_append_cases h with h | ⟨u, v, hright, hv, h⟩
      · exact (ih h).trans ⟨s.left ++ s.gap :: s.right, [], by simp⟩
      · have hpre : q <+: v ++ r := by
          rcases prefix_append_cases h with hv' | ⟨q', rfl, hrest⟩
          · exact hv'.trans (List.prefix_append ..)
          · exact (List.prefix_append_right_inj v).2
              (prefix_of_join (fun hin => hq (hin.trans (List.suffix_append v q').isInfix)) hrest)
        exact hpre.isInfix.trans ⟨s.left ++ s.gap :: u, [], by rw [hright]; simp⟩
    · rcases prefix_append_cases h with hv' | ⟨q', rfl, hrest⟩
      · exact hv'.isInfix.trans ⟨u, s.gap :: (s.right ++ r), by rw [hleft]⟩
      · by_cases hne : q' = []
        · rw [hne, List.append_nil]
          exact ⟨u, s.gap :: (s.right ++ r), by rw [hleft]⟩
        · exact absurd ( joint_infix hv hleft hne hrest) hq
  | copy c t hnot ih =>
    rw [join_copy hnot] at h
    rcases List.infix_cons_iff.1 h with h | h
    · cases q with
      | nil => exact List.nil_infix
      | cons d q =>
        obtain ⟨rfl, htail⟩ := List.cons_prefix_cons.1 h
        have hpre := prefix_of_join (fun hin => hq (hin.trans (List.suffix_cons d q).isInfix)) htail
        exact (List.cons_prefix_cons.2 ⟨rfl, hpre⟩).isInfix
    · exact (ih h).trans (List.suffix_cons c t).isInfix

/-- The rest of a torn seam, from behind its first character on, was there before. -/
theorem rest_of_join (hright : ¬ s.joint <:+: s.right) {v t : Text} (hv : v.length < s.left.length)
    (h : v ++ s.gap :: s.right <+: s.join t) : v ++ s.gap :: s.right <+: t := by
  induction t using replace_induct s.torn_ne generalizing v with
  | nil => simp at h
  | put r ih =>
    rw [join_put] at h
    have hpre : v ++ [s.gap] <+: s.left := by
      have hlen : (v ++ [s.gap]).length ≤ s.left.length := by
        rw [List.length_append]
        exact hv
      have hshort : v ++ [s.gap] <+: v ++ s.gap :: s.right := ⟨s.right, by simp⟩
      exact List.prefix_of_prefix_length_le (hshort.trans h) (List.prefix_append ..) hlen
    exact absurd (hpre.subset (by simp)) s.left_gap
  | copy c t hnot ih =>
    rw [join_copy hnot] at h
    cases v with
    | nil =>
      obtain ⟨rfl, htail⟩ := List.cons_prefix_cons.1 h
      exact List.cons_prefix_cons.2 ⟨rfl, prefix_of_join hright htail⟩
    | cons d v =>
      obtain ⟨rfl, htail⟩ := List.cons_prefix_cons.1 h
      exact List.cons_prefix_cons.2 ⟨rfl, ih (Nat.lt_of_succ_lt hv) htail⟩

/-- MENDED: no seam is torn any more, unless one ran into the next. -/
theorem not_torn_join (hright : ¬ s.joint <:+: s.right) {t : Text}
    (h : ∀ u v r, s.whole = u ++ v → v ≠ [] → s.left = v ++ r → ¬ s.torn ++ (r ++ s.gap :: s.right) <:+: t) :
    ¬ s.torn <:+: s.join t := by
  induction t using replace_induct s.torn_ne with
  | nil => simp [torn]
  | put r ih =>
    rw [join_put, ← List.append_assoc]
    intro hin
    rcases infix_append_cases hin with hin | ⟨u, v, hwhole, hv, hpre⟩
    · exact ih (fun u v r' hw hv hl hin => h u v r' hw hv hl (hin.trans (List.suffix_append ..).isInfix)) hin
    · -- what is left of the seam is a part of the left half, and the rest was there before
      have hvleft : v <+: s.left := by
        have hcases := List.prefix_or_prefix_of_prefix hpre (List.prefix_append v (s.join r))
        have hgap : s.gap ∉ v := fun hmem => by
          have hall : s.gap ∈ s.left ++ s.right := hwhole ▸ List.mem_append_right u hmem
          rcases List.mem_append.1 hall with hl | hr
          · exact s.left_gap hl
          · exact s.right_gap hr
        rcases hcases with hc | hc
        · exact absurd (hc.subset (by simp [torn])) hgap
        · rcases prefix_append_cases hc with hleft | ⟨v', rfl, hrest⟩
          · exact hleft
          · cases v' with
            | nil => simp
            | cons d v' =>
              obtain ⟨rfl, -⟩ := List.cons_prefix_cons.1 hrest
              simp at hgap
      obtain ⟨w, hw⟩ := hvleft
      have hlen : w.length < s.left.length := by
        rw [← hw, List.length_append]
        exact Nat.lt_add_of_pos_left (List.length_pos_of_ne_nil hv)
      have hrest : w ++ s.gap :: s.right <+: s.join r := by
        rw [torn, ← hw, List.append_assoc, List.prefix_append_right_inj] at hpre
        exact hpre
      exact h u v w hwhole hv hw.symm ((List.prefix_append_right_inj s.torn).2 (rest_of_join hright hlen hrest)).isInfix
  | copy c t hnot ih =>
    rw [join_copy hnot]
    intro hin
    rcases List.infix_cons_iff.1 hin with hpre | hin
    · obtain ⟨d, left, hleft⟩ := List.exists_cons_of_ne_nil s.left_ne
      rw [torn, hleft, List.cons_append] at hpre hnot
      obtain ⟨rfl, htail⟩ := List.cons_prefix_cons.1 hpre
      have hlen : left.length < s.left.length := by rw [hleft]; exact Nat.lt_succ_self _
      exact hnot (List.cons_prefix_cons.2 ⟨rfl, rest_of_join hright hlen htail⟩)
    · exact ih (fun u v r hw hv hl hin => h u v r hw hv hl (hin.trans (List.suffix_cons c t).isInfix)) hin

end Seam

end Regex
