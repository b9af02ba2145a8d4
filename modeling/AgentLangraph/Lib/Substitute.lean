import AgentLangraph.Lib.RegexSearch

/-! `re.sub` that puts a word in brackets in the place of each match, for patterns that are words in a fixed order
    with anything between them. What it puts in cannot be a part of a word that has no brackets:

        … w₁ … w₂ …   in the result
          │    │
        … w₁ … w₂ …   in the text, at the places that were copied

    So nothing that is found in the result was not to be found in the text, and the pattern itself is not found
    any more. -/

namespace Regex
open PyText

/-! ### Matches at the front of a text -/

/-- What is left behind the matches at the front of a text, in backtracking order. -/
def rests (r : Re) (t : Text) : List Text := (ends r ⟨none, t⟩).map Cursor.rest

theorem mem_rests {r : Re} (h : r.Plain) {t rest : Text} : rest ∈ rests r t ↔ ∃ m, Lang r m ∧ t = m ++ rest := by
  rw [rests, List.mem_map]
  constructor
  · rintro ⟨e, he, rfl⟩
    obtain ⟨m, rest, hm, ht, rfl⟩ := (mem_ends_iff h).1 he
    exact ⟨m, hm, ht⟩
  · rintro ⟨m, hm, ht⟩
    exact ⟨_, (mem_ends_iff h).2 ⟨m, rest, hm, ht, rfl⟩, rfl⟩

/-- What is left behind the match of `r`. -/
def matchOne (r : Re) (t : Text) : Option Text := (rests r t).head?

/-- What is left behind the match of `.*?r`, where `.` matches everything. -/
def lazyTo (r : Re) : Text → Option Text
  | [] => matchOne r []
  | c :: cs => (matchOne r (c :: cs)).or (lazyTo r cs)

/-- What is left behind the match of `opens.*?closes`. -/
def matchBlock (opens closes : Re) (t : Text) : Option Text := (rests opens t).findSome? (lazyTo closes)

theorem plain_litWith {eq : Char → Char → Bool} {r : Re} (h : r.Plain) : ∀ s : Text, (litWith eq s r).Plain
  | [] => h
  | _ :: s => ⟨trivial, plain_litWith h s⟩

theorem lang_litWith {eq : Char → Char → Bool} {r : Re} : ∀ {s w : Text}, Lang (litWith eq s r) w ↔
    ∃ w₁ w₂, w = w₁ ++ w₂ ∧ List.Forall₂ (fun x c => eq x c = true) s w₁ ∧ Lang r w₂
  | [], w => by
    constructor
    · intro h
      exact ⟨[], w, rfl, .nil, h⟩
    · rintro ⟨_, w₂, rfl, hnil, h⟩
      cases hnil
      exact h
  | x :: s, w => by
    constructor
    · rintro ⟨_, w', rfl, ⟨c, rfl, hc⟩, h⟩
      obtain ⟨w₁, w₂, rfl, hs, hr⟩ := lang_litWith.1 h
      exact ⟨c :: w₁, w₂, rfl, .cons hc hs, hr⟩
    · rintro ⟨_, w₂, rfl, hxs, hr⟩
      cases hxs with
      | cons hc hs => exact ⟨[_], _, rfl, ⟨_, rfl, hc⟩, lang_litWith.2 ⟨_, w₂, rfl, hs, hr⟩⟩

/-- A text and nothing else, each character as `eq` has it. -/
def lit (eq : Char → Char → Bool) (s : Text) : Re := litWith eq s (.rep (fun _ => false) 0 (some 0))

theorem plain_lit (eq : Char → Char → Bool) (s : Text) : (lit eq s).Plain :=
  plain_litWith (r := .rep (fun _ => false) 0 (some 0)) trivial s

theorem lang_lit {eq : Char → Char → Bool} {s w : Text} :
    Lang (lit eq s) w ↔ List.Forall₂ (fun x c => eq x c = true) s w := by
  rw [lit, lang_litWith]
  constructor
  · rintro ⟨w₁, w₂, rfl, hs, -, -, hlen⟩
    have hnil : w₂ = [] := by simpa using hlen
    rw [hnil, List.append_nil]
    exact hs
  · intro h
    exact ⟨w, [], (List.append_nil w).symm, h, by simp [Lang]⟩

/-! ### Words in order -/

/-- Words of the languages stand in the text, each behind the one before. -/
def InOrder : List (Text → Prop) → Text → Prop
  | [], _ => True
  | L :: Ls, t => ∃ a w b, t = a ++ w ++ b ∧ L w ∧ InOrder Ls b

/-- The first word stands at the front of the text, the others behind it. -/
def AtFront (L : Text → Prop) (Ls : List (Text → Prop)) (t : Text) : Prop := ∃ w b, t = w ++ b ∧ L w ∧ InOrder Ls b

theorem InOrder.append_left {Ls : List (Text → Prop)} {t : Text} (a : Text) (h : InOrder Ls t) :
    InOrder Ls (a ++ t) := by
  cases Ls with
  | nil => trivial
  | cons L Ls =>
    obtain ⟨a', w, b, rfl, hw, hb⟩ := h
    exact ⟨a ++ a', w, b, by simp, hw, hb⟩

theorem InOrder.append_right {b : Text} : ∀ {Ls : List (Text → Prop)} {t : Text}, InOrder Ls t → InOrder Ls (t ++ b)
  | [], _, _ => trivial
  | _ :: _, _, ⟨a, w, b', ht, hw, hb⟩ => ⟨a, w, b' ++ b, by rw [ht]; simp, hw, hb.append_right⟩

theorem InOrder.of_infix {Ls : List (Text → Prop)} {s t : Text} (h : InOrder Ls s) (hst : s <:+: t) : InOrder Ls t := by
  obtain ⟨a, b, rfl⟩ := hst
  exact (h.append_left a).append_right

theorem AtFront.inOrder {L : Text → Prop} {Ls : List (Text → Prop)} {t : Text} (h : AtFront L Ls t) :
    InOrder (L :: Ls) t := by
  obtain ⟨w, b, rfl, hw, hb⟩ := h
  exact ⟨[], w, b, rfl, hw, hb⟩

/-- A matcher finds a match just where the first word stands at the front and the others follow, and takes something
    away. -/
structure Finds (m : Text → Option Text) (L : Text → Prop) (Ls : List (Text → Prop)) : Prop where
  front : ∀ {t rest}, m t = some rest → AtFront L Ls t
  rest : ∀ {t rest}, m t = some rest → ∃ p, p ≠ [] ∧ t = p ++ rest
  none : ∀ {t}, m t = none → ¬ AtFront L Ls t

theorem finds_matchOne {r : Re} (h : r.Plain) (hne : ∀ m, Lang r m → m ≠ []) : Finds (matchOne r) (Lang r) [] where
  front := by
    intro t rest hm
    obtain ⟨m, hlang, ht⟩ := (mem_rests h).1 (List.mem_of_head? hm)
    exact ⟨m, rest, ht, hlang, trivial⟩
  rest := by
    intro t rest hm
    obtain ⟨m, hlang, ht⟩ := (mem_rests h).1 (List.mem_of_head? hm)
    exact ⟨m, hne m hlang, ht⟩
  none := by
    rintro t hm ⟨w, b, ht, hw, -⟩
    have hmem := (mem_rests h).2 ⟨w, hw, ht⟩
    rw [List.head?_eq_none_iff.1 hm] at hmem
    cases hmem

theorem lazyTo_some {r : Re} (h : r.Plain) : ∀ {t rest : Text}, lazyTo r t = some rest →
    ∃ a m, t = a ++ m ++ rest ∧ Lang r m
  | [], rest, hm => by
    obtain ⟨m, hlang, ht⟩ := (mem_rests h).1 (List.mem_of_head? hm)
    exact ⟨[], m, ht, hlang⟩
  | c :: cs, rest, hm => by
    rw [lazyTo, Option.or_eq_some_iff] at hm
    rcases hm with hm | ⟨-, hm⟩
    · obtain ⟨m, hlang, ht⟩ := (mem_rests h).1 (List.mem_of_head? hm)
      exact ⟨[], m, ht, hlang⟩
    · obtain ⟨a, m, rfl, hlang⟩ := lazyTo_some h hm
      exact ⟨c :: a, m, rfl, hlang⟩

theorem lazyTo_isSome {r : Re} (h : r.Plain) {m b : Text} (hlang : Lang r m) : ∀ a : Text,
    lazyTo r (a ++ m ++ b) ≠ none
  | [], hnone => by
    have hmem : b ∈ rests r (m ++ b) := (mem_rests h).2 ⟨m, hlang, rfl⟩
    have hone : matchOne r (m ++ b) = none := by
      rw [List.nil_append] at hnone
      cases hmb : m ++ b with
      | nil => rw [hmb] at hnone; exact hnone
      | cons c cs =>
        rw [hmb, lazyTo, Option.or_eq_none_iff] at hnone
        exact hnone.1
    rw [List.head?_eq_none_iff.1 hone] at hmem
    cases hmem
  | c :: a, hnone => by
    rw [List.cons_append, List.cons_append, lazyTo, Option.or_eq_none_iff] at hnone
    exact lazyTo_isSome h hlang a hnone.2

theorem finds_matchBlock {opens closes : Re} (ho : opens.Plain) (hc : closes.Plain)
    (hne : ∀ m, Lang opens m → m ≠ []) : Finds (matchBlock opens closes) (Lang opens) [Lang closes] where
  front := by
    intro t rest hm
    obtain ⟨b, hb, hlazy⟩ := List.exists_of_findSome?_eq_some hm
    obtain ⟨w, hw, ht⟩ := (mem_rests ho).1 hb
    obtain ⟨a, m, rfl, hlang⟩ := lazyTo_some hc hlazy
    exact ⟨w, _, ht, hw, a, m, rest, rfl, hlang, trivial⟩
  rest := by
    intro t rest hm
    obtain ⟨b, hb, hlazy⟩ := List.exists_of_findSome?_eq_some hm
    obtain ⟨w, hw, rfl⟩ := (mem_rests ho).1 hb
    obtain ⟨a, m, rfl, -⟩ := lazyTo_some hc hlazy
    exact ⟨w ++ (a ++ m), by simp [hne w hw], by simp⟩
  none := by
    rintro t hm ⟨w, b, rfl, hw, a, m, b', rfl, hlang, -⟩
    rw [matchBlock, List.findSome?_eq_none_iff] at hm
    exact lazyTo_isSome hc hlang a (hm _ ((mem_rests ho).2 ⟨w, hw, rfl⟩))

/-- `re.search`. -/
def found (m : Text → Option Text) (t : Text) : Bool := t.tails.any fun s => (m s).isSome

theorem found_iff {m : Text → Option Text} {L : Text → Prop} {Ls : List (Text → Prop)} (h : Finds m L Ls) {t : Text} :
    found m t = true ↔ InOrder (L :: Ls) t := by
  rw [found, List.any_eq_true]
  constructor
  · rintro ⟨s, hs, hm⟩
    obtain ⟨rest, hm⟩ := Option.isSome_iff_exists.1 hm
    exact (h.front hm).inOrder.of_infix ((List.mem_tails _ _).1 hs).isInfix
  · rintro ⟨a, w, b, rfl, hw, hb⟩
    refine ⟨w ++ b, (List.mem_tails _ _).2 ⟨a, by simp⟩, ?_⟩
    rw [Option.isSome_iff_ne_none]
    exact fun hnone => h.none hnone ⟨w, b, rfl, hw, hb⟩

/-! ### Substitution -/

/-- The fuel bounds the number of places that are looked at. -/
def subFrom (m : Text → Option Text) (new : Text) : ℕ → Text → Text
  | 0, t => t
  | fuel + 1, t =>
    match m t with
    | some rest => new ++ subFrom m new fuel rest
    | none =>
      match t with
      | [] => []
      | c :: cs => c :: subFrom m new fuel cs

/-- `re.sub`, for a pattern that never matches the empty text. -/
def sub (m : Text → Option Text) (new t : Text) : Text := subFrom m new t.length t

/-- A text, and what a substitution makes of it: a character is copied where nothing is found, and something that
    is not empty makes place for the new text. -/
inductive Subbed (front : Text → Prop) (new : Text) : Text → Text → Prop
  | nil : Subbed front new [] []
  | copy {c : Char} {t r : Text} : ¬ front (c :: t) → Subbed front new t r → Subbed front new (c :: t) (c :: r)
  | put {p t r : Text} : p ≠ [] → Subbed front new t r → Subbed front new (p ++ t) (new ++ r)

section
variable {m : Text → Option Text} {L : Text → Prop} {Ls : List (Text → Prop)} {new : Text}

theorem subbed_subFrom (h : Finds m L Ls) : ∀ {fuel : ℕ} {t : Text}, t.length ≤ fuel →
    Subbed (AtFront L Ls) new t (subFrom m new fuel t)
  | 0, t, hfuel => by
    rw [List.eq_nil_of_length_eq_zero (Nat.le_zero.1 hfuel)]
    exact .nil
  | fuel + 1, t, hfuel => by
    unfold subFrom
    cases hm : m t with
    | some rest =>
      obtain ⟨p, hp, rfl⟩ := h.rest hm
      have hlen : 0 < p.length := List.length_pos_of_ne_nil hp
      rw [List.length_append] at hfuel
      exact .put hp (subbed_subFrom h (by omega))
    | none =>
      cases t with
      | nil => exact .nil
      | cons c cs => exact .copy (h.none hm) (subbed_subFrom h (Nat.le_of_succ_le_succ hfuel))

theorem subbed_sub (h : Finds m L Ls) (t : Text) : Subbed (AtFront L Ls) new t (sub m new t) := subbed_subFrom h le_rfl

theorem subFrom_eq_self (h : Finds m L Ls) : ∀ {fuel : ℕ} {t : Text}, ¬ InOrder (L :: Ls) t → subFrom m new fuel t = t
  | 0, _, _ => rfl
  | fuel + 1, t, hnot => by
    unfold subFrom
    cases hm : m t with
    | some rest => exact absurd (h.front hm).inOrder hnot
    | none =>
      cases t with
      | nil => rfl
      | cons c cs => exact congrArg (c :: ·) (subFrom_eq_self h fun hcs => hnot (hcs.append_left [c]))

/-- Where nothing is found, nothing changes. -/
theorem sub_eq_self (h : Finds m L Ls) {t : Text} (hnot : ¬ InOrder (L :: Ls) t) : sub m new t = t :=
  subFrom_eq_self h hnot

end

/-! ### What is put in brackets -/

/-- A text in brackets. -/
structure Bracketed where
  opens : Char
  inner : Text
  closes : Char

def Bracketed.text (k : Bracketed) : Text := k.opens :: k.inner ++ [k.closes]

/-- No word has a bracket or stands inside of the brackets. -/
def Bracketed.Clear (k : Bracketed) (L : Text → Prop) : Prop :=
  ∀ w, L w → w ≠ [] ∧ k.opens ∉ w ∧ k.closes ∉ w ∧ ¬ w <:+: k.inner

/-- A word without the character stands before it or behind it. -/
theorem before_or_behind {a w b x y : Text} {d : Char} (h : a ++ w ++ b = x ++ d :: y) (hd : d ∉ w) :
    (∃ b', x = a ++ w ++ b') ∨ ∃ a', y = a' ++ w ++ b := by
  rcases List.append_eq_append_iff.1 h with ⟨s, hx, -⟩ | ⟨s, haw, hy⟩
  · exact Or.inl ⟨s, hx⟩
  · cases s with
    | nil => exact Or.inl ⟨[], by rw [List.append_nil] at haw ⊢; exact haw.symm⟩
    | cons e s =>
      obtain ⟨rfl, rfl⟩ := List.cons.inj hy
      rcases List.append_eq_append_iff.1 haw with ⟨s', -, hw⟩ | ⟨s', -, hs⟩
      · exact absurd (hw ▸ List.mem_append_right _ List.mem_cons_self) hd
      · cases s' with
        | nil =>
          rw [List.nil_append] at hs
          exact absurd (hs ▸ List.mem_cons_self) hd
        | cons f s' =>
          obtain ⟨-, rfl⟩ := List.cons.inj hs
          exact Or.inr ⟨s', rfl⟩

variable {k : Bracketed} {L : Text → Prop} {Ls : List (Text → Prop)} {front : Text → Prop}

theorem InOrder.of_text {r : Text} (hclear : k.Clear L) (h : InOrder (L :: Ls) (k.text ++ r)) :
    InOrder (L :: Ls) r := by
  obtain ⟨a, w, b, heq, hw, hb⟩ := h
  obtain ⟨hne, hopens, hcloses, hinner⟩ := hclear w hw
  have heq' : a ++ w ++ b = (k.opens :: k.inner) ++ k.closes :: r := by
    rw [← heq, Bracketed.text]
    simp
  rcases before_or_behind heq' hcloses with ⟨b', hb'⟩ | ⟨a', rfl⟩
  · rcases before_or_behind (x := []) hb'.symm hopens with ⟨b'', hnil⟩ | ⟨a', hin⟩
    · simp [hne] at hnil
    · exact absurd ⟨a', b', hin.symm⟩ hinner
  · exact ⟨a', w, b, rfl, hw, hb⟩

/-- What the result begins with, without a bracket, the text begins with. -/
theorem Subbed.front_copied {s : Text} : ∀ {w t : Text}, Subbed front k.text t (w ++ s) → k.opens ∉ w →
    ∃ t', t = w ++ t' ∧ Subbed front k.text t' s
  | [], t, h, _ => ⟨t, rfl, h⟩
  | c :: w, t, h, hopens => by
    generalize hr : c :: w ++ s = r at h
    cases h with
    | nil => cases hr
    | copy hfront h =>
      obtain ⟨rfl, rfl⟩ := List.cons.inj hr
      obtain ⟨t', rfl, ht'⟩ := front_copied h fun hw => hopens (List.mem_cons_of_mem _ hw)
      exact ⟨t', rfl, ht'⟩
    | put hp h =>
      obtain ⟨rfl, -⟩ := List.cons.inj hr
      exact absurd List.mem_cons_self hopens

/-- A character that is copied, with the words behind it: from the result back to the text. -/
theorem Subbed.inOrder_of_copy {c : Char} {t r : Text} (hclear : k.Clear L) (h : Subbed front k.text t r)
    (hfound : InOrder (L :: Ls) (c :: r)) :
    InOrder (L :: Ls) r ∨ ∃ w t' b, c :: t = w ++ t' ∧ L w ∧ Subbed front k.text t' b ∧ InOrder Ls b ∧
      t'.length ≤ t.length := by
  obtain ⟨a, w, b, heq, hw, hb⟩ := hfound
  obtain ⟨hne, hopens, -, -⟩ := hclear w hw
  cases a with
  | cons d a =>
    obtain ⟨-, rfl⟩ := List.cons.inj heq
    exact Or.inl ⟨a, w, b, rfl, hw, hb⟩
  | nil =>
    cases w with
    | nil => exact absurd rfl hne
    | cons d w =>
      obtain ⟨rfl, rfl⟩ := List.cons.inj heq
      obtain ⟨t', rfl, ht'⟩ := h.front_copied fun hmem => hopens (List.mem_cons_of_mem _ hmem)
      exact Or.inr ⟨c :: w, t', b, rfl, hw, ht', hb, by simp⟩

/-- REFLECT: words that stand in the result in order stand in the text in order. -/
theorem Subbed.reflect : ∀ {n : ℕ} {Ls : List (Text → Prop)} {t r : Text}, t.length ≤ n →
    (∀ L ∈ Ls, k.Clear L) → Subbed front k.text t r → InOrder Ls r → InOrder Ls t
  | _, [], _, _, _, _, _, _ => trivial
  | n, L :: Ls, t, r, hn, hclear, h, hfound => by
    have hL : k.Clear L := hclear L List.mem_cons_self
    cases h with
    | nil => exact hfound
    | put hp h =>
      rename_i p t r
      have hlen : 0 < p.length := List.length_pos_of_ne_nil hp
      rw [List.length_append] at hn
      cases n with
      | zero => omega
      | succ n => exact (h.reflect (n := n) (by omega) hclear (hfound.of_text hL)).append_left p
    | copy hfront h =>
      rename_i c t r
      rw [List.length_cons] at hn
      cases n with
      | zero => omega
      | succ n =>
        rcases h.inOrder_of_copy hL hfound with hr | ⟨w, t', b, ht, hw, hsub, hb, hlen⟩
        · exact (h.reflect (n := n) (by omega) hclear hr).append_left [c]
        · rw [ht]
          exact ⟨[], w, t', rfl, hw,
            hsub.reflect (n := n) (by omega) (fun L' hL' => hclear L' (List.mem_cons_of_mem _ hL')) hb⟩

/-- The pattern itself is not found in the result. -/
theorem Subbed.not_inOrder {t r : Text} (hclear : ∀ L' ∈ L :: Ls, k.Clear L')
    (h : Subbed (AtFront L Ls) k.text t r) : ¬ InOrder (L :: Ls) r := by
  have hL : k.Clear L := hclear L List.mem_cons_self
  induction h with
  | nil =>
    rintro ⟨a, w, b, heq, hw, -⟩
    have hnil : w = [] := by
      simp only [List.nil_eq, List.append_eq_nil_iff] at heq
      exact heq.1.2
    exact (hL w hw).1 hnil
  | put hp h ih => exact fun hfound => ih (hfound.of_text hL)
  | copy hfront h ih =>
    intro hfound
    rcases h.inOrder_of_copy hL hfound with hr | ⟨w, t', b, ht, hw, hsub, hb, -⟩
    · exact ih hr
    · exact hfront ⟨w, t', ht, hw,
        hsub.reflect le_rfl (fun L' hL' => hclear L' (List.mem_cons_of_mem _ hL')) hb⟩

/-! ### One substitution after another -/

/-- A pattern with its matcher. -/
structure Rule where
  matcher : Text → Option Text
  first : Text → Prop
  others : List (Text → Prop)
  finds : Finds matcher first others

namespace Rule

def words (r : Rule) : List (Text → Prop) := r.first :: r.others

/-- The pattern `r`. -/
def one (r : Re) (h : r.Plain) (hne : ∀ m, Lang r m → m ≠ []) : Rule :=
  ⟨matchOne r, Lang r, [], finds_matchOne h hne⟩

/-- The pattern `opens.*?closes`. -/
def block (opens closes : Re) (ho : opens.Plain) (hc : closes.Plain) (hne : ∀ m, Lang opens m → m ≠ []) : Rule :=
  ⟨matchBlock opens closes, Lang opens, [Lang closes], finds_matchBlock ho hc hne⟩

/-- `for pattern in rules: t = pattern.sub(new, t)`. -/
def subAll (new : Text) (rules : List Rule) (t : Text) : Text := rules.foldl (fun t r => sub r.matcher new t) t

/-- The words of the pattern have nothing to do with what is put in. -/
def Clear (k : Bracketed) (r : Rule) : Prop := ∀ L ∈ r.words, k.Clear L

variable {k : Bracketed} {rules : List Rule}

theorem subAll_reflect {Ls : List (Text → Prop)} (hclear : ∀ L ∈ Ls, k.Clear L) : ∀ {rules : List Rule} {t : Text},
    InOrder Ls (subAll k.text rules t) → InOrder Ls t
  | [], _, h => h
  | r :: _, t, h => (subbed_sub r.finds t).reflect le_rfl hclear (subAll_reflect hclear h)

/-- None of the patterns is found in the end. -/
theorem subAll_not_inOrder : ∀ {rules : List Rule} {t : Text}, (∀ r ∈ rules, r.Clear k) →
    ∀ r ∈ rules, ¬ InOrder r.words (subAll k.text rules t)
  | r :: rules, t, hclear, r', hr' => by
    rcases List.mem_cons.1 hr' with rfl | hr'
    · have hself := hclear r' List.mem_cons_self
      intro hfound
      exact (subbed_sub r'.finds t).not_inOrder hself (subAll_reflect hself hfound)
    · exact subAll_not_inOrder (fun r'' hr'' => hclear r'' (List.mem_cons_of_mem _ hr'')) r' hr'

theorem subAll_eq_self {new : Text} : ∀ {rules : List Rule} {t : Text}, (∀ r ∈ rules, ¬ InOrder r.words t) →
    subAll new rules t = t
  | [], _, _ => rfl
  | r :: rules, t, h => by
    have hself : sub r.matcher new t = t := sub_eq_self r.finds (h r List.mem_cons_self)
    rw [subAll, List.foldl_cons, hself]
    exact subAll_eq_self fun r' hr' => h r' (List.mem_cons_of_mem _ hr')

end Rule

end Regex
