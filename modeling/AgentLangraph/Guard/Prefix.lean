import AgentLangraph.Guard.Segments

/-! The code of a text that is still being streamed. What a part of the text shows as code, the whole
    text has as code too, unless code of the whole text begins before the cut and ends behind it:

        text    prose │ code │ prose ──────────▶
        part    prose │ code │ pro               reads on
        part    prose │ co                       shows code as prose -/

namespace AgentLangraph.Guard
open PyText

/-! ### Fences -/

theorem cutFence_some {t b r : Text} (h : cutFence t = some (b, r)) : t = b ++ fence ++ r := by
  induction t generalizing b with
  | nil => cases h
  | cons c cs ih =>
    rw [cutFence] at h
    split_ifs at h with hfence
    · obtain ⟨rfl, rfl⟩ := Prod.mk.inj (Option.some.inj h)
      rw [← hfence, List.nil_append, List.take_append_drop]
    · obtain ⟨⟨b₀, r₀⟩, hcs, heq⟩ := Option.map_eq_some_iff.1 h
      cases heq
      rw [ih hcs]
      rfl

theorem length_of_cutFence {t b r : Text} (h : cutFence t = some (b, r)) :
    t.length = b.length + r.length + 3 := by
  rw [cutFence_some h, List.length_append, List.length_append]
  change b.length + 3 + r.length = _
  omega

/-- The first triple backtick stays the first. -/
theorem cutFence_append {t b r : Text} (h : cutFence t = some (b, r)) (s : Text) :
    cutFence (t ++ s) = some (b, r ++ s) := by
  induction t generalizing b with
  | nil => cases h
  | cons c cs ih =>
    have hlen : 3 ≤ (c :: cs).length := by
      have := length_of_cutFence h
      omega
    rw [cutFence] at h
    rw [List.cons_append, cutFence, ← List.cons_append, List.take_append_of_le_length hlen,
      List.drop_append_of_le_length hlen]
    split_ifs at h ⊢ with hfence
    · obtain ⟨rfl, rfl⟩ := Prod.mk.inj (Option.some.inj h)
      rfl
    · obtain ⟨⟨b₀, r₀⟩, hcs, heq⟩ := Option.map_eq_some_iff.1 h
      cases heq
      rw [ih hcs]
      rfl

/-- A triple backtick that ends within `t` is found there. -/
theorem cutFence_of_append {t s b r : Text} (h : cutFence (t ++ s) = some (b, r))
    (hlen : b.length + 3 ≤ t.length) : ∃ r', cutFence t = some (b, r') ∧ r = r' ++ s := by
  induction t generalizing b with
  | nil => exact absurd hlen (by simp)
  | cons c cs ih =>
    have hthree : 3 ≤ (c :: cs).length := by omega
    rw [List.cons_append, cutFence, ← List.cons_append, List.take_append_of_le_length hthree,
      List.drop_append_of_le_length hthree] at h
    rw [cutFence]
    split_ifs at h ⊢ with hfence
    · obtain ⟨rfl, rfl⟩ := Prod.mk.inj (Option.some.inj h)
      exact ⟨_, rfl, rfl⟩
    · obtain ⟨⟨b₀, r₀⟩, hcs, heq⟩ := Option.map_eq_some_iff.1 h
      cases heq
      simp only [List.length_cons] at hlen
      obtain ⟨r', hr', heq'⟩ := ih hcs (by omega)
      exact ⟨r', by rw [hr']; rfl, heq'⟩

theorem findFence_eq_some_iff {t b i a : Text} :
    findFence t = some (b, i, a) ↔ ∃ r, cutFence t = some (b, r) ∧ cutFence r = some (i, a) := by
  rw [findFence]
  constructor
  · intro h
    obtain ⟨⟨b', r⟩, hb, h⟩ := Option.bind_eq_some_iff.1 h
    obtain ⟨⟨i', a'⟩, hi, h⟩ := Option.bind_eq_some_iff.1 h
    cases h
    exact ⟨r, hb, hi⟩
  · rintro ⟨r, hb, hi⟩
    rw [hb, Option.bind_eq_bind, Option.bind_some]
    dsimp only
    rw [hi]
    rfl

theorem length_of_findFence {t b i a : Text} (h : findFence t = some (b, i, a)) :
    t.length = b.length + i.length + a.length + 6 := by
  obtain ⟨r, hb, hi⟩ := findFence_eq_some_iff.1 h
  rw [length_of_cutFence hb, length_of_cutFence hi]
  omega

theorem findFence_append {t b i a : Text} (h : findFence t = some (b, i, a)) (s : Text) :
    findFence (t ++ s) = some (b, i, a ++ s) := by
  obtain ⟨r, hb, hi⟩ := findFence_eq_some_iff.1 h
  exact findFence_eq_some_iff.2 ⟨r ++ s, cutFence_append hb s, cutFence_append hi s⟩

theorem findFence_of_append {t s b i a : Text} (h : findFence (t ++ s) = some (b, i, a))
    (hlen : b.length + i.length + 6 ≤ t.length) :
    ∃ a', findFence t = some (b, i, a') ∧ a = a' ++ s := by
  obtain ⟨r, hb, hi⟩ := findFence_eq_some_iff.1 h
  obtain ⟨r', hr', rfl⟩ := cutFence_of_append hb (by omega)
  have := length_of_cutFence hr'
  obtain ⟨a', ha', rfl⟩ := cutFence_of_append hi (by omega)
  exact ⟨a', findFence_eq_some_iff.2 ⟨r', hr', ha'⟩, rfl⟩

/-! ### Inline code -/

/-- Where `p` fails inside a text, what follows the text does not count. -/
theorem takeWhile_dropWhile_append {p : Char → Bool} {t : Text} (h : t.dropWhile p ≠ []) (s : Text) :
    (t ++ s).takeWhile p = t.takeWhile p ∧ (t ++ s).dropWhile p = t.dropWhile p ++ s := by
  induction t with
  | nil => exact absurd rfl h
  | cons c cs ih =>
    cases hc : p c with
    | true =>
      rw [List.dropWhile_cons_of_pos hc] at h ⊢
      rw [List.cons_append, List.takeWhile_cons_of_pos hc, List.takeWhile_cons_of_pos hc,
        List.dropWhile_cons_of_pos hc, (ih h).1, (ih h).2]
      exact ⟨rfl, rfl⟩
    | false =>
      have hc' : ¬p c = true := by simp [hc]
      rw [List.cons_append, List.takeWhile_cons_of_neg hc', List.takeWhile_cons_of_neg hc',
        List.dropWhile_cons_of_neg hc', List.dropWhile_cons_of_neg hc']
      exact ⟨rfl, rfl⟩

/-- Inline code begins at the backtick before `cs`. -/
def OpensInline (c : Char) (cs : Text) : Prop :=
  c = '\x60' ∧ cs.takeWhile isInlineChar ≠ [] ∧ (cs.dropWhile isInlineChar).head? = some '\x60'

instance (c : Char) (cs : Text) : Decidable (OpensInline c cs) :=
  inferInstanceAs (Decidable (_ ∧ _))

theorem findInline_cons (c : Char) (cs : Text) : findInline (c :: cs) =
    if OpensInline c cs then
      some ([], cs.takeWhile isInlineChar, (cs.dropWhile isInlineChar).tail)
    else (findInline cs).map fun p => (c :: p.1, p.2) := rfl

theorem opensInline_append {c : Char} {cs : Text} (h : cs.dropWhile isInlineChar ≠ []) (s : Text) :
    OpensInline c (cs ++ s) ↔ OpensInline c cs := by
  obtain ⟨htake, hdrop⟩ := takeWhile_dropWhile_append h s
  rw [OpensInline, OpensInline, htake, hdrop, List.head?_append_of_ne_nil _ h]

theorem findInline_some {t b i a : Text} (h : findInline t = some (b, i, a)) :
    t = b ++ '\x60' :: i ++ '\x60' :: a := by
  induction t generalizing b with
  | nil => cases h
  | cons c cs ih =>
    rw [findInline_cons] at h
    split_ifs at h with hopen
    · obtain ⟨rfl, heq⟩ := Prod.mk.inj (Option.some.inj h)
      obtain ⟨rfl, rfl⟩ := Prod.mk.inj heq
      obtain ⟨rfl, -, hhead⟩ := hopen
      obtain ⟨rest, hrest⟩ := List.head?_eq_some_iff.1 hhead
      conv_lhs => rw [← List.takeWhile_append_dropWhile (p := isInlineChar) (l := cs), hrest]
      rw [hrest]
      rfl
    · obtain ⟨⟨b₀, i₀, a₀⟩, hcs, heq⟩ := Option.map_eq_some_iff.1 h
      cases heq
      rw [ih hcs]
      rfl

theorem length_of_findInline {t b i a : Text} (h : findInline t = some (b, i, a)) :
    t.length = b.length + i.length + a.length + 2 := by
  rw [findInline_some h]
  simp only [List.length_append, List.length_cons]
  omega

/-- A text with inline code has a backtick. -/
theorem dropWhile_ne_nil_of_findInline {t b i a : Text} (h : findInline t = some (b, i, a)) :
    t.dropWhile isInlineChar ≠ [] := by
  intro hnil
  have hall := List.dropWhile_eq_nil_iff.1 hnil '\x60' (by rw [findInline_some h]; simp)
  exact absurd hall (by decide)

/-- The first inline code stays the first. -/
theorem findInline_append {t b i a : Text} (h : findInline t = some (b, i, a)) (s : Text) :
    findInline (t ++ s) = some (b, i, a ++ s) := by
  induction t generalizing b with
  | nil => cases h
  | cons c cs ih =>
    rw [findInline_cons] at h
    rw [List.cons_append, findInline_cons]
    split_ifs at h with hopen
    · have hne : cs.dropWhile isInlineChar ≠ [] := fun hnil => by
        have hhead := hopen.2.2
        rw [hnil] at hhead
        cases hhead
      obtain ⟨htake, hdrop⟩ := takeWhile_dropWhile_append hne s
      rw [if_pos ((opensInline_append hne s).2 hopen), htake, hdrop, List.tail_append_of_ne_nil hne]
      obtain ⟨rfl, heq⟩ := Prod.mk.inj (Option.some.inj h)
      obtain ⟨rfl, rfl⟩ := Prod.mk.inj heq
      rfl
    · obtain ⟨⟨b₀, i₀, a₀⟩, hcs, heq⟩ := Option.map_eq_some_iff.1 h
      cases heq
      have hne := dropWhile_ne_nil_of_findInline hcs
      rw [if_neg (fun h => hopen ((opensInline_append hne s).1 h)), ih hcs]
      rfl

/-- Inline code that ends within `t` is found there. -/
theorem findInline_of_append {t s b i a : Text} (h : findInline (t ++ s) = some (b, i, a))
    (hlen : b.length + i.length + 2 ≤ t.length) :
    ∃ a', findInline t = some (b, i, a') ∧ a = a' ++ s := by
  induction t generalizing b with
  | nil => exact absurd hlen (by simp)
  | cons c cs ih =>
    rw [List.cons_append, findInline_cons] at h
    rw [List.length_cons] at hlen
    rw [findInline_cons]
    split_ifs at h with hopen
    · obtain ⟨rfl, heq⟩ := Prod.mk.inj (Option.some.inj h)
      obtain ⟨rfl, rfl⟩ := Prod.mk.inj heq
      have hne : cs.dropWhile isInlineChar ≠ [] := fun hnil => by
        -- the run would reach behind `cs`
        have hall := List.dropWhile_eq_nil_iff.1 hnil
        rw [List.takeWhile_append_of_pos hall, List.length_append, List.length_nil] at hlen
        omega
      obtain ⟨htake, hdrop⟩ := takeWhile_dropWhile_append hne s
      rw [if_pos ((opensInline_append hne s).1 hopen), htake, hdrop, List.tail_append_of_ne_nil hne]
      exact ⟨_, rfl, rfl⟩
    · obtain ⟨⟨b₀, i₀, a₀⟩, hcs, heq⟩ := Option.map_eq_some_iff.1 h
      cases heq
      simp only [List.length_cons] at hlen
      obtain ⟨a', ha', heq'⟩ := ih hcs (by omega)
      have hne := dropWhile_ne_nil_of_findInline ha'
      rw [if_neg (fun h => hopen ((opensInline_append hne s).2 h)), ha']
      exact ⟨a', rfl, heq'⟩

/-! ### Code spans -/

/-- Where the inline code of a chunk begins and ends, backticks included. -/
def inlineSpans : ℕ → ℕ → Text → List (ℕ × ℕ)
  | 0, _, _ => []
  | fuel + 1, start, rest =>
    match findInline rest with
    | some (before, inside, after) =>
      (start + before.length, start + before.length + inside.length + 2) ::
        inlineSpans fuel (start + before.length + inside.length + 2) after
    | none => []

def fenceSpans : ℕ → ℕ → Text → List (ℕ × ℕ)
  | 0, _, _ => []
  | fuel + 1, start, rest =>
    match findFence rest with
    | some (before, inside, after) =>
      inlineSpans before.length start before ++
        (start + before.length, start + before.length + inside.length + 6) ::
          fenceSpans fuel (start + before.length + inside.length + 6) after
    | none => inlineSpans rest.length start rest

/-- Where the code of a text begins and ends. -/
def codeSpans (t : Text) : List (ℕ × ℕ) := fenceSpans t.length 0 t

/-- The code is begun at place `n`, and not ended. -/
def Straddles (n : ℕ) (span : ℕ × ℕ) : Prop := span.1 < n ∧ n < span.2

instance (n : ℕ) (span : ℕ × ℕ) : Decidable (Straddles n span) := inferInstanceAs (Decidable (_ ∧ _))

/-- A cut at place `n` goes through code of the text. -/
def CutsCode (t : Text) (n : ℕ) : Prop := ∃ span ∈ codeSpans t, Straddles n span

instance (t : Text) (n : ℕ) : Decidable (CutsCode t n) :=
  inferInstanceAs (Decidable (∃ span ∈ codeSpans t, Straddles n span))

/-! ### Reading on -/

/-- `ys` goes on from `xs` where the text is cut at place `n`: up to blanks it has nothing more of what
    lies before. -/
def ReadsOn (n : ℕ) (xs ys : List (ℕ × Char)) : Prop :=
  ∃ rest, ys = xs ++ rest ∧ ∀ x ∈ rest, x.1 < n → isSpace x.2

section
variable {n : ℕ} {xs ys : List (ℕ × Char)}

theorem ReadsOn.append_left (h : ReadsOn n xs ys) (zs : List (ℕ × Char)) :
    ReadsOn n (zs ++ xs) (zs ++ ys) := by
  obtain ⟨rest, rfl, hrest⟩ := h
  exact ⟨rest, (List.append_assoc ..).symm, hrest⟩

theorem ReadsOn.append_right (h : ReadsOn n xs ys) {zs : List (ℕ × Char)} (hzs : ∀ x ∈ zs, n ≤ x.1) :
    ReadsOn n xs (ys ++ zs) := by
  obtain ⟨rest, rfl, hrest⟩ := h
  refine ⟨rest ++ zs, List.append_assoc .., fun x hx hlt => ?_⟩
  rcases List.mem_append.1 hx with hx | hx
  · exact hrest x hx hlt
  · exact absurd (hzs x hx) (not_le.2 hlt)

end

/-- What is no blank and lies before the cut was there already. -/
theorem ReadsOn.holds {n : ℕ} {xs front back : List (ℕ × Char)} {x : ℕ × Char}
    (h : ReadsOn n xs (front ++ [x] ++ back)) (hlt : x.1 < n) (hx : isSpace x.2 = false) :
    ∃ us us', xs = front ++ [x] ++ us ∧ back = us ++ us' := by
  obtain ⟨rest, heq, hrest⟩ := h
  rcases List.append_eq_append_iff.1 heq with ⟨us, hxs, hback⟩ | ⟨us, hfront, hus⟩
  · exact ⟨us, rest, hxs, hback⟩
  · cases us using List.reverseRecOn with
    | nil =>
      rw [List.append_nil] at hfront
      exact ⟨[], back, by rw [hfront, List.append_nil], rfl⟩
    | append_singleton us y =>
      -- `x` would be of what comes after
      have hxy : x = y := by simpa using congrArg List.getLast? hfront
      have hblank := hrest x (by rw [hus, hxy]; simp) hlt
      rw [hx] at hblank
      cases hblank

theorem placesFrom_append (start : ℕ) (a b : Text) :
    placesFrom start (a ++ b) = placesFrom start a ++ placesFrom (start + a.length) b := by
  induction a generalizing start with
  | nil => rfl
  | cons c cs ih =>
    rw [List.cons_append, placesFrom, ih, placesFrom, List.cons_append, List.length_cons,
      Nat.add_right_comm, Nat.add_assoc]

theorem le_of_mem_placesFrom {start : ℕ} {t : Text} {x : ℕ × Char} (h : x ∈ placesFrom start t) :
    start ≤ x.1 := by
  induction t generalizing start with
  | nil => cases h
  | cons c cs ih =>
    rw [placesFrom, List.mem_cons] at h
    rcases h with rfl | h
    · exact le_refl _
    · exact (Nat.le_succ _).trans (ih h)

theorem prosePlaces_append (as bs : List ContentSegment) :
    prosePlaces (as ++ bs) = prosePlaces as ++ prosePlaces bs := by
  rw [prosePlaces, proseSegments, List.filter_append, List.flatMap_append]
  rfl

theorem prosePlaces_cons_of_code {s : ContentSegment} (h : s.kind ≠ .prose)
    (segments : List ContentSegment) : prosePlaces (s :: segments) = prosePlaces segments := by
  rw [prosePlaces, proseSegments, List.filter_cons_of_neg (by simpa using h)]
  rfl

theorem prosePlaces_proseSegment (start : ℕ) (t : Text) :
    prosePlaces (proseSegment start t) = if strip t = [] then [] else placesFrom start t := by
  rw [proseSegment]
  split_ifs
  · rfl
  · exact List.append_nil _

theorem le_of_mem_proseSegment {start : ℕ} {t : Text} {x : ℕ × Char}
    (h : x ∈ prosePlaces (proseSegment start t)) : start ≤ x.1 := by
  rw [prosePlaces_proseSegment] at h
  split_ifs at h
  · cases h
  · exact le_of_mem_placesFrom h

/-- Prose goes on as prose. -/
theorem readsOn_proseSegment (start : ℕ) (c s : Text) :
    ReadsOn (start + c.length) (prosePlaces (proseSegment start c))
      (prosePlaces (proseSegment start (c ++ s))) := by
  rw [prosePlaces_proseSegment, prosePlaces_proseSegment]
  have hrest : ∀ x ∈ placesFrom (start + c.length) s, x.1 < start + c.length → isSpace x.2 :=
    fun x hx hlt => absurd (le_of_mem_placesFrom hx) (not_le.2 hlt)
  by_cases hc : strip c = []
  · rw [if_pos hc]
    split_ifs with hcs
    · exact ⟨[], rfl, nofun⟩
    · refine ⟨placesFrom start (c ++ s), rfl, fun x hx hlt => ?_⟩
      rw [placesFrom_append, List.mem_append] at hx
      rcases hx with hx | hx
      · have hmem : x.2 ∈ c := by
          rw [← map_snd_placesFrom start c]
          exact List.mem_map_of_mem hx
        exact strip_eq_nil_iff.1 hc _ hmem
      · exact hrest x hx hlt
  · have hcs : ¬strip (c ++ s) = [] := fun h =>
      hc (strip_eq_nil_iff.2 fun x hx => strip_eq_nil_iff.1 h x (List.mem_append_left _ hx))
    rw [if_neg hc, if_neg hcs]
    exact ⟨placesFrom (start + c.length) s, placesFrom_append .., hrest⟩

/-! ### A chunk -/

theorem inlinePieces_of_none {fuel start : ℕ} {t : Text} (h : findInline t = none)
    (hfuel : t.length ≤ fuel) : inlinePieces fuel start t = proseSegment start t := by
  cases fuel with
  | zero =>
    rw [List.eq_nil_of_length_eq_zero (Nat.le_zero.1 hfuel)]
    rfl
  | succ fuel => rw [inlinePieces, h]

theorem findInline_eq_none_of_append {t s : Text} (h : findInline (t ++ s) = none) :
    findInline t = none := by
  cases ht : findInline t with
  | none => rfl
  | some p =>
    rw [findInline_append ht] at h
    cases h

/-- The places of a chunk whose first inline code is known. -/
theorem prosePlaces_inlinePieces {fuel start : ℕ} {t b i a : Text}
    (h : findInline t = some (b, i, a)) : prosePlaces (inlinePieces (fuel + 1) start t) =
      prosePlaces (proseSegment start b) ++
        prosePlaces (inlinePieces fuel (start + b.length + i.length + 2) a) := by
  rw [inlinePieces, h, prosePlaces_append, prosePlaces_cons_of_code (by simp)]

theorem le_of_mem_inlinePieces {fuel : ℕ} : ∀ {start : ℕ} {t : Text} {x : ℕ × Char},
    x ∈ prosePlaces (inlinePieces fuel start t) → start ≤ x.1 := by
  induction fuel with
  | zero =>
    intro start t x h
    cases h
  | succ fuel ih =>
    intro start t x h
    cases hfind : findInline t with
    | none =>
      rw [inlinePieces, hfind] at h
      exact le_of_mem_proseSegment h
    | some p =>
      obtain ⟨b, i, a⟩ := p
      rw [prosePlaces_inlinePieces hfind, List.mem_append] at h
      rcases h with h | h
      · exact le_of_mem_proseSegment h
      · have := ih h
        omega

/-- CHUNK: cut outside of its inline code, a chunk reads on. -/
theorem readsOn_inlinePieces {fuel : ℕ} : ∀ {fuel' start : ℕ} {c s : Text}, c.length ≤ fuel' →
    (c ++ s).length ≤ fuel →
    (∀ span ∈ inlineSpans fuel start (c ++ s), ¬Straddles (start + c.length) span) →
    ReadsOn (start + c.length) (prosePlaces (inlinePieces fuel' start c))
      (prosePlaces (inlinePieces fuel start (c ++ s))) := by
  induction fuel with
  | zero =>
    intro fuel' start c s hc hcs _
    have hnone : findInline (c ++ s) = none := by
      rw [List.eq_nil_of_length_eq_zero (Nat.le_zero.1 hcs)]
      rfl
    rw [inlinePieces_of_none hnone hcs, inlinePieces_of_none (findInline_eq_none_of_append hnone) hc]
    exact readsOn_proseSegment start c s
  | succ fuel ih =>
    intro fuel' start c s hc hcs hspans
    cases hfind : findInline (c ++ s) with
    | none =>
      rw [inlinePieces_of_none hfind hcs, inlinePieces_of_none (findInline_eq_none_of_append hfind) hc]
      exact readsOn_proseSegment start c s
    | some p =>
      obtain ⟨b, i, a⟩ := p
      have hlen := length_of_findInline hfind
      rw [inlineSpans, hfind] at hspans
      have hfirst := hspans _ List.mem_cons_self
      rw [Straddles, not_and_or, not_lt, not_lt] at hfirst
      rw [prosePlaces_inlinePieces hfind]
      rcases hfirst with hbefore | hbehind
      · -- the cut comes before the first inline code
        have hcb : c <+: b := by
          refine List.prefix_of_prefix_length_le (List.prefix_append c s) ?_ (by omega)
          rw [findInline_some hfind, List.append_assoc]
          exact List.prefix_append ..
        obtain ⟨s', rfl⟩ := hcb
        have hnone : findInline c = none := by
          cases hfc : findInline c with
          | none => rfl
          | some p =>
            obtain ⟨b', i', a'⟩ := p
            have hlen' := length_of_findInline hfc
            rw [findInline_append hfc] at hfind
            cases hfind
            rw [List.length_append] at hlen'
            omega
        rw [inlinePieces_of_none hnone hc]
        refine (readsOn_proseSegment start c s').append_right fun x hx => ?_
        have := le_of_mem_inlinePieces hx
        rw [List.length_append] at this
        omega
      · -- the first inline code ends before the cut
        obtain ⟨a', hfc, rfl⟩ := findInline_of_append hfind (by omega)
        have hlen' := length_of_findInline hfc
        cases fuel' with
        | zero => omega
        | succ fuel' =>
          rw [prosePlaces_inlinePieces hfc]
          have hcut : start + c.length = start + b.length + i.length + 2 + a'.length := by omega
          rw [hcut]
          rw [List.length_append] at hcs hlen
          refine (ih (by omega) (by rw [List.length_append] at hlen ⊢; omega) fun span hspan => ?_).append_left _
          rw [← hcut]
          exact hspans span (List.mem_cons_of_mem _ hspan)

/-! ### A text -/

/-- A chunk has pieces unless it is blank, so the last branch is never taken. -/
theorem splitProseWithInline_eq (start : ℕ) (chunk : Text) :
    splitProseWithInline start chunk = inlinePieces chunk.length start chunk := by
  have hblank : strip chunk = [] → findInline chunk = none := fun hstrip => by
    cases hfind : findInline chunk with
    | none => rfl
    | some p =>
      obtain ⟨b, i, a⟩ := p
      have hspace := strip_eq_nil_iff.1 hstrip '\x60' (by rw [findInline_some hfind]; simp)
      exact absurd hspace (by decide)
  rw [splitProseWithInline]
  split_ifs with hstrip
  · rw [inlinePieces_of_none (hblank hstrip) le_rfl, proseSegment, if_pos hstrip]
  · dsimp only
    split_ifs with hout
    · cases hfind : findInline chunk with
      | none =>
        rw [inlinePieces_of_none hfind le_rfl, proseSegment, if_neg hstrip]
      | some p =>
        have hlen := length_of_findInline hfind
        obtain ⟨n, hn⟩ := Nat.exists_eq_succ_of_ne_zero (show chunk.length ≠ 0 by omega)
        rw [hn, inlinePieces, hfind] at hout
        exact absurd (List.append_eq_nil_iff.1 hout).2 (List.cons_ne_nil _ _)
    · rfl

theorem findFence_eq_none_of_append {t s : Text} (h : findFence (t ++ s) = none) :
    findFence t = none := by
  cases ht : findFence t with
  | none => rfl
  | some p =>
    rw [findFence_append ht] at h
    cases h

theorem fencePieces_of_none {fuel start : ℕ} {t : Text} (h : findFence t = none)
    (hfuel : t.length ≤ fuel) : fencePieces fuel start t = inlinePieces t.length start t := by
  cases fuel with
  | zero =>
    rw [List.eq_nil_of_length_eq_zero (Nat.le_zero.1 hfuel)]
    rfl
  | succ fuel => rw [fencePieces, h, ← splitProseWithInline_eq]

/-- The places of a text whose first fence is known. -/
theorem prosePlaces_fencePieces {fuel start : ℕ} {t b i a : Text}
    (h : findFence t = some (b, i, a)) : prosePlaces (fencePieces (fuel + 1) start t) =
      prosePlaces (inlinePieces b.length start b) ++
        prosePlaces (fencePieces fuel (start + b.length + i.length + 6) a) := by
  rw [fencePieces, h, prosePlaces_append, prosePlaces_cons_of_code (by rw [fencedSegment]; simp),
    splitProseWithInline_eq]

theorem le_of_mem_fencePieces {fuel : ℕ} : ∀ {start : ℕ} {t : Text} {x : ℕ × Char},
    x ∈ prosePlaces (fencePieces fuel start t) → start ≤ x.1 := by
  induction fuel with
  | zero =>
    intro start t x h
    cases h
  | succ fuel ih =>
    intro start t x h
    cases hfind : findFence t with
    | none =>
      rw [fencePieces, hfind, splitProseWithInline_eq] at h
      exact le_of_mem_inlinePieces h
    | some p =>
      obtain ⟨b, i, a⟩ := p
      rw [prosePlaces_fencePieces hfind, List.mem_append] at h
      rcases h with h | h
      · exact le_of_mem_inlinePieces h
      · have := ih h
        omega

/-- TEXT: cut outside of its code, a text reads on. -/
theorem readsOn_fencePieces {fuel : ℕ} : ∀ {fuel' start : ℕ} {c s : Text}, c.length ≤ fuel' →
    (c ++ s).length ≤ fuel →
    (∀ span ∈ fenceSpans fuel start (c ++ s), ¬Straddles (start + c.length) span) →
    ReadsOn (start + c.length) (prosePlaces (fencePieces fuel' start c))
      (prosePlaces (fencePieces fuel start (c ++ s))) := by
  induction fuel with
  | zero =>
    intro fuel' start c s hc hcs _
    have hnil := List.eq_nil_of_length_eq_zero (Nat.le_zero.1 hcs)
    have hnone : findFence (c ++ s) = none := by rw [hnil]; rfl
    rw [fencePieces_of_none hnone hcs, fencePieces_of_none (findFence_eq_none_of_append hnone) hc]
    refine readsOn_inlinePieces le_rfl le_rfl fun span hspan => ?_
    rw [hnil] at hspan
    cases hspan
  | succ fuel ih =>
    intro fuel' start c s hc hcs hspans
    cases hfind : findFence (c ++ s) with
    | none =>
      rw [fenceSpans, hfind] at hspans
      rw [fencePieces_of_none hfind hcs, fencePieces_of_none (findFence_eq_none_of_append hfind) hc]
      exact readsOn_inlinePieces le_rfl le_rfl hspans
    | some p =>
      obtain ⟨b, i, a⟩ := p
      have hlen := length_of_findFence hfind
      rw [fenceSpans, hfind] at hspans
      have hfirst := hspans _ (List.mem_append_right _ List.mem_cons_self)
      rw [Straddles, not_and_or, not_lt, not_lt] at hfirst
      rw [prosePlaces_fencePieces hfind]
      rcases hfirst with hbefore | hbehind
      · -- the cut comes before the first fence
        have hcb : c <+: b := by
          obtain ⟨r, hr, -⟩ := findFence_eq_some_iff.1 hfind
          refine List.prefix_of_prefix_length_le (List.prefix_append c s) ?_ (by omega)
          rw [cutFence_some hr, List.append_assoc]
          exact List.prefix_append ..
        obtain ⟨s', rfl⟩ := hcb
        have hnone : findFence c = none := by
          cases hfc : findFence c with
          | none => rfl
          | some p =>
            obtain ⟨b', i', a'⟩ := p
            have hlen' := length_of_findFence hfc
            rw [findFence_append hfc] at hfind
            cases hfind
            rw [List.length_append] at hlen'
            omega
        rw [fencePieces_of_none hnone hc]
        refine (readsOn_inlinePieces le_rfl le_rfl fun span hspan =>
          hspans span (List.mem_append_left _ hspan)).append_right fun x hx => ?_
        have := le_of_mem_fencePieces hx
        rw [List.length_append] at this
        omega
      · -- the first fence ends before the cut
        obtain ⟨a', hfc, rfl⟩ := findFence_of_append hfind (by omega)
        have hlen' := length_of_findFence hfc
        cases fuel' with
        | zero => omega
        | succ fuel' =>
          rw [prosePlaces_fencePieces hfc]
          have hcut : start + c.length = start + b.length + i.length + 6 + a'.length := by omega
          rw [hcut]
          refine (ih (by omega) (by omega) fun span hspan => ?_).append_left _
          rw [← hcut]
          exact hspans span (List.mem_append_right _ (List.mem_cons_of_mem _ hspan))

theorem splitContentSegments_eq (t : Text) :
    splitContentSegments t = fencePieces t.length 0 t := by
  rw [splitContentSegments]
  split_ifs with hstrip
  · have hnone : findFence t = none := by
      cases hfind : findFence t with
      | none => rfl
      | some p =>
        obtain ⟨r, hr, -⟩ := findFence_eq_some_iff.1 hfind
        have hspace := strip_eq_nil_iff.1 hstrip '\x60' (by
          rw [cutFence_some hr, List.append_assoc, fence]
          simp)
        exact absurd hspace (by decide)
    rw [fencePieces_of_none hnone le_rfl, ← splitProseWithInline_eq, splitProseWithInline,
      if_pos hstrip]
  · rfl

/-- READS ON: what a part of a text shows as prose is the prose of the text up to the cut, unless code
    of the text is begun and not ended there. -/
theorem readsOn_of_not_cutsCode {c t : Text} (h : c <+: t) (hcut : ¬CutsCode t c.length) :
    ReadsOn c.length (prosePlaces (splitContentSegments c)) (prosePlaces (splitContentSegments t)) := by
  obtain ⟨s, rfl⟩ := h
  rw [splitContentSegments_eq, splitContentSegments_eq]
  have hreads := @readsOn_fencePieces (c ++ s).length c.length 0 c s le_rfl le_rfl
  rw [Nat.zero_add] at hreads
  exact hreads fun span hspan hstraddles => hcut ⟨span, hspan, hstraddles⟩

end AgentLangraph.Guard
