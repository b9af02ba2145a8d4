import Mathlib.Data.List.DropRight

/-! A text that is cut into pieces, whose pieces are trimmed and joined again. What comes out is the text
    itself, trimmed, exactly when the separator stands at every cut between two pieces of text.

        ···aaa··│··bbb·│···│ccc··   ──▶   aaa SEP bbb SEP ccc -/

namespace Rejoin

variable {α : Type*} (p : α → Bool)

/-- Without what stands in front and at the end. -/
def trim (t : List α) : List α := (t.dropWhile p).rdropWhile p

def Blank (t : List α) : Prop := ∀ a ∈ t, p a

instance : DecidablePred (Blank p) := fun t => inferInstanceAs (Decidable (∀ a ∈ t, p a))

/-- What is trimmed away around the place where two texts meet. -/
def gap (x y : List α) : List α := x.rtakeWhile p ++ y.takeWhile p

/-- The trimmed pieces, joined. -/
def rejoin (sep : List α) (pieces : List (List α)) : List α :=
  sep.intercalate ((pieces.map (trim p)).filter fun t => !t.isEmpty)

/-- The separator stands at every cut between two pieces of text. -/
def CutAt (sep : List α) (pieces : List (List α)) : Prop :=
  ∀ before after, pieces = before ++ after → ¬ Blank p before.flatten → ¬ Blank p after.flatten →
    gap p before.flatten after.flatten = sep

/-! ### The core of a text -/

/-- A text between what is trimmed away. -/
structure Core (t a m b : List α) : Prop where
  eq : t = a ++ m ++ b
  front : Blank p a
  back : Blank p b
  head : ∃ c ∈ m.head?, p c = false
  last : ∃ c ∈ m.getLast?, p c = false

variable {p}

theorem Core.reverse {t a m b : List α} (h : Core p t a m b) : Core p t.reverse b.reverse m.reverse a.reverse := by
  refine ⟨?_, ?_, ?_, ?_, ?_⟩
  · rw [h.eq, List.reverse_append, List.reverse_append, List.append_assoc]
  · exact fun c hc => h.back c (List.mem_reverse.1 hc)
  · exact fun c hc => h.front c (List.mem_reverse.1 hc)
  · rw [List.head?_reverse]
    exact h.last
  · rw [List.getLast?_reverse]
    exact h.head

theorem Core.ne_nil {t a m b : List α} (h : Core p t a m b) : m ≠ [] := by
  rintro rfl
  obtain ⟨c, hc, -⟩ := h.head
  cases hc

theorem Core.takeWhile {t a m b : List α} (h : Core p t a m b) : t.takeWhile p = a := by
  obtain ⟨c, hc, hfalse⟩ := h.head
  obtain ⟨m', rfl⟩ := List.head?_eq_some_iff.1 hc
  rw [h.eq, List.append_assoc, List.takeWhile_append_of_pos h.front, List.cons_append,
    List.takeWhile_cons_of_neg (by simp [hfalse]), List.append_nil]

theorem Core.dropWhile {t a m b : List α} (h : Core p t a m b) : t.dropWhile p = m ++ b := by
  have hsplit := List.takeWhile_append_dropWhile (p := p) (l := t)
  rw [h.takeWhile] at hsplit
  refine List.append_cancel_left (?_ : a ++ t.dropWhile p = a ++ (m ++ b))
  rw [hsplit, h.eq, List.append_assoc]

theorem Core.rtakeWhile {t a m b : List α} (h : Core p t a m b) : t.rtakeWhile p = b := by
  rw [List.rtakeWhile, h.reverse.takeWhile, List.reverse_reverse]

theorem Core.trim {t a m b : List α} (h : Core p t a m b) : trim p t = m := by
  have htail : Core p (m ++ b) [] m b := ⟨rfl, by simp [Blank], h.back, h.head, h.last⟩
  rw [Rejoin.trim, h.dropWhile, List.rdropWhile, htail.reverse.dropWhile, List.reverse_nil, List.append_nil,
    List.reverse_reverse]

theorem core_of_not_blank {t : List α} (h : ¬ Blank p t) : Core p t (t.takeWhile p) (trim p t) (t.rtakeWhile p) := by
  have hdrop : t.dropWhile p ≠ [] := fun hnil => h (List.dropWhile_eq_nil_iff.1 hnil)
  obtain ⟨c, rest, hcons⟩ := List.exists_cons_of_ne_nil hdrop
  have hc : p c = false := by
    have hhead := List.head?_dropWhile_not p t
    rw [hcons] at hhead
    exact hhead
  have htrim : trim p t ≠ [] := by
    intro hnil
    have hall := List.rdropWhile_eq_nil_iff.1 hnil c (by rw [hcons]; exact List.mem_cons_self)
    rw [hc] at hall
    cases hall
  have hcore : Core p t (t.takeWhile p) (trim p t) ((t.dropWhile p).rtakeWhile p) := by
    refine ⟨?_, fun a ha => List.mem_takeWhile_imp ha, fun a ha => List.mem_rtakeWhile_imp ha, ?_, ?_⟩
    · rw [List.append_assoc, trim, List.rdropWhile_append_rtakeWhile, List.takeWhile_append_dropWhile]
    · obtain ⟨d, rest', hcons'⟩ := List.exists_cons_of_ne_nil htrim
      obtain ⟨s, hs⟩ : trim p t <+: t.dropWhile p := List.rdropWhile_prefix p _
      rw [hcons', hcons, List.cons_append, List.cons.injEq] at hs
      exact ⟨d, by rw [hcons']; rfl, hs.1 ▸ hc⟩
    · exact ⟨_, List.getLast?_eq_some_getLast htrim,
        Bool.eq_false_iff.2 (List.rdropWhile_last_not p (t.dropWhile p) htrim)⟩
  have hback := hcore.rtakeWhile
  rwa [← hback] at hcore

theorem core_trim {t : List α} (h : ¬ Blank p t) : Core p (trim p t) [] (trim p t) [] :=
  ⟨by rw [List.nil_append, List.append_nil], by simp [Blank], by simp [Blank], (core_of_not_blank h).head,
    (core_of_not_blank h).last⟩

theorem trim_eq_nil_iff {t : List α} : trim p t = [] ↔ Blank p t := by
  constructor
  · intro hnil
    by_contra h
    exact (core_of_not_blank h).ne_nil hnil
  · intro h
    rw [trim, List.dropWhile_eq_nil_iff.2 h]
    rfl

theorem blank_append {x y : List α} : Blank p (x ++ y) ↔ Blank p x ∧ Blank p y := List.forall_mem_append

theorem Core.append {x y a₁ m₁ b₁ a₂ m₂ b₂ : List α} (hx : Core p x a₁ m₁ b₁) (hy : Core p y a₂ m₂ b₂) :
    Core p (x ++ y) a₁ (m₁ ++ (b₁ ++ a₂) ++ m₂) b₂ := by
  refine ⟨?_, hx.front, hy.back, ?_, ?_⟩
  · rw [hx.eq, hy.eq]
    simp only [List.append_assoc]
  · obtain ⟨c, hc, hfalse⟩ := hx.head
    obtain ⟨m', rfl⟩ := List.head?_eq_some_iff.1 hc
    exact ⟨c, rfl, hfalse⟩
  · obtain ⟨c, hc, hfalse⟩ := hy.last
    obtain ⟨m', rfl⟩ := List.getLast?_eq_some_iff.1 hc
    exact ⟨c, by rw [← List.append_assoc, List.getLast?_concat]; rfl, hfalse⟩

/-- Between two texts stays what is trimmed away around their meeting. -/
theorem trim_append {x y : List α} (hx : ¬ Blank p x) (hy : ¬ Blank p y) :
    trim p (x ++ y) = trim p x ++ gap p x y ++ trim p y :=
  ((core_of_not_blank hx).append (core_of_not_blank hy)).trim

theorem Core.blank_append {x y a m b : List α} (hx : Blank p x) (hy : Core p y a m b) : Core p (x ++ y) (x ++ a) m b :=
  ⟨by rw [hy.eq]; simp only [List.append_assoc], Rejoin.blank_append.2 ⟨hx, hy.front⟩, hy.back, hy.head, hy.last⟩

theorem Core.append_blank {x y a m b : List α} (hx : Core p x a m b) (hy : Blank p y) : Core p (x ++ y) a m (b ++ y) :=
  ⟨by rw [hx.eq]; simp only [List.append_assoc], hx.front, Rejoin.blank_append.2 ⟨hx.back, hy⟩, hx.head, hx.last⟩

theorem trim_blank_append {x : List α} (hx : Blank p x) (y : List α) : trim p (x ++ y) = trim p y := by
  by_cases hy : Blank p y
  · rw [trim_eq_nil_iff.2 hy, trim_eq_nil_iff.2 (blank_append.2 ⟨hx, hy⟩)]
  · exact ((core_of_not_blank hy).blank_append hx).trim

theorem trim_append_blank {y : List α} (hy : Blank p y) (x : List α) : trim p (x ++ y) = trim p x := by
  by_cases hx : Blank p x
  · rw [trim_eq_nil_iff.2 hx, trim_eq_nil_iff.2 (blank_append.2 ⟨hx, hy⟩)]
  · exact ((core_of_not_blank hx).append_blank hy).trim

/-- What is in front of a text does not change the gap behind it. -/
theorem gap_append {x : List α} (hx : ¬ Blank p x) (w y : List α) : gap p (w ++ x) y = gap p x y := by
  have hcore : (w ++ x).rtakeWhile p = x.rtakeWhile p := by
    by_cases hw : Blank p w
    · exact ((core_of_not_blank hx).blank_append hw).rtakeWhile
    · exact ((core_of_not_blank hw).append (core_of_not_blank hx)).rtakeWhile
  rw [gap, gap, hcore]

/-- The cut may as well be made at the other end of a blank piece. -/
theorem gap_blank {x y w : List α} (hx : Blank p x) (hw : ¬ Blank p w) (hy : ¬ Blank p y) :
    gap p (w ++ x) y = gap p w (x ++ y) := by
  rw [gap, gap, ((core_of_not_blank hw).append_blank hx).rtakeWhile, ((core_of_not_blank hy).blank_append hx).takeWhile,
    List.append_assoc]

/-! ### Pieces -/

theorem blank_flatten {pieces : List (List α)} : Blank p pieces.flatten ↔ ∀ w ∈ pieces, Blank p w := by
  simp only [Blank, List.mem_flatten]
  exact ⟨fun h w hw a ha => h a ⟨w, hw, ha⟩, fun h a ⟨w, hw, ha⟩ => h w hw a ha⟩

theorem rejoin_cons_blank {sep w : List α} (hw : Blank p w) (pieces : List (List α)) :
    rejoin p sep (w :: pieces) = rejoin p sep pieces := by
  rw [rejoin, List.map_cons, trim_eq_nil_iff.2 hw]
  rfl

theorem kept_eq_nil_iff {pieces : List (List α)} :
    ((pieces.map (trim p)).filter fun t => !t.isEmpty) = [] ↔ Blank p pieces.flatten := by
  simp only [List.filter_eq_nil_iff, List.forall_mem_map, Bool.not_eq_true, Bool.not_eq_false',
    List.isEmpty_iff, trim_eq_nil_iff, blank_flatten]

/-- A piece of text is set off from the next one by the separator. -/
theorem rejoin_cons {sep w : List α} (hw : ¬ Blank p w) (pieces : List (List α)) :
    rejoin p sep (w :: pieces) =
      trim p w ++ if Blank p pieces.flatten then [] else sep ++ rejoin p sep pieces := by
  have hkeep : (!(trim p w).isEmpty) = true := by
    rw [Bool.not_eq_true', List.isEmpty_eq_false_iff, ne_eq, trim_eq_nil_iff]
    exact hw
  rw [rejoin, List.map_cons, List.filter_cons, if_pos hkeep]
  split_ifs with hblank
  · rw [kept_eq_nil_iff.2 hblank, List.intercalate_singleton, List.append_nil]
  · rw [List.intercalate_cons_of_ne_nil (mt kept_eq_nil_iff.1 hblank), List.append_assoc]
    rfl

/-- The joined pieces begin and end with text. -/
theorem core_rejoin {sep : List α} : ∀ {pieces : List (List α)}, ¬ Blank p pieces.flatten →
    Core p (rejoin p sep pieces) [] (rejoin p sep pieces) []
  | [], h => absurd (by simp [Blank]) h
  | w :: pieces, h => by
      rw [List.flatten_cons, blank_append, not_and_or] at h
      by_cases hw : Blank p w
      · rw [rejoin_cons_blank hw]
        exact core_rejoin (h.resolve_left (not_not.2 hw))
      · rw [rejoin_cons hw]
        split_ifs with hblank
        · rw [List.append_nil]
          exact core_trim hw
        · have hrest : Core p (rejoin p sep pieces) [] (rejoin p sep pieces) [] := core_rejoin hblank
          obtain ⟨c, hc, hhead⟩ := (core_trim hw).head
          obtain ⟨m, hm⟩ := List.head?_eq_some_iff.1 hc
          obtain ⟨e, he, hlast⟩ := hrest.last
          obtain ⟨m', hm'⟩ := List.getLast?_eq_some_iff.1 he
          refine ⟨by rw [List.nil_append, List.append_nil], by simp [Blank], by simp [Blank], ?_, ?_⟩
          · exact ⟨c, by rw [hm]; rfl, hhead⟩
          · exact ⟨e, by rw [hm', ← List.append_assoc, ← List.append_assoc, List.getLast?_concat]; rfl, hlast⟩

theorem cutAt_cons {sep w : List α} {pieces : List (List α)} :
    CutAt p sep (w :: pieces) ↔ ∀ before after, pieces = before ++ after → ¬ Blank p (w ++ before.flatten) →
      ¬ Blank p after.flatten → gap p (w ++ before.flatten) after.flatten = sep := by
  constructor
  · intro h before after heq
    have hcut := h (w :: before) after (by rw [heq, List.cons_append])
    rwa [List.flatten_cons] at hcut
  · intro h before after heq hbefore hafter
    cases before with
    | nil => exact absurd (by simp [Blank]) hbefore
    | cons b before =>
      rw [List.cons_append, List.cons.injEq] at heq
      rw [List.flatten_cons, ← heq.1] at hbefore ⊢
      exact h before after heq.2 hbefore hafter

theorem cutAt_cons_blank {sep w : List α} (hw : Blank p w) (pieces : List (List α)) :
    CutAt p sep pieces ↔ CutAt p sep (w :: pieces) := by
  rw [cutAt_cons]
  refine forall₂_congr fun before after => forall_congr' fun _ => ?_
  rw [blank_append, and_iff_right hw]
  refine forall_congr' fun hbefore => ?_
  rw [gap_append hbefore]

/-- The cuts behind the first piece, and those further on. -/
theorem cutAt_cons_text {sep w : List α} (hw : ¬ Blank p w) {pieces : List (List α)} (h : ¬ Blank p pieces.flatten) :
    CutAt p sep (w :: pieces) ↔ gap p w pieces.flatten = sep ∧ CutAt p sep pieces := by
  have hnot : ∀ before : List (List α), ¬ Blank p (w ++ before.flatten) := fun before hblank =>
    hw (blank_append.1 hblank).1
  rw [cutAt_cons]
  constructor
  · intro hall
    refine ⟨?_, fun before after heq hbefore hafter => ?_⟩
    · have hfirst := hall [] pieces rfl (hnot []) h
      rwa [List.flatten_nil, List.append_nil] at hfirst
    · rw [← gap_append hbefore w]
      exact hall before after heq (hnot before) hafter
  · rintro ⟨hfirst, hrest⟩ before after heq - hafter
    by_cases hbefore : Blank p before.flatten
    · rw [gap_blank hbefore hw hafter, ← List.flatten_append, ← heq]
      exact hfirst
    · rw [gap_append hbefore]
      exact hrest before after heq hbefore hafter

/-- REJOIN: the trimmed pieces, joined, are the text as trimmed exactly when the separator stands at every cut
    between two pieces of text. -/
theorem rejoin_eq_trim_iff {sep : List α} (hsep : Blank p sep) : ∀ pieces : List (List α),
    rejoin p sep pieces = trim p pieces.flatten ↔ CutAt p sep pieces
  | [] => by
      refine iff_of_true rfl fun before after h hbefore _ => ?_
      rw [List.nil_eq, List.append_eq_nil_iff] at h
      rw [h.1] at hbefore
      exact absurd (by simp [Blank]) hbefore
  | w :: pieces => by
      have ih := rejoin_eq_trim_iff hsep pieces
      by_cases hw : Blank p w
      · rw [rejoin_cons_blank hw, List.flatten_cons, trim_blank_append hw, ih]
        exact cutAt_cons_blank hw pieces
      rw [rejoin_cons hw, List.flatten_cons]
      split_ifs with hblank
      · rw [List.append_nil, trim_append_blank hblank]
        refine iff_of_true rfl (cutAt_cons.2 fun before after heq _ hafter => ?_)
        rw [heq, List.flatten_append, blank_append] at hblank
        exact absurd hblank.2 hafter
      · rw [trim_append hw hblank, List.append_assoc, List.append_cancel_left_eq, cutAt_cons_text hw hblank, ← ih]
        have hgap : Blank p (gap p w pieces.flatten) := blank_append.2
          ⟨fun a ha => List.mem_rtakeWhile_imp ha, fun a ha => List.mem_takeWhile_imp ha⟩
        have hjoined : Core p (rejoin p sep pieces) [] (rejoin p sep pieces) [] := core_rejoin hblank
        have hleft := hjoined.blank_append hsep
        have hright := (core_trim hblank).blank_append hgap
        constructor
        · intro heq
          rw [heq] at hleft
          have hfront := hright.takeWhile.symm.trans hleft.takeWhile
          rw [List.append_nil, List.append_nil] at hfront
          exact ⟨hfront, hleft.trim.symm.trans hright.trim⟩
        · rintro ⟨hfront, hrest⟩
          rw [hfront, hrest]

end Rejoin
