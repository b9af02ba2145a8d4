import AgentLangraph.Artifact.Project
import AgentLangraph.Lib.Loop
import AgentLangraph.Lib.Occurrences
import AgentLangraph.Lib.Symbols

/-! The prose while the body of a novel grows. A written piece is put behind the chapter in progress; an appended
    one first loses at its head what the body has already:

        body   ··· tail
        piece      tail │ （第1章完） │ tail │ prose
                   └──── removed ─────┴──────┘ -/

namespace AgentLangraph.Artifact
open PyText
open Symbols (solid)

variable (digit : Char → Option ℕ)

/-! ### A written piece -/

theorem solid_append (t u : Text) : solid (t ++ u) = solid t ++ solid u := Symbols.solid_append t u

theorem solid_strip (t : Text) : solid (strip t) = solid t := Symbols.solid_strip t

theorem solid_rstrip (t : Text) : solid (rstrip t) = solid t := Symbols.solid_rdropWhile t

theorem solid_blank {t : Text} (h : strip t = []) : solid t = [] := by
  rw [← solid_strip, h]
  rfl

theorem solid_blankLine : solid ("\n\n".toList : Text) = [] := by decide

/-- Two texts put together over a blank line, where neither is empty. -/
theorem solid_joined (t u : Text) :
    solid (if t ≠ [] ∧ u ≠ [] then t ++ "\n\n".toList ++ u else if u ≠ [] then u else t) = solid t ++ solid u := by
  by_cases hu : u = []
  · rw [if_neg (by simp [hu]), if_neg (by simp [hu]), hu]
    exact (List.append_nil _).symm
  · by_cases ht : t = []
    · rw [if_neg (by simp [ht]), if_pos hu, ht]
      rfl
    · rw [if_pos ⟨ht, hu⟩, solid_append, solid_append, solid_blankLine, List.append_nil]

/-- A write keeps the text of the body and of the piece. -/
theorem solid_mergeBodyWriteContent (full new : Text) :
    solid (mergeBodyWriteContent digit full new) = solid full ++ solid new := by
  rw [mergeBodyWriteContent]
  by_cases hblank : strip full = []
  · rw [if_pos hblank, solid_blank hblank, solid_strip]
    rfl
  · rw [if_neg hblank]
    dsimp only
    have hcurrent := solid_joined (strip (full.drop (lastSealedChapterEnd digit full))) (strip new)
    rw [solid_strip, solid_strip] at hcurrent
    have hwhole : solid full = solid (full.take (lastSealedChapterEnd digit full)) ++
        solid (full.drop (lastSealedChapterEnd digit full)) := by
      rw [← solid_append, List.take_append_drop]
    by_cases hhead : rstrip (full.take (lastSealedChapterEnd digit full)) = []
    · have hnone : solid (full.take (lastSealedChapterEnd digit full)) = [] := by
        rw [← solid_rstrip, hhead]
        rfl
      rw [if_neg (not_not.2 hhead), hcurrent, hwhole, hnone]
      rfl
    · rw [if_pos hhead, solid_strip, solid_append, solid_append, solid_blankLine, List.append_nil, solid_rstrip,
        hcurrent, hwhole, List.append_assoc]

/-! ### What is removed from an appended piece -/

/-- What is removed: whitespace, and pieces that occur in the body. -/
def Known (existing : Text) (removed : List Text) : Prop :=
  ∀ p ∈ removed, (∀ c ∈ p, isSpace c = true) ∨ p <:+: existing

/-- What is left of a text when such pieces are removed at its head. -/
def Sheds (existing content rest : Text) : Prop :=
  ∃ removed : List Text, content = removed.flatten ++ rest ∧ Known existing removed

variable {existing content rest rest' : Text}

theorem Sheds.refl (existing content : Text) : Sheds existing content content :=
  ⟨[], rfl, by simp [Known]⟩

theorem Sheds.trans (h : Sheds existing content rest) (h' : Sheds existing rest rest') :
    Sheds existing content rest' := by
  obtain ⟨removed, rfl, hknown⟩ := h
  obtain ⟨removed', rfl, hknown'⟩ := h'
  refine ⟨removed ++ removed', ?_, ?_⟩
  · rw [List.flatten_append, List.append_assoc]
  · intro p hp
    rcases List.mem_append.1 hp with hp | hp
    · exact hknown p hp
    · exact hknown' p hp

theorem sheds_piece {p : Text} (h : (∀ c ∈ p, isSpace c = true) ∨ p <:+: existing) :
    Sheds existing (p ++ rest) rest := by
  refine ⟨[p], by simp, ?_⟩
  intro q hq
  rw [List.mem_singleton.1 hq]
  exact h

theorem sheds_lstrip (existing content : Text) : Sheds existing content (lstrip content) := by
  have h := @sheds_piece existing (lstrip content) (content.takeWhile isSpace)
    (.inl fun c hc => List.mem_takeWhile_imp hc)
  rwa [lstrip, List.takeWhile_append_dropWhile] at h

/-- A piece of the body at the head, and the whitespace behind it. -/
theorem sheds_drop {n : ℕ} (h : content.take n <:+: existing) : Sheds existing content (lstrip (content.drop n)) := by
  have hpiece := @sheds_piece existing (content.drop n) (content.take n) (.inr h)
  rw [List.take_append_drop] at hpiece
  exact hpiece.trans (sheds_lstrip existing _)

/-- The overlap is the end of the body. -/
theorem sheds_overlap {size : ℕ} (h : overlap existing content = some size) :
    Sheds existing content (lstrip (content.drop size)) := by
  rw [overlap] at h
  have hsame := List.find?_some h
  refine sheds_drop ?_
  rw [← of_decide_eq_true hsame]
  exact (List.drop_suffix _ _).isInfix

/-! ### The loop over repeated footers and tails -/

/-- One round of the loop: it goes on with what is left, or ends. -/
def dropRound (closed tail content : Text) : Text ⊕ Text :=
  let stripped := lstrip content
  if stripped = [] then .inr content
  else
    match footerAt digit stripped with
    | some n =>
      if contains closed (stripped.take n) then .inl (lstrip (stripped.drop n))
      else if 120 ≤ tail.length ∧ startswith stripped tail then .inl (lstrip (stripped.drop tail.length))
      else .inr content
    | none =>
      if 120 ≤ tail.length ∧ startswith stripped tail then .inl (lstrip (stripped.drop tail.length))
      else .inr content

variable {digit} {closed tail : Text}

theorem footerAt_pos {t : Text} {n : ℕ} (h : footerAt digit t = some n) : 0 < n := by
  simp only [footerAt] at h
  split_ifs at h
  cases h
  omega

/-- A round that goes on drops a footer that is closed off already, or the tail. -/
theorem dropRound_inl (h : dropRound digit closed tail content = .inl rest) :
    ∃ n, 0 < n ∧ lstrip content ≠ [] ∧ rest = lstrip ((lstrip content).drop n) ∧
      ((lstrip content).take n <:+: closed ∨ (lstrip content).take n = tail) := by
  have hrepeat : ∀ {r : Text}, (if 120 ≤ tail.length ∧ startswith (lstrip content) tail then
      (.inl (lstrip ((lstrip content).drop tail.length)) : Text ⊕ Text) else .inr content) = .inl r →
      0 < tail.length ∧ r = lstrip ((lstrip content).drop tail.length) ∧
        (lstrip content).take tail.length = tail := by
    intro r hr
    split_ifs at hr with htail
    cases hr
    obtain ⟨hlen, hstarts⟩ := htail
    have hprefix := List.isPrefixOf_iff_prefix.1 hstarts
    exact ⟨by omega, rfl, (List.prefix_iff_eq_take.1 hprefix).symm⟩
  rw [dropRound] at h
  by_cases hnil : lstrip content = []
  · rw [if_pos hnil] at h
    cases h
  · rw [if_neg hnil] at h
    cases hfooter : footerAt digit (lstrip content) with
    | none =>
      rw [hfooter] at h
      obtain ⟨hpos, hrest, htake⟩ := hrepeat h
      exact ⟨tail.length, hpos, hnil, hrest, .inr htake⟩
    | some n =>
      rw [hfooter] at h
      dsimp only at h
      by_cases hclosed : contains closed ((lstrip content).take n)
      · rw [if_pos hclosed] at h
        cases h
        exact ⟨n, footerAt_pos hfooter, hnil, rfl, .inl (contains_iff.1 hclosed)⟩
      · rw [if_neg hclosed] at h
        obtain ⟨hpos, hrest, htake⟩ := hrepeat h
        exact ⟨tail.length, hpos, hnil, hrest, .inr htake⟩

/-- A round that goes on leaves less. -/
theorem length_dropRound (h : dropRound digit closed tail content = .inl rest) : rest.length < content.length := by
  obtain ⟨n, hpos, hne, rfl, -⟩ := dropRound_inl h
  have hdrop : (lstrip ((lstrip content).drop n)).length ≤ ((lstrip content).drop n).length :=
    (List.dropWhile_sublist _).length_le
  have hstrip : (lstrip content).length ≤ content.length := (List.dropWhile_sublist _).length_le
  have hlen := List.length_pos_iff.2 hne
  rw [List.length_drop] at hdrop
  omega

theorem sheds_dropRound (hclosed : closed <:+: existing) (htail : tail <:+: existing)
    (h : dropRound digit closed tail content = .inl rest) : Sheds existing content rest := by
  obtain ⟨n, -, -, rfl, hpiece⟩ := dropRound_inl h
  refine (sheds_lstrip existing content).trans (sheds_drop ?_)
  rcases hpiece with hfooter | htake
  · exact hfooter.trans hclosed
  · rw [htake]
    exact htail

theorem dropRepeats_succ (fuel : ℕ) (content : Text) : dropRepeats digit closed tail (fuel + 1) content =
    (dropRound digit closed tail content).elim (dropRepeats digit closed tail fuel) id := by
  rw [dropRepeats, dropRound]
  by_cases hnil : lstrip content = []
  · rw [if_pos hnil, if_pos hnil]
    rfl
  · rw [if_neg hnil, if_neg hnil]
    cases footerAt digit (lstrip content) with
    | none =>
      dsimp only
      split_ifs <;> rfl
    | some n =>
      dsimp only
      split_ifs <;> rfl

/-- A round that ends leaves the content alone. -/
theorem dropRound_inr (h : dropRound digit closed tail content = .inr rest) : rest = content := by
  rw [dropRound] at h
  by_cases hnil : lstrip content = []
  · rw [if_pos hnil] at h
    cases h
    rfl
  · rw [if_neg hnil] at h
    cases hfooter : footerAt digit (lstrip content) with
    | none =>
      rw [hfooter] at h
      dsimp only at h
      split_ifs at h
      cases h
      rfl
    | some n =>
      rw [hfooter] at h
      dsimp only at h
      split_ifs at h
      cases h
      rfl

theorem dropRound_nil : dropRound digit closed tail [] = .inr [] := rfl

/-- The loop ends, with what the bounded one gives. -/
theorem dropRepeats_returns : ∀ {fuel : ℕ} {content : Text}, content.length ≤ fuel →
    Loop.Returns (dropRound digit closed tail) content (dropRepeats digit closed tail fuel content) := by
  intro fuel
  induction fuel with
  | zero =>
    intro content hlen
    rw [List.length_eq_zero_iff.1 (Nat.le_zero.1 hlen)]
    exact ⟨1, Loop.run_succ_inr dropRound_nil 0⟩
  | succ fuel ih =>
    intro content hlen
    rw [dropRepeats_succ]
    cases hround : dropRound digit closed tail content with
    | inr r =>
      exact ⟨1, Loop.run_succ_inr hround 0⟩
    | inl rest =>
      have hless := length_dropRound hround
      obtain ⟨n, hn⟩ := @ih rest (by omega)
      exact ⟨n + 1, by rw [Loop.run_succ_inl hround, hn]; rfl⟩

/-- Whatever the rounds drop was known. -/
theorem sheds_dropRepeats (hclosed : closed <:+: existing) (htail : tail <:+: existing) :
    ∀ {fuel : ℕ} {content : Text}, Sheds existing content (dropRepeats digit closed tail fuel content) := by
  intro fuel
  induction fuel with
  | zero => exact fun {content} => Sheds.refl existing content
  | succ fuel ih =>
    intro content
    rw [dropRepeats_succ]
    cases hround : dropRound digit closed tail content with
    | inr r =>
      rw [dropRound_inr hround]
      exact Sheds.refl existing content
    | inl rest => exact (sheds_dropRound hclosed htail hround).trans ih

/-- An appended piece loses at its head only what is known. -/
theorem sheds_sanitize (existing content : Text) :
    Sheds existing (strip content) (sanitizeBodyAppendContent digit existing content) := by
  rw [sanitizeBodyAppendContent]
  dsimp only
  split_ifs
  · exact Sheds.refl existing _
  · have hclosed : existing.take (lastSealedChapterEnd digit existing) <:+: existing :=
      (List.take_prefix _ _).isInfix
    have htail : strip (existing.drop (existing.length - 500)) <:+: existing :=
      (infix_strip _).trans (List.drop_suffix _ _).isInfix
    cases hoverlap : overlap existing (strip content) with
    | none => exact sheds_dropRepeats hclosed htail
    | some size => exact (sheds_overlap hoverlap).trans (sheds_dropRepeats hclosed htail)

/-- GROWTH: no text is lost. What is not whitespace in a written body is that of the body before and of the piece;
    the loop over an appended piece ends, and what it removes is whitespace and pieces of the body. -/
theorem nothing_lost (digit : Char → Option ℕ) (existing new : Text) :
    solid (mergeBodyWriteContent digit existing new) = solid existing ++ solid new ∧
    (∀ closed tail content : Text, Loop.Returns (dropRound digit closed tail) content
      (dropRepeats digit closed tail content.length content)) ∧
    ∃ removed : List Text, strip new = removed.flatten ++ sanitizeBodyAppendContent digit existing new ∧
      Known existing removed :=
  ⟨solid_mergeBodyWriteContent digit existing new, fun _ _ _ => dropRepeats_returns (Nat.le_refl _),
    sheds_sanitize existing new⟩

end AgentLangraph.Artifact
