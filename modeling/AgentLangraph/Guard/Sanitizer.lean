import AgentLangraph.Lib.Occurrences
import AgentLangraph.Lib.PyTree
import AgentLangraph.Lib.Substitute
import AgentLangraph.Tool.Guard
import Mathlib.Data.Bool.AllAny

/-! What retrieval has found, before it is shown to the model (`retrieval_content_sanitizer.py`): three kinds of
    blocks and, where a marker of an injected prompt is seen, all markers make place for a word in brackets.

        text ──▶ blocks ──▶ [sanitized] ──▶ a marker? ──▶ [filtered] ──▶ strip

    The markers are looked for in lower case and taken out by a pattern that ignores case, which finds more. -/

namespace AgentLangraph.Guard.Sanitizer
open PyText PyTree Regex
open AgentLangraph.Tool (injectionMarkers)

/-- Characters without case of which every marker and every border of a block has one, and the brackets. -/
def uncased : List Char := "[]<|: `忽你".toList

/-- The Unicode tables: the lower case of a character, except for a capital sigma, which has two, and the letters
    that `re.IGNORECASE` takes for the same; what is said of them is what is so for the characters of the markers.
    `str` is `str(v)`. -/
structure Tables where
  lowerChar : Char → Text
  finalSigma : Text → Text → Bool
  sameLetter : Char → Char → Bool
  str : PyTree → Text
  lower_marker : ∀ m ∈ injectionMarkers, ∀ x ∈ m, lowerChar x = [x]
  lower_cases : ∀ c, (∃ x, lowerChar c = [x]) ∨ lowerChar c = ['i', '\u0307']
  same_of_lower : ∀ m ∈ injectionMarkers, ∀ x ∈ m, ∀ c, lowerChar c = [x] → sameLetter x c
  same_uncased : ∀ x c, x ∈ uncased ∨ c ∈ uncased → sameLetter x c → x = c
  str_text : ∀ t, str (leaf (.str t)) = t

variable (u : Tables)

/-! ### Lower case -/

/-- The lower case of a character between two texts. -/
def lowerAt (before : Text) (c : Char) (after : Text) : Text :=
  if c = 'Σ' then (if u.finalSigma before after then ['ς'] else ['σ']) else u.lowerChar c

def lowerFrom (before : Text) : Text → Text
  | [] => []
  | c :: cs => lowerAt u before c cs ++ lowerFrom (before ++ [c]) cs

/-- `str.lower`. -/
def lower (t : Text) : Text := lowerFrom u [] t

/-- `_contains_injection`. -/
def containsInjection (t : Text) : Bool := injectionMarkers.any fun m => contains (lower u t) (lower u m)

/-! ### Patterns -/

theorem nonempty_litWith {eq : Char → Char → Bool} {x : Char} {s : Text} {r : Re} (m : Text)
    (h : Lang (litWith eq (x :: s) r) m) : m ≠ [] := by
  obtain ⟨_, w, rfl, ⟨c, rfl, -⟩, -⟩ := h
  simp

/-- A block between two texts. -/
def blockBetween (x : Char) (s closes : Text) : Rule :=
  .block (Regex.lit u.sameLetter (x :: s)) (Regex.lit u.sameLetter closes) (plain_lit ..) (plain_lit ..)
    nonempty_litWith

/-- "```system\s*\n". -/
def systemFence : Re := litWith u.sameLetter "```system".toList (.seq (.rep isSpace 0 none) (.cls (· == '\n')))

/-- `_STRIP_PATTERNS`. -/
def stripPatterns : List Rule :=
  [blockBetween u '<' "|im_start|>".toList "<|im_end|>".toList, blockBetween u '<' "|system|>".toList "<|end|>".toList,
    .block (systemFence u) (.seq (.cls (· == '\n')) (Regex.lit u.sameLetter "```".toList))
      (plain_litWith (r := .seq (.rep isSpace 0 none) (.cls (· == '\n'))) ⟨trivial, trivial⟩ _)
      ⟨trivial, plain_lit ..⟩ nonempty_litWith]

/-- `re.escape(marker)`; a marker that were empty is left out. -/
def markerPatterns : List Rule :=
  injectionMarkers.filterMap fun m =>
    match m with
    | [] => none
    | x :: s => some (.one (Regex.lit u.sameLetter (x :: s)) (plain_lit ..) nonempty_litWith)

def sanitizedMark : Bracketed := ⟨'[', "sanitized".toList, ']'⟩

def filteredMark : Bracketed := ⟨'[', "filtered".toList, ']'⟩

def sanitizeRetrievedText (t : Text) : Text :=
  let cleaned := Rule.subAll sanitizedMark.text (stripPatterns u) t
  strip (if containsInjection u cleaned then Rule.subAll filteredMark.text (markerPatterns u) cleaned else cleaned)

/-! ### Documents -/

/-- The text fields. -/
def textFields : List Text := ["content".toList, "text".toList, "snippet".toList, "summary".toList, "body".toList]

def sanitizeField (out : PyRecord) (key : Text) : PyRecord :=
  match out.get? key with
  | some (leaf (.str t)) => out.set key (leaf (.str (sanitizeRetrievedText u t)))
  | _ => out

def sanitizeTitle (out : PyRecord) : PyRecord :=
  let title := (out.get? "title".toList).getD nil
  if containsInjection u (u.str (title.orElse (leaf (.str [])))) then
    out.set "title".toList (leaf (.str (sanitizeRetrievedText u (u.str title))))
  else out

def sanitizeRetrievedDocument (doc : PyRecord) : PyRecord :=
  (sanitizeTitle u (textFields.foldl (sanitizeField u) doc)).set "sanitized".toList (leaf (.bool true))

variable {u}

/-! ### Lower case and ignored case -/

/-- Characters that are in the lower case of another one are not in a marker, or not where it would matter. -/
theorem marker_chars : ∀ m ∈ injectionMarkers,
    m ≠ [] ∧ '\u0307' ∉ m ∧ m.getLast? ≠ some 'i' ∧ 'ς' ∉ m ∧ 'σ' ∉ m ∧ 'Σ' ∉ m := by
  decide +kernel

variable (u) in
/-- A character of a marker and one that has it for its lower case. -/
def LowersTo (x c : Char) : Prop := c ≠ 'Σ' ∧ u.lowerChar c = [x]

theorem lowerAt_cases (before : Text) (c : Char) (after : Text) :
    (∃ y, lowerAt u before c after = [y] ∧ ∀ m ∈ injectionMarkers, y ∈ m → LowersTo u y c) ∨
      lowerAt u before c after = ['i', '\u0307'] := by
  rw [lowerAt]
  split_ifs with hsigma
  · exact Or.inl ⟨'ς', rfl, fun m hm hmem => absurd hmem (marker_chars m hm).2.2.2.1⟩
  · exact Or.inl ⟨'σ', rfl, fun m hm hmem => absurd hmem (marker_chars m hm).2.2.2.2.1⟩
  · rcases u.lower_cases c with ⟨y, hy⟩ | hlong
    · exact Or.inl ⟨y, hy, fun _ _ _ => ⟨hsigma, hy⟩⟩
    · exact Or.inr hlong

/-- What stands at the front in lower case. The dot above of the one character that has two for its lower case is in
    no marker. -/
theorem window_of_prefix {m : Text} (hm : m ∈ injectionMarkers) : ∀ {s t before : Text}, s ⊆ m → s.getLast? ≠ some 'i' →
    s <+: lowerFrom u before t → ∃ w rest, t = w ++ rest ∧ List.Forall₂ (LowersTo u) s w
  | [], t, _, _, _, _ => ⟨[], t, rfl, .nil⟩
  | x :: s, [], _, _, _, hpre => absurd (List.prefix_nil.1 hpre) (List.cons_ne_nil x s)
  | x :: s, c :: cs, before, hsub, hlast, hpre => by
    have hdot : '\u0307' ∉ m := (marker_chars m hm).2.1
    have hsub' : s ⊆ m := fun y hy => hsub (List.mem_cons_of_mem _ hy)
    rw [lowerFrom] at hpre
    rcases lowerAt_cases before c cs with ⟨y, hy, hlow⟩ | hlong
    · rw [hy, List.singleton_append, List.cons_prefix_cons] at hpre
      obtain ⟨rfl, hpre⟩ := hpre
      have hlast' : s.getLast? ≠ some 'i' := by
        intro h
        rw [List.getLast?_cons, h] at hlast
        exact hlast rfl
      obtain ⟨w, rest, rfl, hw⟩ := window_of_prefix hm hsub' hlast' hpre
      exact ⟨c :: w, rest, rfl, .cons (hlow m hm (hsub List.mem_cons_self)) hw⟩
    · rw [hlong, List.cons_append, List.cons_prefix_cons] at hpre
      obtain ⟨rfl, hpre⟩ := hpre
      cases s with
      | nil => exact absurd rfl hlast
      | cons y s =>
        rw [List.cons_append, List.cons_prefix_cons] at hpre
        exact absurd (hpre.1 ▸ hsub' List.mem_cons_self) hdot

theorem window_of_infix {m : Text} (hm : m ∈ injectionMarkers) : ∀ {t before : Text}, m <:+: lowerFrom u before t →
    ∃ a w b, t = a ++ w ++ b ∧ List.Forall₂ (LowersTo u) m w
  | [], _, h => absurd (List.infix_nil.1 h) (marker_chars m hm).1
  | c :: cs, before, h => by
    obtain ⟨hne, hdot, hlast, -⟩ := marker_chars m hm
    have hfront : m <+: lowerFrom u before (c :: cs) →
        ∃ a w b, c :: cs = a ++ w ++ b ∧ List.Forall₂ (LowersTo u) m w := by
      intro hpre
      obtain ⟨w, rest, hw, hlow⟩ := window_of_prefix hm (List.Subset.refl m) hlast hpre
      exact ⟨[], w, rest, hw, hlow⟩
    have hlater : m <:+: lowerFrom u (before ++ [c]) cs →
        ∃ a w b, c :: cs = a ++ w ++ b ∧ List.Forall₂ (LowersTo u) m w := by
      intro hin
      obtain ⟨a, w, b, rfl, hlow⟩ := window_of_infix hm hin
      exact ⟨c :: a, w, b, rfl, hlow⟩
    rw [lowerFrom] at h hfront
    rcases lowerAt_cases before c cs with ⟨y, hy, -⟩ | hlong
    · rw [hy, List.singleton_append] at h hfront
      rcases List.infix_cons_iff.1 h with h | h
      · exact hfront h
      · exact hlater h
    · rw [hlong] at h hfront
      rcases List.infix_cons_iff.1 h with h | h
      · exact hfront h
      · rcases List.infix_cons_iff.1 h with h | h
        · cases m with
          | nil => exact absurd rfl hne
          | cons x m =>
            obtain ⟨rfl, -⟩ := List.cons_prefix_cons.1 h
            exact absurd List.mem_cons_self hdot
        · exact hlater h

theorem lowerFrom_window {b : Text} : ∀ {m w before : Text}, List.Forall₂ (LowersTo u) m w →
    lowerFrom u before (w ++ b) = m ++ lowerFrom u (before ++ w) b
  | [], _, before, h => by
    cases h
    simp
  | x :: m, _, before, h => by
    cases h with
    | cons hc h =>
      rename_i c w
      have hat : lowerAt u before c (w ++ b) = [x] := (if_neg hc.1).trans hc.2
      rw [List.cons_append, lowerFrom, hat, lowerFrom_window h]
      simp

theorem suffix_lowerFrom {t : Text} : ∀ {a before : Text},
    lowerFrom u (before ++ a) t <:+ lowerFrom u before (a ++ t)
  | [], before => by simp
  | c :: a, before => by
    rw [List.cons_append, lowerFrom]
    have h : lowerFrom u ((before ++ [c]) ++ a) t <:+ lowerFrom u (before ++ [c]) (a ++ t) := suffix_lowerFrom
    rw [List.append_assoc] at h
    exact h.trans (List.suffix_append ..)

/-- A marker stands in the lower case of a text just where characters stand in the text that have its own for their
    lower case. -/
theorem infix_lower_iff {m t : Text} (hm : m ∈ injectionMarkers) : m <:+: lower u t ↔
    ∃ a w b, t = a ++ w ++ b ∧ List.Forall₂ (LowersTo u) m w := by
  constructor
  · exact window_of_infix hm
  · rintro ⟨a, w, b, rfl, hw⟩
    have hpre : m <+: lowerFrom u ([] ++ a) (w ++ b) := by
      rw [lowerFrom_window hw]
      exact List.prefix_append ..
    rw [List.append_assoc]
    exact hpre.isInfix.trans suffix_lowerFrom.isInfix

theorem lower_marker {m : Text} (hm : m ∈ injectionMarkers) : lower u m = m := by
  have hself : List.Forall₂ (LowersTo u) m m := by
    rw [List.forall₂_same]
    intro x hx
    exact ⟨fun h => (marker_chars m hm).2.2.2.2.2 (h ▸ hx), u.lower_marker m hm x hx⟩
  have hwindow : lowerFrom u [] (m ++ []) = m ++ lowerFrom u ([] ++ m) [] := lowerFrom_window hself
  simpa [lower, lowerFrom] using hwindow

theorem containsInjection_iff {t : Text} : containsInjection u t = true ↔
    ∃ m ∈ injectionMarkers, ∃ a w b, t = a ++ w ++ b ∧ List.Forall₂ (LowersTo u) m w := by
  rw [containsInjection, List.any_eq_true]
  refine exists_congr fun m => and_congr_right fun hm => ?_
  rw [contains_iff, lower_marker hm, infix_lower_iff hm]

theorem containsInjection_of_infix {s t : Text} (h : s <:+: t) (hs : containsInjection u s = true) :
    containsInjection u t = true := by
  obtain ⟨m, hm, a, w, b, rfl, hw⟩ := containsInjection_iff.1 hs
  obtain ⟨x, y, rfl⟩ := h
  exact containsInjection_iff.2 ⟨m, hm, x ++ a, w, b ++ y, by simp, hw⟩

/-! ### Words without a bracket -/

/-- No word has a bracket, and each has a character without case. -/
def Unbracketed (L : Text → Prop) : Prop := ∀ w, L w → '[' ∉ w ∧ ']' ∉ w ∧ ∃ x ∈ w, x ∈ uncased

theorem exists_of_forall₂ {R : Char → Char → Prop} {s w : Text} (h : List.Forall₂ R s w) :
    (∀ c ∈ w, ∃ x ∈ s, R x c) ∧ ∀ x ∈ s, ∃ c ∈ w, R x c := by
  induction h with
  | nil => simp
  | cons hxc h ih =>
    simp only [List.mem_cons, exists_eq_or_imp, forall_eq_or_imp]
    exact ⟨⟨Or.inl hxc, fun c hc => Or.inr (ih.1 c hc)⟩, Or.inl hxc, fun x hx => Or.inr (ih.2 x hx)⟩

theorem unbracketed_litWith {s : Text} {r : Re} (hopens : '[' ∉ s) (hcloses : ']' ∉ s) (hs : ∃ x ∈ s, x ∈ uncased)
    (hr : ∀ w, Lang r w → '[' ∉ w ∧ ']' ∉ w) : Unbracketed (Lang (litWith u.sameLetter s r)) := by
  intro w hw
  obtain ⟨w₁, w₂, rfl, hsame, hw₂⟩ := lang_litWith.1 hw
  have hbracket : ∀ c ∈ uncased, c ∉ s → c ∉ w₁ := by
    intro c hc hcs hcw
    obtain ⟨x, hx, hxc⟩ := (exists_of_forall₂ hsame).1 c hcw
    exact hcs (u.same_uncased x c (Or.inr hc) hxc ▸ hx)
  obtain ⟨hr₁, hr₂⟩ := hr w₂ hw₂
  obtain ⟨x, hx, hux⟩ := hs
  obtain ⟨c, hc, hxc⟩ := (exists_of_forall₂ hsame).2 x hx
  refine ⟨?_, ?_, c, List.mem_append_left _ hc, u.same_uncased x c (Or.inl hux) hxc ▸ hux⟩
  · simp [hbracket '[' (by decide) hopens, hr₁]
  · simp [hbracket ']' (by decide) hcloses, hr₂]

theorem unbracketed_lit {s : Text} (hopens : '[' ∉ s) (hcloses : ']' ∉ s) (hs : ∃ x ∈ s, x ∈ uncased) :
    Unbracketed (Lang (Regex.lit u.sameLetter s)) :=
  unbracketed_litWith hopens hcloses hs fun w hw => by
    have hnil : w = [] := by simpa using hw.2.2
    simp [hnil]

theorem unbracketed_stripPatterns : ∀ r ∈ stripPatterns u, ∀ L ∈ r.words, Unbracketed L := by
  have hspaces : ∀ w, Lang (.seq (.rep isSpace 0 none) (.cls (· == '\n'))) w → '[' ∉ w ∧ ']' ∉ w := by
    rintro _ ⟨w, _, rfl, ⟨hw, -, -⟩, c, rfl, hc⟩
    have hnl : c = '\n' := by simpa using hc
    rw [hnl]
    constructor <;> intro hmem <;> rw [List.mem_append, List.mem_singleton] at hmem <;> rcases hmem with hmem | hmem
    · exact absurd (hw _ hmem) (by decide)
    · exact absurd hmem (by decide)
    · exact absurd (hw _ hmem) (by decide)
    · exact absurd hmem (by decide)
  simp only [stripPatterns, blockBetween, Rule.block, Rule.words, List.forall_mem_cons, List.not_mem_nil,
    false_implies, implies_true, and_true]
  refine ⟨⟨?_, ?_⟩, ⟨?_, ?_⟩, ?_, ?_⟩
  · exact unbracketed_lit (by decide) (by decide) ⟨'<', by decide, by decide⟩
  · exact unbracketed_lit (by decide) (by decide) ⟨'<', by decide, by decide⟩
  · exact unbracketed_lit (by decide) (by decide) ⟨'<', by decide, by decide⟩
  · exact unbracketed_lit (by decide) (by decide) ⟨'<', by decide, by decide⟩
  · exact unbracketed_litWith (by decide) (by decide) ⟨'`', by decide, by decide⟩ hspaces
  · rintro _ ⟨_, w, rfl, ⟨c, rfl, hc⟩, hw⟩
    have hnl : c = '\n' := by simpa using hc
    obtain ⟨hopens, hcloses, x, hx, hux⟩ :=
      unbracketed_lit (by decide) (by decide) ⟨'`', by decide, by decide⟩ w hw
    rw [hnl]
    exact ⟨by simp [hopens], by simp [hcloses], x, List.mem_append_right _ hx, hux⟩

theorem marker_uncased : ∀ m ∈ injectionMarkers, '[' ∉ m ∧ ']' ∉ m ∧ ∃ x ∈ m, x ∈ uncased := by
  have hany : ∀ m ∈ injectionMarkers, '[' ∉ m ∧ ']' ∉ m ∧ m.any fun x => decide (x ∈ uncased) := by
    decide +kernel
  intro m hm
  simpa using hany m hm

theorem mem_markerPatterns {r : Rule} (h : r ∈ markerPatterns u) :
    ∃ m ∈ injectionMarkers, r.words = [Lang (Regex.lit u.sameLetter m)] := by
  obtain ⟨m, hm, hr⟩ := List.mem_filterMap.1 h
  cases m with
  | nil => cases hr
  | cons x s => exact ⟨x :: s, hm, by rw [← Option.some.inj hr]; rfl⟩

theorem exists_markerPattern {m : Text} (hm : m ∈ injectionMarkers) :
    ∃ r ∈ markerPatterns u, r.words = [Lang (Regex.lit u.sameLetter m)] := by
  cases m with
  | nil => exact absurd rfl (marker_chars _ hm).1
  | cons x s => exact ⟨_, List.mem_filterMap.2 ⟨x :: s, hm, rfl⟩, rfl⟩

theorem unbracketed_markerPatterns : ∀ r ∈ markerPatterns u, ∀ L ∈ r.words, Unbracketed L := by
  intro r hr L hL
  obtain ⟨m, hm, hwords⟩ := mem_markerPatterns hr
  rw [hwords, List.mem_singleton] at hL
  obtain ⟨hopens, hcloses, hs⟩ := marker_uncased m hm
  rw [hL]
  exact unbracketed_lit hopens hcloses hs

/-- A mark in square brackets, without a character that has no case. -/
structure IsMark (k : Bracketed) : Prop where
  opens : k.opens = '['
  closes : k.closes = ']'
  inner : ∀ x ∈ uncased, x ∉ k.inner

theorem isMark_sanitized : IsMark sanitizedMark := ⟨rfl, rfl, List.all_iff_forall_prop.1 (by decide)⟩

theorem isMark_filtered : IsMark filteredMark := ⟨rfl, rfl, List.all_iff_forall_prop.1 (by decide)⟩

theorem Unbracketed.clear {k : Bracketed} {L : Text → Prop} (h : Unbracketed L) (hk : IsMark k) : k.Clear L := by
  intro w hw
  obtain ⟨hopens, hcloses, x, hx, hux⟩ := h w hw
  rw [hk.opens, hk.closes]
  exact ⟨List.ne_nil_of_mem hx, hopens, hcloses, fun hin => hk.inner x hux (hin.subset hx)⟩

theorem clear_of_unbracketed {k : Bracketed} {rules : List Rule} (hk : IsMark k)
    (h : ∀ r ∈ rules, ∀ L ∈ r.words, Unbracketed L) : ∀ r ∈ rules, r.Clear k :=
  fun r hr L hL => (h r hr L hL).clear hk

/-! ### What comes out -/

/-- No block is found in what comes out. -/
theorem no_block (t : Text) : ∀ r ∈ stripPatterns u, ¬ InOrder r.words (sanitizeRetrievedText u t) := by
  intro r hr hfound
  rw [sanitizeRetrievedText] at hfound
  have hcleaned : ¬ InOrder r.words (Rule.subAll sanitizedMark.text (stripPatterns u) t) :=
    Rule.subAll_not_inOrder (clear_of_unbracketed isMark_sanitized unbracketed_stripPatterns) r hr
  have hin := hfound.of_infix (infix_strip _)
  split_ifs at hin
  · exact hcleaned (Rule.subAll_reflect (clear_of_unbracketed isMark_filtered unbracketed_stripPatterns r hr) hin)
  · exact hcleaned hin

/-- No marker is seen in what comes out: where one was, none is found any more whatever its case. -/
theorem no_injection (t : Text) : containsInjection u (sanitizeRetrievedText u t) = false := by
  rw [Bool.eq_false_iff]
  intro hfound
  rw [sanitizeRetrievedText] at hfound
  have hin := containsInjection_of_infix (infix_strip _) hfound
  split_ifs at hin with hcleaned
  · obtain ⟨m, hm, a, w, b, heq, hw⟩ := containsInjection_iff.1 hin
    obtain ⟨r, hr, hwords⟩ := exists_markerPattern (u := u) hm
    refine Rule.subAll_not_inOrder (t := Rule.subAll sanitizedMark.text (stripPatterns u) t)
      (clear_of_unbracketed isMark_filtered unbracketed_markerPatterns) r hr ?_
    rw [hwords]
    refine ⟨a, w, b, heq, lang_lit.2 ?_, trivial⟩
    have hmem : List.Forall₂ (fun x c => x ∈ m ∧ LowersTo u x c) m w := by
      rw [List.forall₂_and_left]
      exact ⟨fun x hx => hx, hw⟩
    exact hmem.imp fun x c h => u.same_of_lower m hm x h.1 c h.2.2
  · exact hcleaned hin

/-- What has been sanitized stays as it is. -/
theorem sanitize_fixed (t : Text) :
    sanitizeRetrievedText u (sanitizeRetrievedText u t) = sanitizeRetrievedText u t := by
  have hblocks : Rule.subAll sanitizedMark.text (stripPatterns u) (sanitizeRetrievedText u t) =
      sanitizeRetrievedText u t := Rule.subAll_eq_self (no_block t)
  have hinjection := no_injection (u := u) t
  rw [sanitizeRetrievedText, hblocks]
  simp only [hinjection, Bool.false_eq_true, if_false]
  rw [sanitizeRetrievedText, strip_strip]

/-! ### Documents -/

variable (u) in
/-- A text in the field has come out of the sanitizer. -/
def FixedAt (d : PyRecord) (key : Text) : Prop :=
  ∀ t, d.get? key = some (leaf (.str t)) → ∃ t', t = sanitizeRetrievedText u t'

theorem FixedAt.set_text {d : PyRecord} {key : Text} (h : FixedAt u d key) (key' t : Text) :
    FixedAt u (d.set key' (leaf (.str (sanitizeRetrievedText u t)))) key := by
  intro s hs
  rw [PyDict.get?_set] at hs
  split_ifs at hs
  · simp only [Option.some.injEq, leaf.injEq, PyVal.str.injEq] at hs
    exact ⟨t, hs.symm⟩
  · exact h s hs

theorem sanitizeField_cases (d : PyRecord) (key : Text) :
    sanitizeField u d key = d ∧ (∀ t, d.get? key ≠ some (leaf (.str t))) ∨
      ∃ t, d.get? key = some (leaf (.str t)) ∧
        sanitizeField u d key = d.set key (leaf (.str (sanitizeRetrievedText u t))) := by
  rw [sanitizeField]
  split
  · rename_i t hget
    exact Or.inr ⟨t, hget, rfl⟩
  · rename_i hnot
    exact Or.inl ⟨rfl, hnot⟩

theorem fixedAt_sanitizeField (d : PyRecord) (key : Text) : FixedAt u (sanitizeField u d key) key := by
  rcases sanitizeField_cases (u := u) d key with ⟨heq, hnot⟩ | ⟨t, hget, heq⟩
  · rw [heq]
    exact fun t ht => absurd ht (hnot t)
  · rw [heq]
    intro s hs
    rw [PyDict.get?_set_self] at hs
    simp only [Option.some.injEq, leaf.injEq, PyVal.str.injEq] at hs
    exact ⟨t, hs.symm⟩

theorem FixedAt.sanitizeField {d : PyRecord} {key : Text} (h : FixedAt u d key) (key' : Text) :
    FixedAt u (sanitizeField u d key') key := by
  rcases sanitizeField_cases (u := u) d key' with ⟨heq, -⟩ | ⟨t, -, heq⟩
  · rw [heq]
    exact h
  · rw [heq]
    exact h.set_text key' t

theorem FixedAt.fields {key : Text} (keys : List Text) {d : PyRecord} (h : FixedAt u d key) :
    FixedAt u (keys.foldl (Sanitizer.sanitizeField u) d) key := by
  induction keys generalizing d with
  | nil => exact h
  | cons key' keys ih => exact ih (h.sanitizeField key')

theorem fixedAt_fields {key : Text} {keys : List Text} {d : PyRecord} (h : key ∈ keys) :
    FixedAt u (keys.foldl (sanitizeField u) d) key := by
  induction keys generalizing d with
  | nil => cases h
  | cons key' keys ih =>
    rcases List.mem_cons.1 h with rfl | h
    · exact (fixedAt_sanitizeField d key).fields keys
    · exact ih h

theorem fixedAt_document (doc : PyRecord) {key : Text} (h : key ∈ textFields) :
    FixedAt u (sanitizeRetrievedDocument u doc) key := by
  have hkey : key ≠ "sanitized".toList := by
    revert key
    decide
  intro t ht
  rw [sanitizeRetrievedDocument, PyDict.get?_set_ne _ hkey.symm, sanitizeTitle] at ht
  split_ifs at ht
  · exact (fixedAt_fields h).set_text _ _ t ht
  · exact fixedAt_fields h t ht

/-- A field that has been sanitized stays as it is. -/
theorem FixedAt.eq {d : PyRecord} {key : Text} (h : FixedAt u d key) : Sanitizer.sanitizeField u d key = d := by
  rcases sanitizeField_cases (u := u) d key with ⟨heq, -⟩ | ⟨t, hget, heq⟩
  · exact heq
  · obtain ⟨t', rfl⟩ := h t hget
    rw [heq, sanitize_fixed]
    exact PyDict.set_eq_self hget

theorem fields_eq {d : PyRecord} : ∀ {keys : List Text}, (∀ key ∈ keys, FixedAt u d key) →
    keys.foldl (sanitizeField u) d = d
  | [], _ => rfl
  | key :: keys, h => by
    rw [List.foldl_cons, (h key List.mem_cons_self).eq]
    exact fields_eq fun key' hkey' => h key' (List.mem_cons_of_mem _ hkey')

variable (u) in
/-- The title as it is looked at. -/
def titleText (d : PyRecord) : Text := u.str (((d.get? "title".toList).getD nil).orElse (leaf (.str [])))

theorem str_orElse_text (t : Text) : u.str ((leaf (.str t)).orElse (leaf (.str []))) = t := by
  rw [PyTree.orElse]
  split_ifs with ht
  · exact u.str_text t
  · have hnil : t = [] := by simpa [PyTree.truthy, PyVal.truthy] using ht
    rw [hnil]
    exact u.str_text []

theorem no_injection_title (doc : PyRecord) :
    containsInjection u (titleText u (sanitizeRetrievedDocument u doc)) = false := by
  have hkey : "sanitized".toList ≠ "title".toList := by decide
  rw [titleText, sanitizeRetrievedDocument, PyDict.get?_set_ne _ hkey, sanitizeTitle]
  split_ifs with h
  · rw [PyDict.get?_set_self, Option.getD_some, str_orElse_text]
    exact no_injection _
  · exact Bool.eq_false_iff.2 h

theorem sanitizeTitle_eq {d : PyRecord} (h : containsInjection u (titleText u d) = false) : sanitizeTitle u d = d := by
  rw [titleText] at h
  rw [sanitizeTitle]
  simp only [h, Bool.false_eq_true, if_false]

/-- DISARMED: a text field that comes out has no marker, in lower case as `_contains_injection` compares them, and no
    block; and a document that is sanitized again stays as it is. -/
theorem document_disarmed (u : Tables) (doc : PyRecord) :
    (∀ key ∈ textFields, ∀ t, (sanitizeRetrievedDocument u doc).get? key = some (leaf (.str t)) →
      (∀ m ∈ injectionMarkers, ¬ lower u m <:+: lower u t) ∧ ∀ r ∈ stripPatterns u, found r.matcher t = false) ∧
    sanitizeRetrievedDocument u (sanitizeRetrievedDocument u doc) = sanitizeRetrievedDocument u doc := by
  constructor
  · intro key hkey t ht
    obtain ⟨t', rfl⟩ := fixedAt_document doc hkey t ht
    constructor
    · intro m hm hin
      refine Bool.eq_false_iff.1 (no_injection (u := u) t') (List.any_eq_true.2 ⟨m, hm, ?_⟩)
      exact contains_iff.2 hin
    · intro r hr
      rw [Bool.eq_false_iff]
      exact fun hfound => no_block t' r hr ((found_iff r.finds).1 hfound)
  · have hfields : textFields.foldl (sanitizeField u) (sanitizeRetrievedDocument u doc) =
        sanitizeRetrievedDocument u doc := fields_eq fun key hkey => fixedAt_document doc hkey
    have htitle : sanitizeTitle u (sanitizeRetrievedDocument u doc) = sanitizeRetrievedDocument u doc :=
      sanitizeTitle_eq (no_injection_title doc)
    have hflag : (sanitizeRetrievedDocument u doc).get? "sanitized".toList = some (leaf (.bool true)) :=
      PyDict.get?_set_self ..
    rw [sanitizeRetrievedDocument, hfields, htitle]
    exact PyDict.set_eq_self hflag

theorem toLower_uncased {c : Char} (h : c ∈ uncased ∨ c.toLower ∈ uncased) : c.toLower = c := by
  by_cases hupper : c.val ≥ 'A'.val ∧ c.val ≤ 'Z'.val
  · obtain ⟨hle, hge⟩ := hupper
    have hval : c.toLower.val = c.val + 32 := by
      delta Char.toLower
      rw [dif_pos ⟨hle, hge⟩]
      rfl
    have hlist : ∀ x ∈ uncased.map Char.val, ¬ (x ≥ 65 ∧ x ≤ 90) ∧ ¬ (x ≥ 97 ∧ x ≤ 122) :=
      List.all_iff_forall_prop.1 (by decide)
    rcases h with h | h
    · exact absurd ⟨hle, hge⟩ (hlist _ (List.mem_map_of_mem h)).1
    · refine absurd ?_ (hlist _ (List.mem_map_of_mem h)).2
      have hle' : 65 ≤ c.val.toNat := UInt32.le_iff_toNat_le.1 hle
      have hge' : c.val.toNat ≤ 90 := UInt32.le_iff_toNat_le.1 hge
      rw [hval, ge_iff_le, UInt32.le_iff_toNat_le, UInt32.le_iff_toNat_le, UInt32.toNat_add]
      constructor
      · change 97 ≤ (c.val.toNat + 32) % 2 ^ 32
        omega
      · change (c.val.toNat + 32) % 2 ^ 32 ≤ 122
        omega
  · delta Char.toLower
    rw [dif_neg hupper]

theorem lower_injectionMarkers : ∀ m ∈ injectionMarkers, ∀ x ∈ m, [x.toLower] = [x] := fun m hm => by
  have hall : ∀ m ∈ injectionMarkers, m.all fun x => decide ([x.toLower] = [x]) := by
    decide +kernel
  simpa only [List.all_eq_true, decide_eq_true_eq] using hall m hm

theorem lowered_cases (c : Char) : (∃ x, [c.toLower] = [x]) ∨ [c.toLower] = ['i', '\u0307'] :=
  Or.inl ⟨c.toLower, rfl⟩

theorem beq_of_lower : ∀ m ∈ injectionMarkers, ∀ x ∈ m, ∀ c : Char, [c.toLower] = [x] → (x == c.toLower) = true :=
  fun m hm x hx c hc => by simpa using (List.cons.inj hc).1.symm

theorem eq_of_beq_lower (x c : Char) (h : x ∈ uncased ∨ c ∈ uncased) (hsame : (x == c.toLower) = true) : x = c := by
  have hx : x = c.toLower := by simpa using hsame
  rw [hx] at h ⊢
  exact toLower_uncased h.symm

/-- The letters of ASCII. -/
def asciiTables : Tables where
  lowerChar := fun c => [c.toLower]
  finalSigma := fun _ _ => false
  sameLetter := fun x c => x == c.toLower
  str := fun v =>
    match v with
    | leaf v => v.toText
    | _ => []
  lower_marker := lower_injectionMarkers
  lower_cases := lowered_cases
  same_of_lower := beq_of_lower
  same_uncased := eq_of_beq_lower
  str_text := fun _ => rfl

/-- Two pieces do not join: what stands between them is left in brackets. -/
example : sanitizeRetrievedText asciiTables "system <|System|>x<|END|>prompt, System PROMPT".toList =
    "system [sanitized]prompt, [filtered]".toList := by
  decide +kernel

end AgentLangraph.Guard.Sanitizer
