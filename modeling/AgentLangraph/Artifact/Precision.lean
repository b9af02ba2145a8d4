import AgentLangraph.Artifact.Edit
import AgentLangraph.Lib.Occurrences

/-! What an edit changes. The range of lines cuts the text into what is before it, the target and what is
    after it; the occurrences of the old text cut the target into parts. An edit puts the new text into the
    seams that it selects, and everything else is as it was. -/

namespace AgentLangraph.Artifact
open PyText

/-! ### What is selected -/

/-- A valid range of lines, with the text before it and after it: the whole text where no bound is given. -/
inductive LineRange (content : Text) : Option ℤ → Option ℤ → Text → Text → Text → Prop
  | whole : LineRange content none none [] content []
  | lines {startLine endLine : Option ℤ} (linesBefore lines linesAfter : List Text)
      (given : ¬ (startLine = none ∧ endLine = none))
      (lines_eq : splitlinesKeep content = linesBefore ++ lines ++ linesAfter)
      (start : startLine.getD 1 = linesBefore.length + 1)
      (stop : endLine.getD (splitlinesKeep content).length = linesBefore.length + lines.length)
      (nonempty : lines ≠ []) :
      LineRange content startLine endLine linesBefore.flatten lines.flatten linesAfter.flatten

/-- The seams that an edit selects among those of so many occurrences; none where it is ambiguous or the
    occurrence it names is not there. -/
def Precision.selected (e : Precision) (occurrences : ℕ) : Option (List ℕ) :=
  match e.occurrenceIndex with
  | some index => if 1 ≤ index ∧ index ≤ occurrences then some [index.toNat - 1] else none
  | none =>
    if e.replaceAll then some (List.range occurrences)
    else if occurrences = 1 then some [0]
    else none

/-- The parts with the new text in the selected seams and the old text in the others. -/
def Precision.woven (e : Precision) (chosen : List ℕ) (parts : List Text) : Text :=
  weave (fun i => if i ∈ chosen then e.newText else e.oldText) parts

/-! ### The range of lines -/

theorem LineRange.content_eq {content before target after : Text} {startLine endLine : Option ℤ}
    (h : LineRange content startLine endLine before target after) : content = before ++ target ++ after := by
  cases h with
  | whole => simp
  | lines _ _ _ _ hlines _ _ _ =>
    rw [← List.flatten_append, ← List.flatten_append, ← hlines, flatten_splitlinesKeep]

/-- The bounds of a valid range are the ends of its target. -/
theorem LineRange.sliceBounds_eq {content before target after : Text} {startLine endLine : Option ℤ}
    (h : LineRange content startLine endLine before target after) :
    sliceBounds content startLine endLine = .ok (before.length, (before ++ target).length) := by
  cases h with
  | whole => simp [sliceBounds]
  | lines linesBefore lines linesAfter hgiven hlines hstart hstop hne =>
    have hpos := List.length_pos_iff.2 hne
    have hlen : (splitlinesKeep content).length = linesBefore.length + lines.length + linesAfter.length := by
      rw [hlines, List.length_append, List.length_append]
    rw [sliceBounds, if_neg hgiven]
    dsimp only
    rw [if_neg (List.ne_nil_of_length_pos (by omega)), hstart, hstop, hlen, if_neg (by omega)]
    have hfirst : ((linesBefore.length : ℤ) + 1).toNat - 1 = linesBefore.length := by omega
    have hlast : ((linesBefore.length : ℤ) + lines.length).toNat = (linesBefore ++ lines).length := by
      rw [List.length_append]
      omega
    rw [hfirst, hlast, hlines, List.append_assoc, List.take_left, ← List.append_assoc, List.take_left,
      List.flatten_append]

/-! ### The occurrence with a number -/

/-- Scanning on from a part of the text finds the occurrences of the rest, one after another. -/
theorem nthStart_woven {sub : Text} (new : Text) : ∀ (k : ℕ) (done rest : Text) {parts : List Text},
    Cut sub rest parts → k + 1 < parts.length →
    ∃ start, nthStart sub (done ++ rest) (k + 1) done.length = some start ∧
      (done ++ rest).take start ++ new ++ (done ++ rest).drop (start + sub.length) =
        done ++ weave (fun i => if i = k then new else sub) parts := by
  intro k
  induction k with
  | zero =>
    intro done rest parts hcut hk
    cases hcut with
    | last _ => simp at hk
    | @next pre rest parts hfind hcut =>
      refine ⟨done.length + pre.length, ?_, ?_⟩
      · rw [nthStart, findFrom, List.drop_left, hfind]
        rfl
      · have hsplit : done ++ (pre ++ sub ++ rest) = (done ++ pre) ++ sub ++ rest := by
          simp [List.append_assoc]
        rw [hsplit, ← List.length_append, take_occurrence, drop_occurrence, weave_cons _ _ hcut.ne_nil]
        simp [hcut.weave_self, List.append_assoc]
  | succ k ih =>
    intro done rest parts hcut hk
    cases hcut with
    | last _ => simp at hk
    | @next pre rest parts hfind hcut =>
      obtain ⟨start, hstart, htext⟩ := ih (done ++ pre ++ sub) rest hcut (by simpa using hk)
      have hsplit : done ++ (pre ++ sub ++ rest) = (done ++ pre ++ sub) ++ rest := by
        simp [List.append_assoc]
      refine ⟨start, ?_, ?_⟩
      · rw [nthStart, findFrom, List.drop_left, hfind]
        simp only [Option.map_some, Option.bind_some, Nat.add_eq_zero_iff, one_ne_zero, and_false, if_false]
        rw [hsplit, ← hstart]
        congr 1
        simp [Nat.add_assoc]
      · rw [hsplit, htext, weave_cons _ _ hcut.ne_nil]
        simp [List.append_assoc]

/-! ### The replacement in the target -/

variable {e : Precision} {target : Text} {parts : List Text}

/-- The replacement puts the new text into the selected seams, as many as it reports. -/
theorem replaceInTarget_woven {chosen : List ℕ} (hold : e.oldText ≠ []) (hcut : Cut e.oldText target parts)
    (hsel : e.selected (count target e.oldText) = some chosen) :
    replaceInTarget e e.oldText target (count target e.oldText) =
      .ok (e.woven chosen parts, chosen.length) := by
  have hparts := hcut.count_eq hold
  rw [Precision.selected] at hsel
  rw [replaceInTarget, Precision.woven]
  cases hindex : e.occurrenceIndex with
  | some index =>
    simp only [hindex] at hsel ⊢
    split_ifs at hsel with hin
    obtain rfl := Option.some.inj hsel
    obtain ⟨k, hk⟩ : ∃ k, index.toNat = k + 1 := ⟨index.toNat - 1, by omega⟩
    obtain ⟨start, hstart, htext⟩ := nthStart_woven e.newText k [] target hcut (by omega)
    rw [if_neg (by omega), hk]
    simp only [List.nil_append, List.length_nil] at hstart htext
    rw [hstart]
    dsimp only
    rw [htext]
    simp
  | none =>
    simp only [hindex] at hsel ⊢
    split_ifs at hsel with hall hone
    · obtain rfl := Option.some.inj hsel
      rw [if_neg (by simp [hall]), if_pos hall, hcut.replace_eq hold, List.length_range]
      congr 2
      refine weave_congr fun i hi => ?_
      rw [if_pos (List.mem_range.2 (by omega))]
    · obtain rfl := Option.some.inj hsel
      rw [if_neg (by omega), if_neg hall, hcut.replaceOne_eq]
      simp

/-- Where nothing is selected the replacement is refused. -/
theorem replaceInTarget_refused (hpos : 1 ≤ count target e.oldText)
    (hsel : e.selected (count target e.oldText) = none) :
    ∃ message, replaceInTarget e e.oldText target (count target e.oldText) =
      .error (.valueError message) := by
  rw [Precision.selected] at hsel
  rw [replaceInTarget]
  cases hindex : e.occurrenceIndex with
  | some index =>
    simp only [hindex] at hsel ⊢
    split_ifs at hsel with hin
    rw [if_pos (by omega)]
    exact ⟨_, rfl⟩
  | none =>
    simp only [hindex] at hsel ⊢
    split_ifs at hsel with hall hone
    rw [if_pos ⟨by omega, by simpa using hall⟩]
    exact ⟨_, rfl⟩

/-- An edit of a text that occurs in a valid range is the replacement there, with the rest around it. -/
theorem applyPrecisionEdit_eq (m : Matcher) {original before after : Text}
    (hrange : LineRange original e.startLine e.endLine before target after)
    (hpos : 1 ≤ count target e.oldText) :
    applyPrecisionEdit m original e =
      (fun r : Text × ℕ => (before ++ r.1 ++ after, r.2)) <$>
        replaceInTarget e e.oldText target (count target e.oldText) := by
  have hcontent := hrange.content_eq
  have htarget : (original.take (before ++ target).length).drop before.length = target := by
    rw [hcontent, List.take_left, List.drop_left]
  have hbefore : original.take before.length = before := by
    rw [hcontent, List.append_assoc, List.take_left]
  have hafter : original.drop (before ++ target).length = after := by
    rw [hcontent, List.drop_left]
  rw [applyPrecisionEdit, hrange.sliceBounds_eq]
  simp only [Bind.bind, Except.bind]
  rw [htarget, hbefore, hafter, if_neg (by omega)]

/-! ### A batch -/

/-- One edit of a batch on what has been done so far. -/
def applyOne (m : Matcher) (done : Text × ℕ) (d : Fields) : Except Raise (Text × ℕ) := do
  let e ← precisionOf m d
  let (updated, replacements) ← applyPrecisionEdit m done.1 e
  pure (updated, done.2 + replacements)

/-- The edits of a batch that are dictionaries with an old text. -/
def appliedEdits (edits : List (Option Fields)) : List Fields :=
  (edits.filterMap id).filter fun d => textOr d "old_text" != []

/-- A batch applies its edits one after another. -/
theorem applyBatchEdits_eq_foldlM (m : Matcher) : ∀ (edits : List (Option Fields)) (done : Text × ℕ),
    applyBatchEdits m done edits = (appliedEdits edits).foldlM (applyOne m) done
  | [], done => rfl
  | none :: edits, done => by
    rw [applyBatchEdits, applyBatchEdits_eq_foldlM m edits done]
    rfl
  | some d :: edits, done => by
    rw [applyBatchEdits]
    by_cases hempty : textOr d "old_text" = []
    · rw [if_pos hempty, applyBatchEdits_eq_foldlM m edits done]
      simp [appliedEdits, hempty]
    · have happlied : appliedEdits (some d :: edits) = d :: appliedEdits edits := by
        simp [appliedEdits, hempty]
      rw [if_neg hempty, happlied, List.foldlM_cons, applyOne]
      cases hp : precisionOf m d with
      | error ex => rfl
      | ok e =>
        cases hr : applyPrecisionEdit m done.1 e with
        | error ex =>
          simp only [Except.bind, Bind.bind, hr]
        | ok r =>
          simp only [Except.bind, Bind.bind, hr, pure, Except.pure]
          exact applyBatchEdits_eq_foldlM m edits _

/-! ### Edits change only what they select -/

/-- An edit of a text that occurs in a valid range of lines puts the new text into the seams that it
    selects and reports how many these are; it fails exactly where it selects none, and a batch is its
    edits one after another. -/
theorem precision_edits_exact (m : Matcher) :
    (∀ (original before target after : Text) (e : Precision),
      LineRange original e.startLine e.endLine before target after → e.oldText ≠ [] →
      e.oldText <:+: target →
      original = before ++ target ++ after ∧
      ∃ parts, Cut e.oldText target parts ∧
        ((∃ ex, applyPrecisionEdit m original e = .error ex) ↔ e.selected (parts.length - 1) = none) ∧
        ∀ chosen, e.selected (parts.length - 1) = some chosen →
          applyPrecisionEdit m original e =
            .ok (before ++ e.woven chosen parts ++ after, chosen.length)) ∧
    ∀ (edits : List (Option Fields)) (original : Text),
      applyBatchEdits m (original, 0) edits = (appliedEdits edits).foldlM (applyOne m) (original, 0) := by
  refine ⟨?_, fun edits original => applyBatchEdits_eq_foldlM m edits (original, 0)⟩
  intro original before target after e hrange hold hoccurs
  obtain ⟨parts, hcut⟩ := exists_cut hold target
  have hcount := hcut.count_eq hold
  have hpos : 1 ≤ count target e.oldText := by
    cases hcut with
    | last hnone => exact absurd hoccurs (find_eq_none_iff.1 hnone)
    | @next pre rest parts _ hcut =>
      have := List.length_pos_iff.2 hcut.ne_nil
      rw [List.length_cons] at hcount
      omega
  have hseams : parts.length - 1 = count target e.oldText := by omega
  refine ⟨hrange.content_eq, parts, hcut, ?_, ?_⟩ <;> rw [applyPrecisionEdit_eq m hrange hpos, hseams]
  · cases hsel : e.selected (count target e.oldText) with
    | none =>
      obtain ⟨message, hmessage⟩ := replaceInTarget_refused hpos hsel
      exact iff_of_true ⟨_, by rw [hmessage]; rfl⟩ rfl
    | some chosen =>
      rw [replaceInTarget_woven hold hcut hsel]
      refine iff_of_false ?_ (by simp)
      rintro ⟨ex, hex⟩
      cases hex
  · intro chosen hsel
    rw [replaceInTarget_woven hold hcut hsel]
    rfl

/-- What the editor takes from outside, on ASCII: NFKC leaves such a text as it is. -/
def Matcher.ascii : Matcher where
  nfkc := id
  ratio a b := if a = b then 1 else 0
  repr t := "'".toList ++ t ++ "'".toList
  digit c := if c.isDigit then some (c.toNat - 48) else none

/-- The second of two occurrences on the second line of three. -/
def secondOnLine : Precision :=
  { oldText := "aa".toList, newText := "x".toList, occurrenceIndex := some 2, startLine := some 2,
    endLine := some 2 }

theorem precision_edits_exact_secondOnLine :
    "aa\naaabaa\naa".toList = "aa\n".toList ++ "aaabaa\n".toList ++ "aa".toList ∧
      ∃ parts, Cut "aa".toList "aaabaa\n".toList parts ∧
        ((∃ ex, applyPrecisionEdit .ascii "aa\naaabaa\naa".toList secondOnLine = .error ex) ↔
          secondOnLine.selected (parts.length - 1) = none) ∧
        ∀ chosen, secondOnLine.selected (parts.length - 1) = some chosen →
          applyPrecisionEdit .ascii "aa\naaabaa\naa".toList secondOnLine =
            .ok ("aa\n".toList ++ secondOnLine.woven chosen parts ++ "aa".toList, chosen.length) := by
  refine (precision_edits_exact .ascii).1 _ _ _ _ secondOnLine ?_ (by decide) ⟨[], "abaa\n".toList, rfl⟩
  exact .lines ["aa\n".toList] ["aaabaa\n".toList] ["aa".toList] (by decide) (by decide) rfl rfl (by decide)

end AgentLangraph.Artifact
