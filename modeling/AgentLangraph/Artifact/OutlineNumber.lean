import AgentLangraph.Lib.Numeral
import Mathlib.Data.Bool.AllAny
import Mathlib.Data.Nat.Digits.Defs

/-! The chapter numbers in the headings of an outline. The conversion knows digits and tens; where a numeral from
    a hundred on has tens, what stands in front of them is not known to it and counts as one:

        第十二章        ──▶  12
        第一百零二章    ──▶  no number
        第一百二十章    ──▶  10 -/

namespace AgentLangraph.Artifact.Outline
open PyText Numeral

/-- What `\d` matches, with the values; no whitespace. -/
structure Digits where
  value : Char → Option ℕ
  blank : ∀ c, isSpace c = true → value c = none

/-- The groups of a match: a number between the two signs, or behind the word. -/
inductive Group
  | first (raw : Text)
  | second (ds : Text)
  deriving DecidableEq

def isCnNumeral (c : Char) : Bool := c ∈ "一二三四五六七八九十百千零两".toList

/-- Without the marks of a heading. -/
def dropMarks (t : Text) : Text := if startswith t ['#'] then lstrip (t.dropWhile (· == '#')) else t

/-- The number between the signs, by the digits or the numeral signs at the head. -/
def rawOf (u : Text) : Text :=
  if u.takeWhile Char.isDigit ≠ [] then u.takeWhile Char.isDigit else u.takeWhile isCnNumeral

/-- The first group, behind its sign. -/
def matchFirst (u : Text) : Option Group :=
  let u := lstrip u
  if rawOf u ≠ [] ∧ startswith (lstrip (u.drop (rawOf u).length)) ['章'] then some (.first (rawOf u)) else none

/-- The word and the second group. -/
def matchSecond (D : Digits) (u : Text) : Option Group :=
  if (u.take 7).map Char.toLower = "chapter".toList then
    let ds := (lstrip (u.drop 7)).takeWhile fun c => (D.value c).isSome
    if ds = [] then none else some (.second ds)
  else none

/-- `_OUTLINE_CHAPTER_HEAD_RE.match`: the group that takes part. -/
def matchHead (D : Digits) (t : Text) : Option Group :=
  match dropMarks t with
  | '第' :: u => matchFirst u
  | u => matchSecond D u

/-- `int` of a text of digits. -/
def intOf (value : Char → Option ℕ) (ds : Text) : ℕ := ds.foldl (fun n c => 10 * n + (value c).getD 0) 0

def asciiValue (c : Char) : Option ℕ := if c.isDigit then some (c.toNat - '0'.toNat) else none

/-- `_CN_DIGIT`. -/
def cnDigits : List (Char × ℕ) :=
  [('零', 0), ('一', 1), ('二', 2), ('两', 2), ('三', 3), ('四', 4), ('五', 5), ('六', 6), ('七', 7), ('八', 8), ('九', 9)]

/-- `_CN_DIGIT.get(text)`. -/
def cnDigit : Text → Option ℕ
  | [c] => cnDigits.lookup c
  | _ => none

/-- What is made of the first group. -/
def numberOf (raw : Text) : Option ℕ :=
  if raw = [] then none
  else if raw.all Char.isDigit then some (intOf asciiValue raw)
  else if raw.length = 1 ∧ (cnDigit raw).isSome then cnDigit raw
  else if raw = ['十'] then some 10
  else if startswith raw ['十'] ∧ raw.length = 2 ∧ (cnDigit (raw.drop 1)).isSome then
    (cnDigit (raw.drop 1)).map (10 + ·)
  else if raw.getLast? = some '十' ∧ raw.length = 2 ∧ (cnDigit (raw.take 1)).isSome then
    (cnDigit (raw.take 1)).map (· * 10)
  else if '十' ∈ raw then
    -- `raw.partition("十")`
    let left := raw.takeWhile (· != '十')
    let right := raw.drop (left.length + 1)
    let tens := if left ≠ [] then (cnDigit left).getD 1 else 1
    let ones := if right ≠ [] then (cnDigit right).getD 0 else 0
    some (tens * 10 + ones)
  else none

/-- `_parse_outline_heading_chapter`. -/
def parseOutlineHeadingChapter (D : Digits) (line : Text) : Option ℕ :=
  match matchHead D (strip line) with
  | none => none
  | some (.second ds) => some (intOf D.value ds)
  | some (.first raw) => numberOf (strip raw)

/-! ### Lines that are accepted -/

def Blank (w : Text) : Prop := ∀ c ∈ w, isSpace c = true

/-- The marks of a heading, if it has any, and whitespace behind them. -/
def Marks (m : Text) : Prop := m = [] ∨ ∃ k w, m = List.replicate (k + 1) '#' ++ w ∧ Blank w

/-- The lines that the pattern accepts, with the group that takes part. -/
inductive Accepts (D : Digits) : Text → Group → Prop
  | first {m w raw w' : Text} (rest : Text) (hm : Marks m) (hw : Blank w) (hw' : Blank w') (hne : raw ≠ [])
      (hraw : (∀ c ∈ raw, c.isDigit = true) ∨ ∀ c ∈ raw, isCnNumeral c = true) :
      Accepts D (m ++ '第' :: (w ++ (raw ++ (w' ++ '章' :: rest)))) (.first raw)
  | second {m word w ds rest : Text} (hm : Marks m) (hword : word.map Char.toLower = "chapter".toList)
      (hw : Blank w) (hne : ds ≠ []) (hds : ∀ c ∈ ds, (D.value c).isSome)
      (hrest : ∀ c ∈ rest.head?, D.value c = none) : Accepts D (m ++ (word ++ (w ++ (ds ++ rest)))) (.second ds)

/-- The value of the number in a group. -/
inductive Means (D : Digits) : Group → ℕ → Prop
  | arabic {raw : Text} (h : ∀ c ∈ raw, c.isDigit = true) :
      Means D (.first raw) (Nat.ofDigits 10 (raw.map fun c => (asciiValue c).getD 0).reverse)
  | cn (n : Cn) : Means D (.first n.text) n.value
  | latin (ds : Text) : Means D (.second ds) (Nat.ofDigits 10 (ds.map fun c => (D.value c).getD 0).reverse)

/-- A Chinese number from a hundred on, with tens. -/
def Group.HundredTens (v : ℕ) : Group → Prop
  | .first raw => '十' ∈ raw ∧ 100 ≤ v
  | .second _ => False

variable {D : Digits}

/-! ### The match -/

section

variable {p : Char → Bool} {body rest : Text}

theorem dropWhile_body (hbody : ∀ c ∈ body, p c = true) (hrest : ∀ c ∈ rest.head?, p c = false) :
    (body ++ rest).dropWhile p = rest := by
  rw [List.dropWhile_append_of_pos hbody]
  cases rest with
  | nil => rfl
  | cons c rest => rw [List.dropWhile_cons_of_neg (by rw [hrest c rfl]; exact Bool.false_ne_true)]

theorem takeWhile_body (hbody : ∀ c ∈ body, p c = true) (hrest : ∀ c ∈ rest.head?, p c = false) :
    (body ++ rest).takeWhile p = body := by
  rw [List.takeWhile_append_of_pos hbody]
  cases rest with
  | nil => exact List.append_nil _
  | cons c rest =>
    rw [List.takeWhile_cons_of_neg (by rw [hrest c rfl]; exact Bool.false_ne_true), List.append_nil]

end

theorem startswith_hash_of_head {t : Text} (h : t.head? ≠ some '#') : startswith t ['#'] = false := by
  cases t with
  | nil => rfl
  | cons c t =>
    have hc : '#' ≠ c := fun heq => h (by rw [heq]; rfl)
    simp [startswith, List.isPrefixOf, hc]

theorem dropMarks_append {m t : Text} (hm : Marks m) (hhash : t.head? ≠ some '#')
    (hspace : ∀ c ∈ t.head?, isSpace c = false) : dropMarks (m ++ t) = t := by
  rw [dropMarks]
  rcases hm with rfl | ⟨k, w, rfl, hw⟩
  · rw [List.nil_append, startswith_hash_of_head hhash]
    rfl
  · have hstart : startswith (List.replicate (k + 1) '#' ++ w ++ t) ['#'] = true := by
      simp [startswith, List.replicate_succ, List.isPrefixOf]
    have hnext : ∀ c ∈ (w ++ t).head?, (c == '#') = false := by
      intro c hc
      rw [beq_eq_false_iff_ne]
      rintro rfl
      cases w with
      | nil => exact hhash hc
      | cons d w =>
        have hd : isSpace '#' = true := by
          have hhead : d = '#' := Option.some.inj hc
          rw [← hhead]
          exact hw d List.mem_cons_self
        revert hd
        decide
    rw [if_pos hstart, List.append_assoc, dropWhile_body ?_ hnext, lstrip, dropWhile_body hw hspace]
    intro c hc
    rw [List.eq_of_mem_replicate hc]
    rfl

/-- What stands in front is the marks. -/
theorem marks_of_dropMarks (t : Text) : ∃ m, Marks m ∧ t = m ++ dropMarks t := by
  rw [dropMarks]
  split_ifs with hstart
  · cases t with
    | nil => cases hstart
    | cons c t =>
      have hc : c = '#' := by
        have hprefix := List.isPrefixOf_iff_prefix.1 hstart
        exact (List.cons_prefix_cons.1 hprefix).1.symm
      subst hc
      refine ⟨('#' :: t).takeWhile (· == '#') ++ (('#' :: t).dropWhile (· == '#')).takeWhile isSpace,
        .inr ⟨(t.takeWhile (· == '#')).length, (('#' :: t).dropWhile (· == '#')).takeWhile isSpace, ?_,
          fun c hc => List.mem_takeWhile_imp hc⟩, ?_⟩
      · have hall : ∀ c ∈ t.takeWhile (· == '#'), c = '#' := fun c hc =>
          beq_iff_eq.1 (@List.mem_takeWhile_imp _ (· == '#') _ _ hc)
        rw [List.takeWhile_cons_of_pos rfl, List.replicate_succ, ← List.eq_replicate_of_mem hall]
      · rw [lstrip, List.append_assoc, List.takeWhile_append_dropWhile, List.takeWhile_append_dropWhile]
  · exact ⟨[], .inl rfl, rfl⟩

/-- Digits and numeral signs are no whitespace, and not the last sign. -/
theorem digit_plain {c : Char} (h : c.isDigit = true) : isSpace c = false := by
  have hall : ∀ n < 58, 48 ≤ n → isSpace (Char.ofNat n) = false := by decide
  have hrange : 48 ≤ c.toNat ∧ c.toNat ≤ 57 := by
    simp only [Char.isDigit, Bool.and_eq_true, decide_eq_true_eq, ge_iff_le, UInt32.le_iff_toNat_le] at h
    exact h
  rw [← Char.ofNat_toNat c]
  exact hall _ (by omega) hrange.1

theorem cnNumeral_plain {c : Char} (h : isCnNumeral c = true) : isSpace c = false ∧ c.isDigit = false := by
  have hall : ∀ d ∈ "一二三四五六七八九十百千零两".toList, isSpace d = false ∧ d.isDigit = false :=
    List.all_iff_forall_prop.1 (by decide)
  exact hall c (of_decide_eq_true h)

theorem lstrip_blank {w t : Text} (hw : Blank w) (ht : ∀ c ∈ t.head?, isSpace c = false) : lstrip (w ++ t) = t :=
  dropWhile_body hw ht

theorem exists_blank (t : Text) : ∃ w, Blank w ∧ t = w ++ lstrip t :=
  ⟨t.takeWhile isSpace, fun _ hc => List.mem_takeWhile_imp hc, (List.takeWhile_append_dropWhile).symm⟩

theorem rawOf_prefix (u : Text) : rawOf u ++ u.drop (rawOf u).length = u := by
  have hprefix : rawOf u <+: u := by
    rw [rawOf]
    split_ifs
    · exact List.takeWhile_prefix _
    · exact List.takeWhile_prefix _
  exact List.prefix_iff_eq_append.1 hprefix

theorem rawOf_kind (u : Text) :
    (∀ c ∈ rawOf u, c.isDigit = true) ∨ ∀ c ∈ rawOf u, isCnNumeral c = true := by
  rw [rawOf]
  split_ifs
  · exact .inl fun c hc => List.mem_takeWhile_imp hc
  · exact .inr fun c hc => List.mem_takeWhile_imp hc

/-- What stands behind the number: whitespace, or the last sign. -/
theorem head_behind {w' rest : Text} (hw' : Blank w') : ∀ c ∈ (w' ++ '章' :: rest).head?,
    isSpace c = true ∨ c = '章' := by
  intro c hc
  cases w' with
  | nil => exact .inr (Option.some.inj hc).symm
  | cons d w' => exact .inl (Option.some.inj hc ▸ hw' d List.mem_cons_self)

theorem rawOf_append {raw w' rest : Text} (hne : raw ≠ []) (hw' : Blank w')
    (hraw : (∀ c ∈ raw, c.isDigit = true) ∨ ∀ c ∈ raw, isCnNumeral c = true) :
    rawOf (raw ++ (w' ++ '章' :: rest)) = raw := by
  rw [rawOf]
  rcases hraw with hdigits | hcn
  · have htake : (raw ++ (w' ++ '章' :: rest)).takeWhile Char.isDigit = raw := by
      refine takeWhile_body hdigits fun c hc => ?_
      rcases head_behind hw' c hc with hspace | rfl
      · rw [← Bool.not_eq_true]
        intro hdigit
        rw [digit_plain hdigit] at hspace
        cases hspace
      · decide
    rw [htake, if_pos hne]
  · have hnone : (raw ++ (w' ++ '章' :: rest)).takeWhile Char.isDigit = [] := by
      cases raw with
      | nil => exact absurd rfl hne
      | cons c raw =>
        rw [List.cons_append, List.takeWhile_cons_of_neg]
        rw [(cnNumeral_plain (hcn c List.mem_cons_self)).2]
        exact Bool.false_ne_true
    rw [hnone, if_neg (not_not.2 rfl)]
    refine takeWhile_body hcn fun c hc => ?_
    rcases head_behind hw' c hc with hspace | rfl
    · rw [← Bool.not_eq_true]
      intro hsign
      rw [(cnNumeral_plain hsign).1] at hspace
      cases hspace
    · decide

theorem raw_plain {raw : Text} (hraw : (∀ c ∈ raw, c.isDigit = true) ∨ ∀ c ∈ raw, isCnNumeral c = true) :
    ∀ c ∈ raw, isSpace c = false := by
  intro c hc
  rcases hraw with hdigits | hcn
  · exact digit_plain (hdigits c hc)
  · exact (cnNumeral_plain (hcn c hc)).1

theorem matchHead_sign {t u : Text} (h : dropMarks t = '第' :: u) : matchHead D t = matchFirst u := by
  rw [matchHead, h]
  rfl

theorem matchHead_word {t : Text} (h : (dropMarks t).head? ≠ some '第') :
    matchHead D t = matchSecond D (dropMarks t) := by
  rw [matchHead]
  split
  · next u heq =>
    rw [heq] at h
    exact absurd rfl h
  · rfl

theorem toLower_c {c : Char} (h : c.toLower = 'c') : c = 'c' ∨ c = 'C' := by
  delta Char.toLower at h
  split at h
  · rename_i hletter
    right
    have hval : (c.val.toNat + 32) % 2 ^ 32 = 99 := congrArg (fun d : Char => d.val.toNat) h
    have hhigh : c.val.toNat ≤ 90 := hletter.2
    have hnat : c.toNat = 67 := by
      change c.val.toNat = 67
      omega
    rw [← Char.ofNat_toNat c, hnat]
  · exact .inl h

/-- A word that is `chapter` but for case. -/
theorem word_head {word : Text} (hword : word.map Char.toLower = "chapter".toList) :
    word.length = 7 ∧ (word.head? = some 'c' ∨ word.head? = some 'C') := by
  have hlen := congrArg List.length hword
  rw [List.length_map] at hlen
  cases word with
  | nil => cases hlen
  | cons c word =>
    refine ⟨hlen, ?_⟩
    rw [List.head?_cons, Option.some.injEq, Option.some.injEq]
    exact toLower_c (List.cons.inj hword).1

/-- A line of the pattern is a match. -/
theorem matchHead_of_accepts {t : Text} {g : Group} (h : Accepts D t g) : matchHead D t = some g := by
  cases h with
  | @first m w raw w' rest hm hw hw' hne hraw =>
    have hspace : ∀ c ∈ (raw ++ (w' ++ '章' :: rest)).head?, isSpace c = false := by
      intro c hc
      rw [List.head?_append_of_ne_nil _ hne] at hc
      exact raw_plain hraw c (List.mem_of_mem_head? hc)
    have hsign : ∀ c ∈ ('章' :: rest).head?, isSpace c = false := by
      rintro c ⟨⟩
      decide
    have hhead : ∀ c ∈ ('第' :: (w ++ (raw ++ (w' ++ '章' :: rest)))).head?, isSpace c = false := by
      rintro c ⟨⟩
      decide
    rw [matchHead_sign (dropMarks_append hm (by simp) hhead), matchFirst, lstrip_blank hw hspace,
      rawOf_append hne hw' hraw, List.drop_left, lstrip_blank hw' hsign, if_pos ⟨hne, rfl⟩]
  | @second m word w ds rest hm hword hw hne hds hrest =>
    obtain ⟨hlen, hhead⟩ := word_head hword
    have hwne : word ≠ [] := by
      rintro rfl
      cases hlen
    rw [← @List.head?_append_of_ne_nil _ word (w ++ (ds ++ rest)) hwne] at hhead
    have hplain : ∀ d ∈ (word ++ (w ++ (ds ++ rest))).head?, isSpace d = false := by
      intro d hd
      rcases hhead with h | h
      · rw [h] at hd
        rw [← Option.some.inj hd]
        decide
      · rw [h] at hd
        rw [← Option.some.inj hd]
        decide
    have hdrop : dropMarks (m ++ (word ++ (w ++ (ds ++ rest)))) = word ++ (w ++ (ds ++ rest)) := by
      refine dropMarks_append hm ?_ hplain
      rcases hhead with h | h
      · simp [h]
      · simp [h]
    have hdigits : ∀ c ∈ (ds ++ rest).head?, isSpace c = false := by
      intro c hc
      rw [List.head?_append_of_ne_nil _ hne] at hc
      rw [← Bool.not_eq_true]
      intro hspace
      have hsome := hds c (List.mem_of_mem_head? hc)
      rw [D.blank c hspace] at hsome
      cases hsome
    rw [matchHead_word, hdrop, matchSecond]
    · rw [← hlen, List.take_left, List.drop_left, if_pos hword, lstrip_blank hw hdigits, takeWhile_body hds]
      · exact if_neg hne
      · intro c hc
        rw [hrest c hc]
        rfl
    · rw [hdrop]
      rcases hhead with h | h
      · simp [h]
      · simp [h]

/-- A match is a line of the pattern. -/
theorem accepts_of_matchHead {t : Text} {g : Group} (h : matchHead D t = some g) : Accepts D t g := by
  obtain ⟨m, hm, ht⟩ := marks_of_dropMarks t
  rw [matchHead] at h
  generalize dropMarks t = body at h ht
  subst ht
  split at h
  · next u =>
    rw [matchFirst] at h
    obtain ⟨w, hw, hu⟩ := exists_blank u
    split_ifs at h with hmatch
    obtain ⟨hne, hsign⟩ := hmatch
    cases h
    obtain ⟨w', hw', hbehind⟩ := exists_blank ((lstrip u).drop (rawOf (lstrip u)).length)
    obtain ⟨rest, hrest⟩ := List.isPrefixOf_iff_prefix.1 hsign
    have hcons : '章' :: rest = lstrip ((lstrip u).drop (rawOf (lstrip u)).length) := hrest
    have hline : u = w ++ (rawOf (lstrip u) ++ (w' ++ '章' :: rest)) := by
      rw [hcons, ← hbehind, rawOf_prefix, ← hu]
    have haccepts := @Accepts.first D _ _ _ _ rest hm hw hw' hne (rawOf_kind (lstrip u))
    rwa [← hline] at haccepts
  · rw [matchSecond] at h
    split_ifs at h with hword
    dsimp only at h
    split_ifs at h with hnil
    cases h
    obtain ⟨w, hw, hu⟩ := exists_blank (body.drop 7)
    have hbehind : ∀ c ∈ ((lstrip (body.drop 7)).dropWhile fun c => (D.value c).isSome).head?,
        D.value c = none := by
      intro c hc
      have hnot := List.head?_dropWhile_not (fun c => (D.value c).isSome) (lstrip (body.drop 7))
      rw [Option.mem_def.1 hc] at hnot
      simpa using hnot
    have haccepts := Accepts.second hm hword hw hnil
      (fun c hc => @List.mem_takeWhile_imp _ (fun c => (D.value c).isSome) _ _ hc) hbehind
    rwa [List.takeWhile_append_dropWhile, ← hu, List.take_append_drop] at haccepts

/-! ### The numbers -/

theorem intOf_eq (value : Char → Option ℕ) (ds : Text) :
    intOf value ds = Nat.ofDigits 10 (ds.map fun c => (value c).getD 0).reverse := by
  induction ds using List.reverseRecOn with
  | nil => rfl
  | append_singleton ds c ih =>
    rw [intOf] at ih ⊢
    rw [List.foldl_append, ih, List.map_append, List.reverse_append, List.map_singleton, List.reverse_singleton,
      List.singleton_append, Nat.ofDigits_cons]
    exact Nat.add_comm _ _

/-- A sign from a hundred on is not in the table. -/
theorem cnDigit_big {left : Text} (h : '千' ∈ left ∨ '百' ∈ left) : cnDigit left = none := by
  cases left with
  | nil => rfl
  | cons c left =>
    cases left with
    | nil =>
      rw [List.mem_singleton, List.mem_singleton] at h
      rcases h with rfl | rfl
      · decide
      · decide
    | cons d left => rfl

/-- A numeral without tens is a digit, or rejected. -/
theorem numberOf_no_tens {raw : Text} (hne : raw ≠ []) (hdigit : raw.all Char.isDigit = false) (hten : '十' ∉ raw) :
    numberOf raw = cnDigit raw := by
  have hstart : ¬ startswith raw ['十'] = true := by
    intro h
    obtain ⟨rest, rfl⟩ := List.isPrefixOf_iff_prefix.1 h
    simp at hten
  have hend : raw.getLast? ≠ some '十' := fun h => hten (List.mem_of_getLast? h)
  have hone : raw ≠ ['十'] := by
    rintro rfl
    simp at hten
  rw [numberOf, if_neg hne, if_neg (by simp [hdigit])]
  by_cases hsingle : raw.length = 1 ∧ (cnDigit raw).isSome
  · rw [if_pos hsingle]
  · rw [if_neg hsingle, if_neg hone, if_neg (fun h => hstart h.1), if_neg (fun h => hend h.1), if_neg hten]
    cases hvalue : cnDigit raw with
    | none => rfl
    | some v =>
      have hlen : raw.length = 1 := by
        cases raw with
        | nil => exact absurd rfl hne
        | cons c raw =>
          cases raw with
          | nil => rfl
          | cons d raw => cases hvalue
      exact absurd ⟨hlen, by rw [hvalue]; rfl⟩ hsingle

/-- Behind signs from a hundred on, tens count as one ten. -/
theorem numberOf_big {left right : Text} (hbig : '千' ∈ left ∨ '百' ∈ left) (hten : '十' ∉ left) :
    numberOf (left ++ '十' :: right) = some (10 + (if right ≠ [] then (cnDigit right).getD 0 else 0)) := by
  have hleft : left ≠ [] := by
    rintro rfl
    simp at hbig
  obtain ⟨a, left', rfl⟩ := List.exists_cons_of_ne_nil hleft
  have hnot : ¬ (a :: left' ++ '十' :: right).all Char.isDigit = true := by
    rw [List.all_append]
    simp [Char.isDigit]
  have ha : a ≠ '十' := fun h => hten (by rw [h]; exact List.mem_cons_self)
  have hstart : ¬ startswith (a :: left' ++ '十' :: right) ['十'] = true := by
    simp [startswith, List.isPrefixOf, Ne.symm ha]
  have htake : (a :: left' ++ '十' :: right).takeWhile (· != '十') = a :: left' := by
    refine takeWhile_body (fun c hc => ?_) ?_
    · rw [bne_iff_ne]
      rintro rfl
      exact hten hc
    · rintro c ⟨⟩
      rfl
  have htwo : ¬ ((a :: left' ++ '十' :: right).getLast? = some '十' ∧ (a :: left' ++ '十' :: right).length = 2 ∧
      (cnDigit ((a :: left' ++ '十' :: right).take 1)).isSome) := by
    rintro ⟨-, hlen, hvalue⟩
    have hnil : left' = [] := by
      simp only [List.length_append, List.length_cons] at hlen
      exact List.length_eq_zero_iff.1 (by omega)
    subst hnil
    rw [List.cons_append, List.nil_append, List.take_succ_cons, List.take_zero, cnDigit_big hbig] at hvalue
    cases hvalue
  have hlong : ¬ ((a :: left' ++ '十' :: right).length = 1 ∧ (cnDigit (a :: left' ++ '十' :: right)).isSome) := by
    rintro ⟨hlen, -⟩
    simp only [List.length_append, List.length_cons] at hlen
    omega
  have hone : a :: left' ++ '十' :: right ≠ ['十'] := by
    intro h
    exact ha (List.cons.inj h).1
  have hright : (a :: left' ++ '十' :: right).drop ((a :: left').length + 1) = right := by
    rw [← List.drop_drop, List.drop_left]
    rfl
  have hne : a :: left' ++ '十' :: right ≠ [] := by simp
  rw [numberOf, if_neg hne, if_neg hnot, if_neg hlong, if_neg hone, if_neg (fun h => hstart h.1),
    if_neg htwo, if_pos (by simp)]
  dsimp only
  rw [htake, hright, cnDigit_big hbig, if_pos (List.cons_ne_nil _ _)]
  rfl

/-- Tens alone, or with signs around them. -/
theorem numberOf_tens (c : Coef) (o : Option Sign) :
    numberOf (c.text ++ '十' :: onesText o) = some (10 * c.value + o.elim 0 fun s => s.val.2) := by
  have hone : ∀ x ∈ signs, numberOf ['十', x.1] = some (10 + x.2) ∧ numberOf [x.1, '十'] = some (10 * x.2) := by
    decide
  have hboth : ∀ x ∈ signs, ∀ y ∈ signs, numberOf [x.1, '十', y.1] = some (10 * x.2 + y.2) := by
    decide
  cases c with
  | none =>
    cases o with
    | none => decide
    | some s => exact (hone _ s.property).1
  | some s =>
    cases o with
    | none => exact (hone _ s.property).2
    | some r => exact hboth _ s.property _ r.property

theorem sign_value (s : Sign) : cnDigit [s.val.1] = some s.val.2 := by
  have hall : ∀ x ∈ signs, cnDigit [x.1] = some x.2 := by decide
  exact hall _ s.property

theorem ones_value (o : Option Sign) : (if onesText o ≠ [] then (cnDigit (onesText o)).getD 0 else 0) =
    o.elim 0 fun s => s.val.2 := by
  cases o with
  | none => rfl
  | some s =>
    rw [onesText, if_pos (List.cons_ne_nil _ _), sign_value]
    rfl

theorem big_mem_text {n : Places} (h : ¬ n.value < 100) : '千' ∈ n.text ∨ '百' ∈ n.text := by
  rw [Places.text, List.append_assoc]
  exact (big_mem_front h).imp (List.mem_append_left _) (List.mem_append_left _)

/-- Below a hundred and without tens there are ones. -/
theorem ones_of_small {n : Places} (htens : n.tens = none) (h : n.value < 100) : ∃ s, n.ones = some s := by
  obtain ⟨hth, hh⟩ := (value_lt_hundred_iff n).1 h
  have hany := n.any
  rw [hth, hh, htens] at hany
  simpa [Option.isSome_iff_exists] using hany

theorem numberOf_places_no_tens {n : Places} (htens : n.tens = none) : numberOf n.text = cnDigit n.text := by
  have hten : '十' ∉ n.text := by
    rw [ten_mem_iff, htens]
    exact Bool.false_ne_true
  by_cases hsmall : n.value < 100
  · obtain ⟨s, hones⟩ := ones_of_small htens hsmall
    have htext : n.text = [s.val.1] := by
      rw [Places.text, front_of_small hsmall, htens, hones]
      rfl
    have hall : ∀ x ∈ signs, x.1.isDigit = false := by decide
    rw [htext] at hten ⊢
    exact numberOf_no_tens (List.cons_ne_nil _ _) (by simpa using hall _ s.property) hten
  · have hbig := big_mem_text hsmall
    refine numberOf_no_tens ?_ ?_ hten
    · intro hnil
      simp [hnil] at hbig
    · rw [List.all_eq_false]
      rcases hbig with h | h
      · exact ⟨_, h, by decide⟩
      · exact ⟨_, h, by decide⟩

/-- Where a numeral has its number, if it has one, its value is below a hundred or it has no tens. -/
theorem numberOf_cn_iff (n : Cn) :
    (∀ v, numberOf n.text = some v → v = n.value) ↔ ¬ ('十' ∈ n.text ∧ 100 ≤ n.value) := by
  cases n with
  | zero => exact iff_of_true (by decide) (by decide)
  | places n =>
    rw [Cn.text, Cn.value, ten_mem_iff]
    cases htens : n.tens with
    | none =>
      refine iff_of_true (fun v hv => ?_) (by simp)
      rw [numberOf_places_no_tens htens] at hv
      by_cases hsmall : n.value < 100
      · obtain ⟨s, hones⟩ := ones_of_small htens hsmall
        rw [Places.text, front_of_small hsmall, htens, hones] at hv
        have hvalue : some s.val.2 = some v := (sign_value s).symm.trans hv
        obtain ⟨hth, hh⟩ := (value_lt_hundred_iff n).1 hsmall
        rw [← Option.some.inj hvalue, Places.value, hth, hh, htens, hones]
        simp
      · rw [cnDigit_big (big_mem_text hsmall)] at hv
        cases hv
    | some c =>
      have htext : n.text = n.front ++ c.text ++ '十' :: onesText n.ones := by
        rw [Places.text, htens, part, ← List.append_assoc, List.append_assoc (n.front ++ c.text)]
        rfl
      by_cases hsmall : n.value < 100
      · refine iff_of_true (fun v hv => ?_) (fun h => absurd h.2 (Nat.not_le.2 hsmall))
        obtain ⟨hth, hh⟩ := (value_lt_hundred_iff n).1 hsmall
        rw [htext, front_of_small hsmall, List.nil_append, numberOf_tens] at hv
        rw [← Option.some.inj hv, Places.value, hth, hh, htens]
        simp
      · refine iff_of_false (fun hall => ?_) (fun h => h ⟨rfl, Nat.not_lt.1 hsmall⟩)
        have hbig : '千' ∈ n.front ++ c.text ∨ '百' ∈ n.front ++ c.text :=
          (big_mem_front hsmall).imp (List.mem_append_left _) (List.mem_append_left _)
        have hten : '十' ∉ n.front ++ c.text := by
          rw [List.mem_append, not_or]
          exact ⟨ten_not_mem_front n, ten_not_mem_coef c⟩
        have hvalue := @numberOf_big _ (onesText n.ones) hbig hten
        rw [← htext, ones_value] at hvalue
        have hless := ones_lt n.ones
        have heq := hall _ hvalue
        omega

/-- The number between the signs is there, and has no whitespace in it. -/
theorem accepted_raw {t raw : Text} (h : Accepts D t (.first raw)) : raw ≠ [] ∧ strip raw = raw := by
  cases h with
  | first rest hm hw hw' hne hraw =>
    have hplain := raw_plain hraw
    refine ⟨hne, Tight.strip_eq ⟨fun c hc => ?_, fun c hc => ?_⟩⟩
    · exact hplain c (List.mem_of_mem_head? hc)
    · exact hplain c (List.mem_of_getLast? hc)

/-- NUMBERS: the number of a line that the pattern accepts, if it has one, is the value of what stands there, just
    where that is no Chinese numeral from a hundred on that has tens. -/
theorem heading_number_iff (D : Digits) (line : Text) (g : Group) (v : ℕ) (hline : Accepts D (strip line) g)
    (hvalue : Means D g v) :
    (∀ k, parseOutlineHeadingChapter D line = some k → k = v) ↔ ¬ g.HundredTens v := by
  rw [parseOutlineHeadingChapter, matchHead_of_accepts hline]
  cases hvalue with
  | latin ds =>
    refine iff_of_true (fun k hk => ?_) id
    rw [← Option.some.inj hk, intOf_eq]
  | @arabic raw hdigits =>
    obtain ⟨hne, hstrip⟩ := accepted_raw hline
    dsimp only
    rw [hstrip]
    refine iff_of_true (fun k hk => ?_) (fun h => ?_)
    · rw [numberOf, if_neg hne, if_pos (List.all_eq_true.2 hdigits)] at hk
      rw [← Option.some.inj hk, intOf_eq]
    · have hten := hdigits '十' h.1
      revert hten
      decide
  | cn n =>
    obtain ⟨-, hstrip⟩ := accepted_raw hline
    dsimp only
    rw [hstrip]
    exact numberOf_cn_iff n

/-- Of ASCII digits. -/
def asciiDigits : Digits where
  value := asciiValue
  blank := by
    intro c hspace
    rw [asciiValue, if_neg]
    intro hdigit
    rw [digit_plain hdigit] at hspace
    cases hspace

/-- A heading with the number 23. -/
theorem heading_twenty_three : Accepts asciiDigits (strip "## 第二十三章 归来".toList) (.first "二十三".toList) ∧
    (∀ k, parseOutlineHeadingChapter asciiDigits "## 第二十三章 归来".toList = some k → k = 23) := by
  have hline : Accepts asciiDigits (strip "## 第二十三章 归来".toList) (.first "二十三".toList) :=
    accepts_of_matchHead (by decide +kernel)
  have hvalue : Means asciiDigits (.first "二十三".toList) 23 :=
    .cn (.places ⟨none, none, some (some ⟨('二', 2), by decide⟩), some ⟨('三', 3), by decide⟩, by decide⟩)
  exact ⟨hline, (heading_number_iff _ _ _ _ hline hvalue).2 (by rintro ⟨-, h⟩; omega)⟩

/-- The chapter 120 is read as 10. -/
theorem hundred_twenty_is_ten : ¬ ∀ (D : Digits) (line : Text) (g : Group) (v : ℕ), Accepts D (strip line) g →
    Means D g v → ∀ k, parseOutlineHeadingChapter D line = some k → k = v := by
  intro h
  have hline : Accepts asciiDigits (strip "第一百二十章".toList) (.first "一百二十".toList) :=
    accepts_of_matchHead (by decide +kernel)
  have hvalue : Means asciiDigits (.first "一百二十".toList) 120 :=
    .cn (.places ⟨none, some (some ⟨('一', 1), by decide⟩), some (some ⟨('二', 2), by decide⟩), none, by decide⟩)
  have hten := h _ _ _ _ hline hvalue 10 (by decide +kernel)
  cases hten

end AgentLangraph.Artifact.Outline
