import AgentLangraph.Artifact.Precision

/-! The rough match of an edit (`_find_fuzzy_span`). The old text is found in the joined normalised lines,
    and the position there is read as a position in the raw line: this is right where the normalisation
    has taken nothing out of the line before the end of the match.

        raw     ␣␣foo␣bar     (0, 7) is ␣␣foo␣b
        norm    foo␣bar       (0, 7)              -/

namespace AgentLangraph.Artifact
open PyText

/-! ### Folding white space -/

/-- White space stands alone; the flag says that a run of it is open, as at the beginning of a line. -/
def Spaced : Bool → Text → Prop
  | _, [] => True
  | inRun, c :: t => if isSpace c then inRun = false ∧ Spaced true t else Spaced false t

instance decidableSpaced : ∀ (inRun : Bool) (t : Text), Decidable (Spaced inRun t)
  | _, [] => inferInstanceAs (Decidable True)
  | inRun, c :: t =>
    have := decidableSpaced true t
    have := decidableSpaced false t
    inferInstanceAs (Decidable (if isSpace c then inRun = false ∧ Spaced true t else Spaced false t))

/-- The character that folding writes for one that is not taken out. -/
def blank (c : Char) : Char := if isSpace c then ' ' else c

/-- Whether a run is open after a text. -/
def openAfter : Bool → Text → Bool
  | inRun, [] => inRun
  | _, c :: t => openAfter (isSpace c) t

theorem isSpace_blank (c : Char) : isSpace (blank c) = isSpace c := by
  rw [blank]
  split_ifs with h
  · rw [h]
    rfl
  · rfl

theorem length_foldSpace_le (inRun : Bool) (t : Text) : (foldSpace inRun t).length ≤ t.length := by
  induction t generalizing inRun with
  | nil => exact le_rfl
  | cons c t ih =>
    rw [foldSpace]
    split_ifs
    · exact (ih true).trans (Nat.le_succ _)
    · exact Nat.succ_le_succ (ih true)
    · exact Nat.succ_le_succ (ih false)

theorem foldSpace_append (inRun : Bool) (t r : Text) :
    foldSpace inRun (t ++ r) = foldSpace inRun t ++ foldSpace (openAfter inRun t) r := by
  induction t generalizing inRun with
  | nil => rfl
  | cons c t ih =>
    rw [List.cons_append, foldSpace, foldSpace, openAfter]
    by_cases hc : isSpace c
    · rw [if_pos hc, if_pos hc, hc, ih true]
      split_ifs <;> rfl
    · rw [if_neg hc, if_neg hc, Bool.eq_false_iff.2 hc, ih false]
      rfl

/-- Folding takes nothing out of a text whose white space stands alone. -/
theorem Spaced.foldSpace_eq {inRun : Bool} {t : Text} (h : Spaced inRun t) :
    foldSpace inRun t = t.map blank := by
  induction t generalizing inRun with
  | nil => rfl
  | cons c t ih =>
    rw [Spaced] at h
    rw [foldSpace, List.map_cons, blank]
    split_ifs at h ⊢ with hc hrun
    · exact absurd (h.1.symm.trans hrun) (by simp)
    · rw [ih h.2]
    · rw [ih h]

theorem spaced_of_length {inRun : Bool} {t : Text} (h : (foldSpace inRun t).length = t.length) :
    Spaced inRun t := by
  induction t generalizing inRun with
  | nil => trivial
  | cons c t ih =>
    rw [foldSpace] at h
    rw [Spaced]
    split_ifs at h ⊢ with hc hrun
    · have := length_foldSpace_le true t
      simp only [List.length_cons] at h
      omega
    · exact ⟨by simpa using hrun, ih (by simpa using h)⟩
    · exact ih (by simpa using h)

theorem spaced_append {inRun : Bool} {t r : Text} :
    Spaced inRun (t ++ r) ↔ Spaced inRun t ∧ Spaced (openAfter inRun t) r := by
  induction t generalizing inRun with
  | nil => exact ⟨fun h => ⟨trivial, h⟩, fun h => h.2⟩
  | cons c t ih =>
    rw [List.cons_append, Spaced, Spaced, openAfter]
    by_cases hc : isSpace c
    · rw [if_pos hc, if_pos hc, hc, ih, and_assoc]
    · rw [if_neg hc, if_neg hc, Bool.eq_false_iff.2 hc, ih]

/-- Before a text that does not begin with white space it does not matter whether a run is open. -/
theorem spaced_of_head {t : Text} (h : ∀ c ∈ t.head?, isSpace c = false) (inRun inRun' : Bool)
    (hs : Spaced inRun t) : Spaced inRun' t := by
  cases t with
  | nil => trivial
  | cons c t =>
    have hc : ¬ isSpace c = true := by simp [h c rfl]
    rw [Spaced, if_neg hc] at hs ⊢
    exact hs

theorem foldSpace_of_head {t : Text} (h : ∀ c ∈ t.head?, isSpace c = false) (inRun inRun' : Bool) :
    foldSpace inRun t = foldSpace inRun' t := by
  cases t with
  | nil => rfl
  | cons c t =>
    have hc : ¬ isSpace c = true := by simp [h c rfl]
    rw [foldSpace, foldSpace, if_neg hc, if_neg hc]

theorem head_map_blank {t : Text} (h : ∀ c ∈ (t.map blank).head?, isSpace c = false) :
    ∀ c ∈ t.head?, isSpace c = false := by
  cases t with
  | nil => simp
  | cons c t =>
    intro d hd
    obtain rfl : c = d := by simpa using hd
    rw [← isSpace_blank]
    exact h (blank c) rfl

/-! ### Taking the ends off -/

theorem length_lstrip_le (t : Text) : (lstrip t).length ≤ t.length :=
  (List.dropWhile_suffix isSpace).length_le

theorem strip_prefix_lstrip (t : Text) : strip t <+: lstrip t := List.rdropWhile_prefix isSpace (lstrip t)

theorem length_strip_le (t : Text) : (strip t).length ≤ t.length :=
  (strip_prefix_lstrip t).length_le.trans (length_lstrip_le t)

/-- White space at the end goes no further back than to a text that does not end with it. -/
theorem rstrip_append {t r : Text} (hlast : ∀ c ∈ t.getLast?, isSpace c = false) :
    ∃ s, rstrip (t ++ r) = t ++ s := by
  induction r using List.reverseRecOn with
  | nil => exact ⟨[], by rw [List.append_nil, rstrip_eq_self hlast]⟩
  | append_singleton r c ih =>
    by_cases hc : isSpace c
    · obtain ⟨s, hs⟩ := ih
      refine ⟨s, ?_⟩
      rw [← hs, ← List.append_assoc, rstrip, List.rdropWhile_concat_pos _ _ _ hc, rstrip]
    · exact ⟨r ++ [c], by rw [← List.append_assoc, rstrip, List.rdropWhile_concat_neg _ _ _ hc]⟩

theorem lstrip_append_of_head {t r : Text} (hhead : ∀ c ∈ r.head?, isSpace c = false) :
    lstrip (t ++ r) = lstrip t ++ r := by
  induction t with
  | nil => exact lstrip_eq_self hhead
  | cons c t ih =>
    by_cases hc : isSpace c
    · rw [List.cons_append, lstrip, List.dropWhile_cons_of_pos hc, lstrip, List.dropWhile_cons_of_pos hc]
      exact ih
    · rw [List.cons_append, lstrip_cons_of_not_space (by simpa using hc),
        lstrip_cons_of_not_space (by simpa using hc), List.cons_append]

theorem lstrip_eq_of_length {t : Text} (h : (lstrip t).length = t.length) : lstrip t = t :=
  (List.dropWhile_suffix isSpace).eq_of_length h

/-! ### Taking escapes out -/

/-- The escapes that `_normalize_edit_text` takes out. -/
def unescapeAll (t : Text) : Text :=
  unescape (["-", "_", "*", "`", "."].foldl (fun acc c => replace acc ('\\' :: c.toList) c.toList) t)

theorem normalizeEditText_eq (m : Matcher) (t : Text) :
    normalizeEditText m t = strip (foldSpace false (m.nfkc (unescapeAll t))) := rfl

/-- A backslash among the first characters escapes nothing: white space follows it, or the text ends. -/
def EscapeFree (k : ℕ) (t : Text) : Prop :=
  ∀ i < k, t[i]? = some '\\' → ∀ c, t[i + 1]? = some c → isSpace c = true

/-- A change of a text that begins only after its first characters. -/
structure KeepsStart (k : ℕ) (t t' : Text) : Prop where
  take_eq : t'.take k = t.take k
  escapeFree : EscapeFree k t'
  whole : t.length ≤ k → t' = t

theorem KeepsStart.refl {k : ℕ} {t : Text} (h : EscapeFree k t) : KeepsStart k t t := ⟨rfl, h, fun _ => rfl⟩

theorem KeepsStart.trans {k : ℕ} {t t' t'' : Text} (h : KeepsStart k t t') (h' : KeepsStart k t' t'') :
    KeepsStart k t t'' := by
  refine ⟨h'.take_eq.trans h.take_eq, h'.escapeFree, fun hk => ?_⟩
  have ht := h.whole hk
  rw [h'.whole (by rw [ht]; exact hk), ht]

theorem replace_cases {old new t : Text} (hold : old ≠ []) : replace t old new = t ∨
    ∃ i rest, find old t = some i ∧ replace t old new = t.take i ++ new ++ rest := by
  rw [replace, if_neg hold]
  cases t.length with
  | zero => exact .inl rfl
  | succ fuel =>
    rw [replaceFrom]
    cases hf : find old t with
    | none => exact .inl rfl
    | some i => exact .inr ⟨i, _, rfl, rfl⟩

/-- Taking the backslash off a character changes nothing before the first such escape. -/
theorem keeps_replace {k : ℕ} {t : Text} {c : Char} (hc : isSpace c = false) (h : EscapeFree k t) :
    KeepsStart k t (replace t ['\\', c] [c]) := by
  have hcases : replace t ['\\', c] [c] = t ∨ ∃ i rest, find ['\\', c] t = some i ∧
      replace t ['\\', c] [c] = t.take i ++ [c] ++ rest := replace_cases (by simp)
  rcases hcases with heq | ⟨i, rest, hf, heq⟩
  · rw [heq]
    exact .refl h
  · obtain ⟨pre, post, rfl, rfl⟩ := split_of_find hf
    have hk : k ≤ pre.length := by
      by_contra hlt
      have := h pre.length (by omega) (by simp) c (by simp)
      rw [hc] at this
      cases this
    rw [heq, take_occurrence]
    refine ⟨?_, ?_, fun hlen => ?_⟩
    · rw [List.append_assoc, List.append_assoc, List.take_append_of_le_length hk,
        List.take_append_of_le_length hk]
    · intro i hi hslash d hd
      have hfirst : (pre ++ ['\\', c] ++ post)[i]? = some '\\' := by
        rw [List.append_assoc, List.getElem?_append_left (by omega)] at hslash ⊢
        exact hslash
      rcases Nat.lt_or_ge (i + 1) pre.length with hlt | hge
      · refine h i hi hfirst d ?_
        rw [List.append_assoc, List.getElem?_append_left hlt] at hd ⊢
        exact hd
      · -- a backslash right before the escape would itself have escaped its backslash
        have hslash' := h i hi hfirst '\\' (by
          rw [List.append_assoc, List.getElem?_append_right hge, show i + 1 - pre.length = 0 by omega]
          rfl)
        exact absurd hslash' (by decide)
    · simp at hlen
      omega

theorem keeps_unescape {k : ℕ} {t : Text} (h : EscapeFree k t) :
    (unescape t).take k = t.take k ∧ (t.length ≤ k → unescape t = t) := by
  induction t generalizing k with
  | nil => exact ⟨rfl, fun _ => rfl⟩
  | cons c t ih =>
    cases t with
    | nil => exact ⟨rfl, fun _ => rfl⟩
    | cons d t =>
      rw [unescape]
      cases k with
      | zero => exact ⟨rfl, fun hk => by simp at hk⟩
      | succ k =>
        have hno : ¬ (c = '\\' ∧ isSpace d = false) := by
          rintro ⟨rfl, hd⟩
          have := h 0 (by omega) rfl d rfl
          rw [hd] at this
          cases this
        obtain ⟨htake, hwhole⟩ := ih (k := k) fun i hi => h (i + 1) (by omega)
        rw [if_neg hno, List.take_succ_cons, List.take_succ_cons, htake]
        refine ⟨rfl, fun hk => ?_⟩
        rw [hwhole (by simpa using hk)]

/-- Taking the backslashes off some marks, one mark after the other. -/
theorem keeps_replaceAll {k : ℕ} : ∀ {marks : List String} {t : Text},
    (∀ c ∈ marks, ∃ d, c.toList = [d] ∧ isSpace d = false) → EscapeFree k t →
    KeepsStart k t (marks.foldl (fun acc c => replace acc ('\\' :: c.toList) c.toList) t)
  | [], _, _, h => .refl h
  | c :: marks, t, hmarks, h => by
    rw [List.forall_mem_cons] at hmarks
    obtain ⟨⟨d, hd, hsolid⟩, hrest⟩ := hmarks
    rw [List.foldl_cons, hd]
    have hfirst := keeps_replace hsolid h
    exact hfirst.trans (keeps_replaceAll hrest hfirst.escapeFree)

theorem keeps_unescapeAll {k : ℕ} {t : Text} (h : EscapeFree k t) :
    (unescapeAll t).take k = t.take k ∧ (t.length ≤ k → unescapeAll t = t) := by
  have hmarks : ∀ c ∈ ["-", "_", "*", "`", "."], ∃ d, c.toList = [d] ∧ isSpace d = false := by
    intro c hc
    simp only [List.mem_cons, List.not_mem_nil, or_false] at hc
    rcases hc with rfl | rfl | rfl | rfl | rfl
    · exact ⟨'-', rfl, rfl⟩
    · exact ⟨'_', rfl, rfl⟩
    · exact ⟨'*', rfl, rfl⟩
    · exact ⟨'\x60', rfl, rfl⟩
    · exact ⟨'.', rfl, rfl⟩
  have hall := keeps_replaceAll hmarks h
  obtain ⟨htake, hwhole⟩ := keeps_unescape hall.escapeFree
  refine ⟨htake.trans hall.take_eq, fun hk => ?_⟩
  have heq := hall.whole hk
  refine (hwhole ?_).trans heq
  rw [heq]
  exact hk

/-! ### The span of a match -/

/-- The normalised lines of a target, joined. -/
def joinedLines (m : Matcher) (target : Text) : Text :=
  (splitlinesKeep target).flatMap (normalizeEditText m)

/-- The first match of the normalised old text lies on one line, so many characters into its normalised
    text. -/
structure FoundOn (m : Matcher) (target oldText : Text) (linesBefore : List Text) (line : Text)
    (linesAfter : List Text) (offset : ℕ) : Prop where
  lines_eq : splitlinesKeep target = linesBefore ++ line :: linesAfter
  found : find (normalizeEditText m oldText) (joinedLines m target) =
    some ((linesBefore.flatMap (normalizeEditText m)).length + offset)
  within : offset + (normalizeEditText m oldText).length ≤ (normalizeEditText m line).length

/-- The span of a match that lies on one line: its offsets in the normalised line, in the line. -/
theorem spanFrom_within (norm : Text → Text) {line : Text} {linesAfter : List Text} {offset len : ℕ}
    (hlen : 0 < len) (hwithin : offset + len ≤ (norm line).length) :
    ∀ (linesBefore : List Text) (cursor normCursor : ℕ) (span : ℕ × ℕ),
      spanFrom (normCursor + (linesBefore.flatMap norm).length + offset) len
        ((linesBefore ++ line :: linesAfter).map fun l => (l, norm l)) cursor normCursor span =
      (cursor + linesBefore.flatten.length + offset,
        cursor + linesBefore.flatten.length + min line.length (offset + len)) := by
  intro linesBefore
  induction linesBefore with
  | nil =>
    intro cursor normCursor span
    rw [List.nil_append, List.map_cons, spanFrom]
    simp only [List.flatMap_nil, List.flatten_nil, List.length_nil, Nat.add_zero]
    rw [if_pos (by omega), if_pos (by omega)]
    congr 2
    · omega
    · congr 1
      omega
  | cons l linesBefore ih =>
    intro cursor normCursor span
    rw [List.cons_append, List.map_cons, spanFrom]
    simp only [List.flatMap_cons, List.flatten_cons, List.length_append]
    rw [if_neg (by omega), if_neg (by omega)]
    simpa only [Nat.add_assoc] using ih (cursor + l.length) (normCursor + (norm l).length) span

variable {m : Matcher} {target oldText : Text}

theorem FoundOn.joined_eq {linesBefore linesAfter : List Text} {line : Text} {offset : ℕ}
    (h : FoundOn m target oldText linesBefore line linesAfter offset) :
    joinedLines m target = linesBefore.flatMap (normalizeEditText m) ++ normalizeEditText m line ++
      linesAfter.flatMap (normalizeEditText m) := by
  rw [joinedLines, h.lines_eq, List.flatMap_append, List.flatMap_cons, List.append_assoc]

/-- The match as a part of the normalised line. -/
theorem FoundOn.match_eq {linesBefore linesAfter : List Text} {line : Text} {offset : ℕ}
    (h : FoundOn m target oldText linesBefore line linesAfter offset) :
    ((normalizeEditText m line).drop offset).take (normalizeEditText m oldText).length =
      normalizeEditText m oldText := by
  obtain ⟨pre, post, heq, hlen⟩ := split_of_find h.found
  have hwithin := h.within
  rw [h.joined_eq, List.append_assoc] at heq
  have hdrop := congrArg (fun t : Text => (t.drop pre.length).take (normalizeEditText m oldText).length) heq
  rw [List.append_assoc pre, List.drop_left, List.take_left, hlen, List.drop_append,
    List.drop_of_length_le (by omega), List.nil_append, Nat.add_sub_cancel_left,
    List.drop_append_of_le_length (by omega), List.take_append_of_le_length (by
      rw [List.length_drop]
      omega)] at hdrop
  exact hdrop

/-- What `_find_fuzzy_span` returns for a match on one line. -/
theorem FoundOn.findFuzzySpan_eq {linesBefore linesAfter : List Text} {line : Text} {offset : ℕ}
    (h : FoundOn m target oldText linesBefore line linesAfter offset) (hlit : ¬ oldText <:+: target)
    (hnorm : normalizeEditText m oldText ≠ []) (hlong : offset < line.length) :
    findFuzzySpan m target oldText = some (linesBefore.flatten.length + offset,
      linesBefore.flatten.length + min line.length (offset + (normalizeEditText m oldText).length)) := by
  have hpos := List.length_pos_iff.2 hnorm
  have hold : oldText ≠ [] := by
    rintro rfl
    exact hlit (List.nil_infix)
  have hjoined : ((splitlinesKeep target).map fun l => (l, normalizeEditText m l)).flatMap Prod.snd =
      joinedLines m target := by
    rw [joinedLines, List.flatMap_map]
  have hspan := @spanFrom_within (normalizeEditText m) line linesAfter offset _ hpos h.within linesBefore 0 0
    (0, target.length)
  simp only [Nat.zero_add] at hspan
  rw [findFuzzySpan, if_neg hold, find_eq_none_iff.2 hlit]
  dsimp only
  rw [if_neg (by simp [hnorm, h.lines_eq]), hjoined, h.found, Option.map_some, h.lines_eq, hspan,
    Option.filter_some, if_pos (by simp; omega)]

/-! ### Where the rough match is right -/

/-- What the rough match has to do: the text that it takes out is the old text but for what normalising
    takes away, and the edit puts the new text in its place and leaves what is around it. -/
def Hits (m : Matcher) (target oldText : Text) : Prop :=
  ∃ before removed after, target = before ++ removed ++ after ∧
    findFuzzySpan m target oldText = some (before.length, (before ++ removed).length) ∧
    normalizeEditText m removed = normalizeEditText m oldText ∧
    ∀ newText, applyPrecisionEdit m target { oldText := oldText, newText := newText } =
      .ok (before ++ newText ++ after, 1)

/-- Normalising leaves the line up to the end of the match as it is, but for a blank in the place of
    another space: there are no escapes, NFKC changes nothing, and white space stands alone and not at the
    beginning. -/
structure Untouched (m : Matcher) (line before found : Text) : Prop where
  begins : before ++ found <+: line
  escapes : EscapeFree (before ++ found).length line
  nfkc_line : before ++ found <+: m.nfkc (unescapeAll line)
  nfkc_found : m.nfkc found = found
  spaces : Spaced true (before ++ found)

/-- The edit whose rough match has a span puts the new text there. -/
theorem applyPrecisionEdit_fuzzy {before removed after : Text} (hlit : ¬ oldText <:+: target)
    (hold : oldText ≠ []) (htarget : target = before ++ removed ++ after)
    (hspan : findFuzzySpan m target oldText = some (before.length, (before ++ removed).length))
    (newText : Text) :
    applyPrecisionEdit m target { oldText := oldText, newText := newText } =
      .ok (before ++ newText ++ after, 1) := by
  have hcount : count target oldText = 0 := by
    obtain ⟨parts, hcut⟩ := exists_cut hold target
    cases hcut with
    | last hnone =>
      have hone := (Cut.last hnone).count_eq hold
      simpa using hone
    | next hfind _ => exact absurd hlit (by simp)
  have hwhole : (target.take target.length).drop 0 = target := by simp
  rw [applyPrecisionEdit]
  simp only [sliceBounds, Bind.bind, Except.bind, true_and, if_true]
  rw [hwhole, if_pos hcount, hspan]
  simp only [Option.isSome_none, Bool.false_eq_true, or_self, if_false, Nat.zero_add]
  rw [htarget, List.drop_left, List.append_assoc before, List.take_left]

/-- A span in the lines before a line and so far into it, as a part of the target. -/
theorem target_split {linesBefore linesAfter : List Text} {line before found after : Text}
    (hlines : splitlinesKeep target = linesBefore ++ line :: linesAfter)
    (hline : line = before ++ found ++ after) :
    target = (linesBefore.flatten ++ before) ++ found ++ (after ++ linesAfter.flatten) := by
  have hall := flatten_splitlinesKeep target
  rw [hlines, List.flatten_append, List.flatten_cons, hline] at hall
  simpa [List.append_assoc] using hall.symm

/-- A match whose line is cut into what is before it, as many characters as it is long, and the rest: the
    rough match takes just these characters. -/
theorem FoundOn.hits_iff {linesBefore linesAfter : List Text} {line before found after : Text}
    (h : FoundOn m target oldText linesBefore line linesAfter before.length)
    (hlit : ¬ oldText <:+: target) (hnorm : normalizeEditText m oldText ≠ [])
    (hline : line = before ++ found ++ after)
    (hlen : found.length = (normalizeEditText m oldText).length) :
    Hits m target oldText ↔ normalizeEditText m found = normalizeEditText m oldText := by
  have hpos := List.length_pos_iff.2 hnorm
  have hlong : before.length + found.length ≤ line.length := by
    rw [hline]
    simp
  have htarget := target_split h.lines_eq hline
  have hspan := h.findFuzzySpan_eq hlit hnorm (by omega)
  rw [Nat.min_eq_right (by omega), ← hlen, ← Nat.add_assoc, ← List.length_append, ← List.length_append]
    at hspan
  have hold : oldText ≠ [] := by
    rintro rfl
    exact hlit List.nil_infix
  constructor
  · rintro ⟨before', removed, after', heq, hspan', hremoved, -⟩
    rw [hspan] at hspan'
    obtain ⟨hstart, hstop⟩ := Prod.mk.inj (Option.some.inj hspan')
    rw [htarget, List.append_assoc, List.append_assoc before'] at heq
    obtain ⟨hbefore, hrest⟩ := List.append_inj heq hstart
    have hremovedLen : found.length = removed.length := by
      simp only [List.length_append] at hstart hstop
      omega
    obtain ⟨hfound, -⟩ := List.append_inj hrest hremovedLen
    rw [hfound]
    exact hremoved
  · intro hfound
    exact ⟨_, found, _, htarget, hspan, hfound, applyPrecisionEdit_fuzzy hlit hold htarget hspan⟩

theorem EscapeFree.part {before found line : Text} (hbegins : before ++ found <+: line)
    (h : EscapeFree (before ++ found).length line) : EscapeFree found.length found := by
  obtain ⟨after, rfl⟩ := hbegins
  have hget : ∀ i < found.length, (before ++ found ++ after)[before.length + i]? = found[i]? := by
    intro i hi
    rw [List.append_assoc, List.getElem?_append_right (Nat.le_add_right _ _), Nat.add_sub_cancel_left,
      List.getElem?_append_left hi]
  intro i hi hslash c hc
  refine h (before.length + i) (by rw [List.length_append]; omega) ((hget i hi).trans hslash) c ?_
  have hnext : i + 1 < found.length := (List.getElem?_eq_some_iff.1 hc).1
  rw [Nat.add_assoc, hget (i + 1) hnext]
  exact hc

/-- Up to the end of the match the normalised line is the line, with blanks. -/
theorem Untouched.normalized {line before found : Text} (h : Untouched m line before found)
    (hne : found ≠ [])
    (hlong : (before ++ found).length ≤ (normalizeEditText m line).length) :
    (normalizeEditText m line).take (before ++ found).length = (before ++ found).map blank := by
  obtain ⟨rest, hrest⟩ := h.nfkc_line
  have hspaces : Spaced false (before ++ found) := by
    have hs := h.spaces
    cases hbf : before ++ found with
    | nil => trivial
    | cons c t =>
      rw [hbf, Spaced] at hs
      split_ifs at hs with hc
      · cases hs.1
      · rw [Spaced, if_neg hc]
        exact hs
  have hhead : ∀ c ∈ ((before ++ found).map blank ++
      foldSpace (openAfter false (before ++ found)) rest).head?, isSpace c = false := by
    have hs := h.spaces
    cases hbf : before ++ found with
    | nil => exact absurd (List.append_eq_nil_iff.1 hbf).2 hne
    | cons c t =>
      rw [hbf, Spaced] at hs
      rintro d hd
      obtain rfl : blank c = d := by simpa using hd
      rw [isSpace_blank]
      split_ifs at hs with hc
      · cases hs.1
      · simpa using hc
  have hfold : normalizeEditText m line = rstrip ((before ++ found).map blank ++
      foldSpace (openAfter false (before ++ found)) rest) := by
    rw [normalizeEditText_eq, ← hrest, foldSpace_append, hspaces.foldSpace_eq, strip, lstrip_eq_self hhead]
  obtain ⟨tail, htail⟩ : normalizeEditText m line <+: (before ++ found).map blank ++
      foldSpace (openAfter false (before ++ found)) rest := by
    rw [hfold]
    exact List.rdropWhile_prefix _ _
  have htake := congrArg (List.take (before ++ found).length) htail
  rw [List.take_append_of_le_length hlong, List.take_append_of_le_length (by simp), List.take_of_length_le
    (l := (before ++ found).map blank) (by simp)] at htake
  exact htake

/-- A match that normalising leaves untouched is taken out exactly. -/
theorem FoundOn.hits_of_untouched {linesBefore linesAfter : List Text} {line before found : Text}
    (h : FoundOn m target oldText linesBefore line linesAfter before.length)
    (hlit : ¬ oldText <:+: target) (hnorm : normalizeEditText m oldText ≠ [])
    (hlen : found.length = (normalizeEditText m oldText).length) (hun : Untouched m line before found) :
    Hits m target oldText := by
  have hne : found ≠ [] := by
    rintro rfl
    exact hnorm (List.eq_nil_of_length_eq_zero hlen.symm)
  have hwithin := h.within
  have hline := hun.normalized hne (by rw [List.length_append]; omega)
  have hfound : found.map blank = normalizeEditText m oldText := by
    have hmatch := h.match_eq
    rw [← hlen, List.take_drop, ← List.length_append, hline, List.map_append, List.drop_left' (by simp)]
      at hmatch
    exact hmatch
  obtain ⟨after, hafter⟩ := hun.begins
  refine (h.hits_iff hlit hnorm hafter.symm hlen).2 ?_
  have htight : Tight (normalizeEditText m oldText) := tight_strip _
  have hspaces : Spaced false found := by
    have hs := (spaced_append.1 hun.spaces).2
    refine spaced_of_head (head_map_blank ?_) _ false hs
    rw [hfound]
    exact htight.head
  rw [normalizeEditText_eq, (keeps_unescapeAll (EscapeFree.part hun.begins hun.escapes)).2 le_rfl,
    hun.nfkc_found, hspaces.foldSpace_eq, hfound, htight.strip_eq]

/-! ### Where there is nothing to take out but white space -/

/-- A line without backslashes that NFKC leaves as it is, in every part. -/
structure Plain (m : Matcher) (line : Text) : Prop where
  no_backslash : '\\' ∉ line
  nfkc : ∀ part, part <:+: line → m.nfkc part = part

theorem Plain.part {line part : Text} (h : Plain m line) (hpart : part <:+: line) : Plain m part :=
  ⟨fun hin => h.no_backslash (hpart.subset hin), fun s hs => h.nfkc s (hs.trans hpart)⟩

theorem Plain.escapeFree {line : Text} (h : Plain m line) (k : ℕ) : EscapeFree k line :=
  fun _ _ hslash => absurd (List.mem_of_getElem? hslash) h.no_backslash

/-- A plain text is normalised by folding alone. -/
theorem Plain.normalize_eq {line : Text} (h : Plain m line) :
    normalizeEditText m line = strip (foldSpace false line) := by
  rw [normalizeEditText_eq, (keeps_unescapeAll (h.escapeFree line.length)).2 le_rfl,
    h.nfkc line (List.infix_refl line)]

theorem Plain.length_normalize_le {line : Text} (h : Plain m line) :
    (normalizeEditText m line).length ≤ line.length := by
  rw [h.normalize_eq]
  exact (length_strip_le _).trans (length_foldSpace_le _ _)

/-- A plain text that normalises to one of its own length has no white space to fold. -/
theorem Plain.spaced_of_length {found norm : Text} (hplain : Plain m found)
    (hfound : normalizeEditText m found = norm) (hlen : found.length = norm.length) :
    Spaced false found ∧ found.map blank = norm := by
  have hfold : (foldSpace false found).length = found.length := by
    have hshort := length_strip_le (foldSpace false found)
    have hle := length_foldSpace_le false found
    rw [← hplain.normalize_eq, hfound] at hshort
    omega
  have hspaced : Spaced false found := Artifact.spaced_of_length hfold
  refine ⟨hspaced, ?_⟩
  rw [← hfound, hplain.normalize_eq, hspaced.foldSpace_eq]
  refine (((strip_prefix_lstrip _).isInfix.trans
    (List.dropWhile_suffix isSpace).isInfix).eq_of_length ?_).symm
  rw [← hspaced.foldSpace_eq, ← hplain.normalize_eq, hfound, ← hlen, hfold]

/-- A plain line with a match in it normalises to what is left of the part before, the match, and some rest. -/
theorem Plain.exists_rest {before found after norm : Text} (hplain : Plain m (before ++ found ++ after))
    (hspaced : Spaced false found) (hblank : found.map blank = norm) (htight : Tight norm) (hne : norm ≠ []) :
    ∃ tail, normalizeEditText m (before ++ found ++ after) = lstrip (foldSpace false before) ++ norm ++ tail := by
  have hhead : ∀ c ∈ found.head?, isSpace c = false :=
    head_map_blank (by rw [hblank]; exact htight.head)
  have hfolded : foldSpace false (before ++ found ++ after) = foldSpace false before ++
      (norm ++ foldSpace (openAfter false (before ++ found)) after) := by
    rw [foldSpace_append, foldSpace_append, foldSpace_of_head hhead _ false, hspaced.foldSpace_eq, hblank,
      List.append_assoc]
  obtain ⟨tail, htail⟩ := rstrip_append (t := lstrip (foldSpace false before) ++ norm)
    (r := foldSpace (openAfter false (before ++ found)) after) (by
      intro c hc
      rw [List.getLast?_append_of_ne_nil _ hne] at hc
      exact htight.last c hc)
  refine ⟨tail, ?_⟩
  rw [hplain.normalize_eq, hfolded, strip, lstrip_append_of_head (by
    intro c hc
    rw [List.head?_append_of_ne_nil _ hne] at hc
    exact htight.head c hc), ← List.append_assoc, htail]

/-- On a plain line, white space that folding takes out before the match would bring the match forward:
    the first match is where the line has its characters only if there is none. -/
theorem FoundOn.spaced_of_normalize {linesBefore linesAfter : List Text} {before found after : Text}
    (h : FoundOn m target oldText linesBefore (before ++ found ++ after) linesAfter before.length)
    (hplain : Plain m (before ++ found ++ after)) (hnorm : normalizeEditText m oldText ≠ [])
    (hlen : found.length = (normalizeEditText m oldText).length)
    (hfound : normalizeEditText m found = normalizeEditText m oldText) :
    Spaced true (before ++ found) := by
  have htight : Tight (normalizeEditText m oldText) := tight_strip _
  obtain ⟨hspaced, hblank⟩ := Plain.spaced_of_length (hplain.part ⟨before, after, rfl⟩) hfound hlen
  obtain ⟨tail, hnormLine⟩ := hplain.exists_rest hspaced hblank htight hnorm
  -- the match in the normalised line stands where folding has brought it, and no match is before the first
  have hfirst : (linesBefore.flatMap (normalizeEditText m)).length + before.length ≤
      (linesBefore.flatMap (normalizeEditText m) ++ lstrip (foldSpace false before)).length := by
    have hsplit : joinedLines m target = linesBefore.flatMap (normalizeEditText m) ++
        lstrip (foldSpace false before) ++ normalizeEditText m oldText ++
          (tail ++ linesAfter.flatMap (normalizeEditText m)) := by
      rw [h.joined_eq, hnormLine]
      simp only [List.append_assoc]
    exact find_le h.found hsplit
  rw [List.length_append] at hfirst
  have hl := length_lstrip_le (foldSpace false before)
  have hf := length_foldSpace_le false before
  have hbefore : Spaced false before := Artifact.spaced_of_length (by omega)
  have hlstrip : lstrip (foldSpace false before) = foldSpace false before := lstrip_eq_of_length (by omega)
  have hhead : ∀ c ∈ found.head?, isSpace c = false :=
    head_map_blank (by rw [hblank]; exact htight.head)
  rw [spaced_append]
  refine ⟨spaced_of_head (head_map_blank ?_) false true hbefore, spaced_of_head hhead false _ hspaced⟩
  rw [← hbefore.foldSpace_eq, ← hlstrip]
  exact head_lstrip _

/-! ### The rough match -/

/-- The first match of the normalised old text lies on one line, and normalising leaves the line untouched
    up to its end. -/
def LiesUntouched (m : Matcher) (target oldText : Text) : Prop :=
  ∃ linesBefore line linesAfter before found,
    FoundOn m target oldText linesBefore line linesAfter before.length ∧
      found.length = (normalizeEditText m oldText).length ∧ Untouched m line before found

end AgentLangraph.Artifact
