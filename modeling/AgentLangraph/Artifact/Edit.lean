import Mathlib.Data.Rat.Lemmas
import AgentLangraph.Artifact.Files
import AgentLangraph.Lib.PyVal

/-! Editing a text (`_apply_precision_edit`, `_apply_batch_edits` of `artifact_tools.py`): the old text
    is looked for in a range of lines, as it is and then roughly, and replaced once, everywhere or at
    one occurrence. -/

namespace AgentLangraph.Artifact
open PyText

/-- What the editor takes from `unicodedata`, `difflib` and `repr`, and the digits behind `int`. -/
structure Matcher where
  nfkc : Text → Text
  /-- `SequenceMatcher(None, a, b).ratio()`. -/
  ratio : Text → Text → ℚ
  repr : Text → Text
  digit : Char → Option ℕ

/-- `re.sub(r"\\([^\s])", r"\1", text)`. -/
def unescape : Text → Text
  | [] => []
  | [c] => [c]
  | c :: d :: t => if c = '\\' ∧ isSpace d = false then d :: unescape t else c :: unescape (d :: t)

/-- `re.sub(r"\s+", " ", text)`; the flag says that a run of space is open. -/
def foldSpace : Bool → Text → Text
  | _, [] => []
  | inRun, c :: t =>
    if isSpace c then if inRun then foldSpace true t else ' ' :: foldSpace true t
    else c :: foldSpace false t

/-- `_normalize_edit_text`. -/
def normalizeEditText (m : Matcher) (t : Text) : Text :=
  let unslashed := ["-", "_", "*", "`", "."].foldl
    (fun acc c => replace acc ('\\' :: c.toList) c.toList) t
  strip (foldSpace false (m.nfkc (unescape unslashed)))

/-- The span that the lines give to an exact match of the normalised texts. -/
def spanFrom (pos len : ℕ) : List (Text × Text) → ℕ → ℕ → ℕ × ℕ → ℕ × ℕ
  | [], _, _, span => span
  | (line, norm) :: lines, cursor, normCursor, span =>
    let start := if normCursor ≤ pos ∧ pos < normCursor + norm.length then cursor + (pos - normCursor)
      else span.1
    if normCursor < pos + len ∧ pos + len ≤ normCursor + norm.length then
      (start, cursor + min line.length (pos + len - normCursor))
    else spanFrom pos len lines (cursor + line.length) (normCursor + norm.length) (start, span.2)

/-- The whole lines around a rough match. -/
def linesFrom (pos stop : ℕ) : List (Text × Text) → ℕ → ℕ → ℕ × ℕ → ℕ × ℕ
  | [], _, _, span => span
  | (line, norm) :: lines, cursor, normCursor, span =>
    let start := if normCursor ≤ pos ∧ pos < normCursor + norm.length then cursor else span.1
    if normCursor < stop ∧ stop ≤ normCursor + norm.length then (start, cursor + line.length)
    else linesFrom pos stop lines (cursor + line.length) (normCursor + norm.length) (start, span.2)

/-- The best window of the normalised text, where it is like the old text at all. -/
def bestWindow (m : Matcher) (joined normOld : Text) : Option (ℚ × ℕ) :=
  let window := max normOld.length 8
  let step := max 1 (window / 4)
  let starts := (List.range (max 1 (joined.length + 1 - window))).filter (· % step = 0)
  starts.foldl (fun best start =>
    let ratio := m.ratio normOld ((joined.drop start).take (window + normOld.length))
    match best with
    | none => if 82 / 100 ≤ ratio then some (ratio, start) else none
    | some (r, s) => if 82 / 100 ≤ ratio ∧ r < ratio then some (ratio, start) else some (r, s)) none

/-- `_find_fuzzy_span`. -/
def findFuzzySpan (m : Matcher) (target oldText : Text) : Option (ℕ × ℕ) :=
  if oldText = [] then none
  else
    match find oldText target with
    | some start => some (start, start + oldText.length)
    | none =>
      let normOld := normalizeEditText m oldText
      let lines := (splitlinesKeep target).map fun line => (line, normalizeEditText m line)
      let joined := lines.flatMap Prod.snd
      if normOld = [] ∨ lines = [] then none
      else
        let exact := (find normOld joined).map fun pos =>
          spanFrom pos normOld.length lines 0 0 (0, target.length)
        match exact.filter fun span => span.1 < span.2 with
        | some span => some span
        | none =>
          (bestWindow m joined normOld).bind fun best =>
            let span := linesFrom best.2 (best.2 + normOld.length) lines 0 0 (0, target.length)
            if span.2 ≤ span.1 then none else some span

/-- `_nearest_candidate`. -/
def nearestCandidate (m : Matcher) (target oldText : Text) : Text :=
  let normOld := normalizeEditText m oldText
  if normOld = [] then []
  else
    let best := (splitlines target).foldl (fun (best : Text × ℚ) line =>
      if best.2 < m.ratio normOld (normalizeEditText m line) then
        (line, m.ratio normOld (normalizeEditText m line))
      else best) ([], 0)
    if best.1 ≠ [] then best.1.take 240 else target.take 240

/-- `_slice_bounds`: the positions of a range of lines. -/
def sliceBounds (content : Text) (startLine endLine : Option ℤ) : Except Raise (ℕ × ℕ) :=
  if startLine = none ∧ endLine = none then .ok (0, content.length)
  else
    let lines := splitlinesKeep content
    if lines = [] then .ok (0, 0)
    else
      let start := startLine.getD 1
      let stop := endLine.getD lines.length
      if start < 1 ∨ stop < start ∨ (lines.length : ℤ) < stop then
        .error (.valueError "Invalid line range".toList)
      else
        .ok ((lines.take (start.toNat - 1)).flatten.length, (lines.take stop.toNat).flatten.length)

/-- Where the occurrence with a number starts. -/
def nthStart (oldText target : Text) : ℕ → ℕ → Option ℕ
  | 0, _ => none
  | n + 1, cursor =>
    (findFrom oldText target cursor).bind fun start =>
      if n = 0 then some start else nthStart oldText target n (start + oldText.length)

/-- One edit, as it is asked for. -/
structure Precision where
  oldText : Text
  newText : Text := []
  replaceAll : Bool := false
  occurrenceIndex : Option ℤ := none
  startLine : Option ℤ := none
  endLine : Option ℤ := none

/-- The replacement in the target, with the number of occurrences found there. -/
def replaceInTarget (e : Precision) (oldText target : Text) (occurrences : ℕ) :
    Except Raise (Text × ℕ) :=
  match e.occurrenceIndex with
  | some index =>
    if index < 1 ∨ (occurrences : ℤ) < index then
      .error (.valueError "occurrence_index out of range".toList)
    else
      match nthStart oldText target index.toNat 0 with
      | none => .error (.other "AssertionError".toList [])
      | some start =>
        .ok (target.take start ++ e.newText ++ target.drop (start + oldText.length), 1)
  | none =>
    if 1 < occurrences ∧ e.replaceAll = false then
      .error (.valueError ("old_text matched multiple locations; ".toList ++
        "set replace_all=true or provide occurrence_index".toList))
    else if e.replaceAll then .ok (replace target oldText e.newText, occurrences)
    else .ok (replaceOne target oldText e.newText, 1)

/-- `_apply_precision_edit`: the text and the number of replacements. -/
def applyPrecisionEdit (m : Matcher) (original : Text) (e : Precision) : Except Raise (Text × ℕ) := do
  let (start, stop) ← sliceBounds original e.startLine e.endLine
  let target := (original.take stop).drop start
  let around := fun (r : Text × ℕ) => (original.take start ++ r.1 ++ original.drop stop, r.2)
  if count target e.oldText = 0 then
    match findFuzzySpan m target e.oldText with
    | none =>
      let candidate := nearestCandidate m target e.oldText
      let hint := if candidate = [] then []
        else " (nearest: ".toList ++ m.repr (candidate.take 120) ++ ")".toList
      .error (.valueError ("old_text not found in selected scope".toList ++ hint))
    | some (relStart, relEnd) =>
      if e.occurrenceIndex.isSome ∨ e.replaceAll then
        around <$> replaceInTarget e ((target.take relEnd).drop relStart) target 1
      else .ok (original.take (start + relStart) ++ e.newText ++ original.drop (start + relEnd), 1)
  else around <$> replaceInTarget e e.oldText target (count target e.oldText)

/-- `int(d[key])` where it is not `None`. -/
def intParam (m : Matcher) (d : Fields) (key : String) : Except Raise (Option ℤ) :=
  match d.field key with
  | .none => .ok none
  | v =>
    match v.toInt? m.digit with
    | some n => .ok (some n)
    | none =>
      match v with
      | .str _ => .error (.valueError "invalid literal for int() with base 10".toList)
      | _ => .error (.other "TypeError".toList [])

/-- `str(d.get(key) or "")`. -/
def textOr (d : Fields) (key : String) : Text := ((d.field key).orElse (.str [])).toText

/-- An element of `edits` that is a dictionary with an old text. -/
def precisionOf (m : Matcher) (d : Fields) : Except Raise Precision := do
  let occurrenceIndex ← intParam m d "occurrence_index"
  let startLine ← intParam m d "start_line"
  let endLine ← intParam m d "end_line"
  .ok { oldText := textOr d "old_text", newText := textOr d "new_text",
        replaceAll := (d.field "replace_all").truthy, occurrenceIndex := occurrenceIndex,
        startLine := startLine, endLine := endLine }

/-- An element of `edits` that is applied: the others are passed over. -/
def effective (edit : Option Fields) : Bool :=
  match edit with
  | none => false
  | some d => textOr d "old_text" != []

/-- `_apply_batch_edits`, with what has been done so far. -/
def applyBatchEdits (m : Matcher) : Text × ℕ → List (Option Fields) → Except Raise (Text × ℕ)
  | done, [] => .ok done
  | done, none :: edits => applyBatchEdits m done edits
  | done, some d :: edits =>
    if textOr d "old_text" = [] then applyBatchEdits m done edits
    else
      match (precisionOf m d).bind (applyPrecisionEdit m done.1) with
      | .error e => .error e
      | .ok (updated, replacements) => applyBatchEdits m (updated, done.2 + replacements) edits

/-! ### What the numbers say -/

theorem one_le_replaceInTarget {e : Precision} {oldText target : Text} {occurrences : ℕ}
    {r : Text × ℕ} (hpos : 1 ≤ occurrences) (h : replaceInTarget e oldText target occurrences = .ok r) :
    1 ≤ r.2 := by
  rw [replaceInTarget] at h
  cases hindex : e.occurrenceIndex with
  | some index =>
    simp only [hindex] at h
    split_ifs at h
    cases hstart : nthStart oldText target index.toNat 0 with
    | none =>
      rw [hstart] at h
      cases h
    | some start =>
      rw [hstart] at h
      rw [← Except.ok.inj h]
  | none =>
    simp only [hindex] at h
    split_ifs at h
    · rw [← Except.ok.inj h]
      exact hpos
    · rw [← Except.ok.inj h]

theorem exists_of_map_ok {α β : Type} {f : α → β} {x : Except Raise α} {b : β}
    (h : f <$> x = .ok b) : ∃ a, x = .ok a ∧ f a = b := by
  cases x with
  | error e => cases h
  | ok a => exact ⟨a, rfl, Except.ok.inj h⟩

/-- An edit that goes through reports a replacement. -/
theorem one_le_applyPrecisionEdit {m : Matcher} {original : Text} {e : Precision} {r : Text × ℕ}
    (h : applyPrecisionEdit m original e = .ok r) : 1 ≤ r.2 := by
  rw [applyPrecisionEdit] at h
  cases hbounds : sliceBounds original e.startLine e.endLine with
  | error ex =>
    rw [hbounds] at h
    cases h
  | ok bounds =>
    rw [hbounds] at h
    simp only [Bind.bind, Except.bind] at h
    split at h
    · split at h
      · cases h
      · split at h
        · obtain ⟨r', hr', rfl⟩ := exists_of_map_ok h
          have hone := one_le_replaceInTarget le_rfl hr'
          exact hone
        · rw [← Except.ok.inj h]
    · rename_i hcount
      obtain ⟨r', hr', rfl⟩ := exists_of_map_ok h
      have hone := one_le_replaceInTarget (Nat.one_le_iff_ne_zero.2 hcount) hr'
      exact hone

/-- A batch counts a replacement for each edit that is not passed over, at least. -/
theorem le_applyBatchEdits {m : Matcher} : ∀ {edits : List (Option Fields)} {done r : Text × ℕ},
    applyBatchEdits m done edits = .ok r → done.2 + edits.countP effective ≤ r.2
  | [], done, r, h => by
      rw [applyBatchEdits] at h
      rw [← Except.ok.inj h]
      simp
  | none :: edits, done, r, h => by
      rw [applyBatchEdits] at h
      simpa [List.countP_cons, effective] using le_applyBatchEdits h
  | some d :: edits, done, r, h => by
      rw [applyBatchEdits] at h
      split_ifs at h with hempty
      · simpa [List.countP_cons, effective, hempty] using le_applyBatchEdits h
      · cases hedit : (precisionOf m d).bind (applyPrecisionEdit m done.1) with
        | error e =>
          rw [hedit] at h
          cases h
        | ok x =>
          rw [hedit] at h
          have hone : 1 ≤ x.2 := by
            cases hp : precisionOf m d with
            | error e =>
              rw [hp] at hedit
              cases hedit
            | ok e =>
              rw [hp] at hedit
              exact one_le_applyPrecisionEdit hedit
          have ih := le_applyBatchEdits h
          have heff : effective (some d) = true := by simpa [effective] using hempty
          rw [List.countP_cons, if_pos heff]
          change done.2 + x.2 + _ ≤ _ at ih
          omega

/-- A batch of edits that are all passed over counts nothing and leaves the text. -/
theorem applyBatchEdits_of_none {m : Matcher} : ∀ {edits : List (Option Fields)} (done : Text × ℕ),
    edits.countP effective = 0 → applyBatchEdits m done edits = .ok done
  | [], _, _ => rfl
  | none :: edits, done, h => by
      rw [applyBatchEdits]
      exact applyBatchEdits_of_none done (by simpa [List.countP_cons, effective] using h)
  | some d :: edits, done, h => by
      rw [List.countP_cons] at h
      have hempty : textOr d "old_text" = [] := by
        by_contra hne
        rw [if_pos (by simpa [effective] using hne)] at h
        omega
      rw [applyBatchEdits, if_pos hempty]
      exact applyBatchEdits_of_none done (by omega)

end AgentLangraph.Artifact
