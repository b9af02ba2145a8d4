import AgentLangraph.Lib.JsonSpelling
import AgentLangraph.Llm.JsonMerge

/-! The JSON object of an answer. Code fences are taken off first, wherever they stand; then the decoder is tried at
    every brace, those inside of what has been read already not excepted.

        {"summary": "done", "structured": {"x": 1}}
        ▲                                 ▲
        o                                 {"x": 1}     also found, and merged where some keys are preferred -/

namespace AgentLangraph.Llm.ExtractJson
open PyText
open Json (tick)

variable {ν : Type} (P : Py ν)

def fence : Text := "```".toList

/-- `[a-zA-Z0-9_+-]`, with the letters that only `IGNORECASE` lets in. -/
def isLangChar (c : Char) : Bool :=
  c.isAlphanum || c ∈ ['_', '+', '-'] || c.toNat ∈ [0x130, 0x131, 0x17f, 0x212a]

/-- `_strip_markdown_fences`. The expression finds the first two fences that do not overlap. -/
def stripMarkdownFences (t : Text) : Text :=
  match find fence t with
  | none => strip t
  | some i =>
    let rest := t.drop (i + 3)
    match find fence rest with
    | none => strip t
    | some j => strip ((rest.take j).dropWhile isLangChar)

/-- The objects that the decoder reads at the braces of a text. -/
def objectsAt : Text → List (Obj ν)
  | [] => []
  | c :: t =>
    if c = '{' then
      match Json.rawDecode P.toNumbers (c :: t) with
      | some (.obj es, _) => PyDict.ofList es :: objectsAt t
      | _ => objectsAt t
    else objectsAt t

/-- `_iter_json_objects`. Where no brace gives an object, the source goes on to read the whole text, and at the braces
    that an expression finds: what begins with a brace has been tried already. -/
def iterJsonObjects (text : Text) : List (Obj ν) := objectsAt P (stripMarkdownFences text)

def snippet (cleaned : Text) : Text :=
  if strip cleaned = [] then "(empty response)".toList else cleaned.take 200

/-- A repaired object: it always has a plan. -/
structure Repaired (ν : Type) where
  obj : Obj ν
  steps : List (Json ν)
  plan : obj.get? planKey = some (.arr steps)

/-- `_extract_json`. `repair` stands for `_repair_truncated_planning_json`, which is only asked where there is no
    object. -/
def extractJson (repair : Text → Option (Repaired ν)) (text : Text) (preferKeys : List Text) : Except Text (Obj ν) :=
  match iterJsonObjects P text with
  | o :: later =>
    .ok (normalised P (if preferKeys = [] then o else mergeJsonObjects P preferKeys (o :: later)))
  | [] =>
    let cleaned := stripMarkdownFences text
    match if planKey ∈ preferKeys then repair cleaned else none with
    | some repaired => .ok repaired.obj
    | none => .error ("Could not parse JSON from model output: ".toList ++ snippet cleaned)

/-! ### An object in a text -/

/-- A JSON object: no key of it, or of an object in it, is there twice. -/
abbrev JsonObject (ν : Type) := {o : Obj ν // Json.Distinct.membersDistinct o.entries}

/-- `json.dumps(o)`. -/
def dumps (o : Obj ν) : Text := Json.dumps P.toNumbers (.obj o.entries)

/-- Text around a fence, without braces. -/
abbrev Prose := {t : Text // '{' ∉ t ∧ '}' ∉ t}

inductive Wrapping
  | alone
  | fenced (before after : Prose)

def Wrapping.wrap : Wrapping → Text → Text
  | alone, t => t
  | fenced before after, t => before.val ++ fence ++ ("json\n".toList ++ t ++ ['\n']) ++ fence ++ after.val

/-- The fences that are found do not cut the text: alone it does not hold two of them, and in a fence neither the text
    nor what stands before it holds one. -/
def Uncut : Wrapping → Text → Prop
  | .alone, t => ∀ i, find fence t = some i → find fence (t.drop (i + 3)) = none
  | .fenced before _, t => ¬ fence <:+: before.val ∧ ¬ fence <:+: t

/-- The objects that are read at the braces after the first one. -/
def laterObjects (o : Obj ν) : List (Obj ν) := objectsAt P (dumps P o).tail

/-! ### What is found -/

theorem objectsAt_append {p : Text} (hp : '{' ∉ p) (t : Text) : objectsAt P (p ++ t) = objectsAt P t := by
  induction p with
  | nil => rfl
  | cons c p ih =>
    rw [List.mem_cons, not_or] at hp
    rw [List.cons_append, objectsAt, if_neg (Ne.symm hp.1), ih hp.2]

theorem dumps_cons (o : Obj ν) : dumps P o = '{' :: (dumps P o).tail := by
  rw [dumps]
  rcases o.entries with _ | ⟨⟨k, v⟩, es⟩ <;> rfl

/-- The object itself is the first that is found. -/
theorem objectsAt_dumps (o : JsonObject ν) : objectsAt P (dumps P o.val) = o.val :: laterObjects P o.val := by
  have hd : (Json.obj o.val.entries).Distinct := ⟨o.val.nodup, o.property⟩
  have hread := Json.rawDecode_dumps (N := P.toNumbers) hd JsonNumber.ends_nil
  rw [List.append_nil] at hread
  change Json.rawDecode P.toNumbers (dumps P o.val) = _ at hread
  rw [dumps_cons] at hread ⊢
  rw [objectsAt, if_pos rfl, hread]
  simp only [PyDict.ofList_entries]
  rfl

/-! ### Fences -/

theorem tight_dumps (o : Obj ν) : Tight (dumps P o) := by
  refine ⟨?_, ?_⟩
  · rw [dumps_cons]
    rintro c ⟨⟩
    decide
  · rw [dumps, Json.getLast?_dumps_obj]
    rintro c ⟨⟩
    decide

theorem strip_append_newline {t : Text} (h : Tight t) (hne : t ≠ []) : strip (t ++ ['\n']) = t := by
  have hhead : ∀ c ∈ (t ++ ['\n']).head?, isSpace c = false := by
    rw [List.head?_append_of_ne_nil _ hne]
    exact h.head
  rw [strip, lstrip_eq_self hhead, rstrip, List.rdropWhile_concat_pos _ _ _ (by decide)]
  exact rstrip_eq_self h.last

theorem tight_append {p t : Text} (hp : ∀ c ∈ p.head?, isSpace c = false) (h : Tight t) (hne : t ≠ []) :
    Tight (p ++ t) := by
  refine ⟨?_, ?_⟩
  · cases p with
    | nil => exact h.head
    | cons c p => exact hp
  · rw [List.getLast?_append_of_ne_nil _ hne]
    exact h.last

theorem fence_eq : fence = [tick, tick, tick] := rfl

/-- The ticks that stand in front of a fence are taken for a part of it. -/
theorem ticks_before {before rest pre post : Text} (hno : ¬ fence <:+: before)
    (heq : before ++ fence ++ rest = pre ++ fence ++ post) (hfirst : pre.length ≤ before.length) :
    ∃ ticks, (ticks = [] ∨ ticks = [tick] ∨ ticks = [tick, tick]) ∧ post = ticks ++ rest := by
  rw [List.append_assoc, List.append_assoc] at heq
  obtain ⟨more, rfl⟩ : pre <+: before := by
    have hpre : pre <+: before ++ (fence ++ rest) := ⟨fence ++ post, heq.symm⟩
    exact List.prefix_of_prefix_length_le hpre (List.prefix_append _ _) hfirst
  rw [List.append_assoc, List.append_cancel_left_eq, fence_eq] at heq
  rcases more with _ | ⟨a, _ | ⟨b, _ | ⟨c, more⟩⟩⟩
  · refine ⟨[], Or.inl rfl, ?_⟩
    simpa using heq.symm
  · refine ⟨[tick], Or.inr (Or.inl rfl), ?_⟩
    simp only [List.cons_append, List.nil_append, List.cons.injEq, true_and] at heq
    exact heq.2.symm
  · refine ⟨[tick, tick], Or.inr (Or.inr rfl), ?_⟩
    simp only [List.cons_append, List.nil_append, List.cons.injEq, true_and] at heq
    exact heq.2.2.symm
  · simp only [List.cons_append, List.nil_append, List.cons.injEq] at heq
    obtain ⟨rfl, rfl, rfl, -⟩ := heq
    exact absurd ⟨pre, more, by simp [fence_eq]⟩ hno

theorem no_fence_short {t : Text} (h : t.length < 3) : ¬ fence <:+: t := by
  intro hinfix
  have hle := hinfix.length_le
  rw [fence_eq, List.length_cons, List.length_cons, List.length_cons, List.length_nil] at hle
  omega

/-- Ticks, the language and a text without a fence do not hold one. -/
theorem no_fence_inside {ticks t : Text} (hticks : ticks = [] ∨ ticks = [tick] ∨ ticks = [tick, tick])
    (hno : ¬ fence <:+: t) : ¬ fence <:+: ticks ++ ("json\n".toList ++ t) := by
  intro h
  have hshort : ¬ fence <:+: ticks := by
    rcases hticks with rfl | rfl | rfl <;> exact no_fence_short (by decide)
  have hnil : ¬ fence <:+: [] := no_fence_short (by decide)
  have hsplit : ticks ++ ("json\n".toList ++ t) =
      ticks ++ 'j' :: ([] ++ 's' :: ([] ++ 'o' :: ([] ++ 'n' :: ([] ++ '\n' :: t)))) := by simp
  rw [hsplit] at h
  rcases infix_append_cons (by decide) h with h | h
  · exact hshort h
  -- a fence does not reach over one of the letters
  iterate 4
    rcases infix_append_cons (by decide) h with h | h
    · exact hnil h
  exact hno h

/-- The first fence after the text closes it. -/
theorem find_closing {t : Text} (hno : ¬ fence <:+: t) {ticks : Text}
    (hticks : ticks = [] ∨ ticks = [tick] ∨ ticks = [tick, tick]) (after : Text) :
    find fence (ticks ++ (("json\n".toList ++ t ++ ['\n']) ++ fence ++ after)) =
      some (ticks ++ ("json\n".toList ++ t ++ ['\n'])).length := by
  have hline : ¬ fence <:+: t ++ ['\n'] := by
    intro h
    rcases infix_append_cons (by decide) h with h | h
    · exact hno h
    · exact no_fence_short (by decide) h
  have hlast : ∀ c ∈ (ticks ++ ("json\n".toList ++ t ++ ['\n'])).getLast?, c ∉ fence := by
    intro c hc
    rw [← List.append_assoc, List.getLast?_concat] at hc
    cases hc
    decide
  rw [List.append_assoc] at hlast
  have hfence := find_append (fence ++ after) (no_fence_inside hticks hline) hlast
  rw [find_self_append (by decide)] at hfence
  simpa using hfence

/-- What stands in a fence, its language taken off. -/
theorem body_of_newline {t : Text} (h : Tight t) (hne : t ≠ []) :
    strip (([] ++ ("json\n".toList ++ t ++ ['\n'])).dropWhile isLangChar) = [] ++ t := by
  have hlang : ([] ++ ("json\n".toList ++ t ++ ['\n'])).dropWhile isLangChar = '\n' :: (t ++ ['\n']) := by
    simp [isLangChar]
  rw [hlang, strip_cons_space (by decide), strip_append_newline h hne, List.nil_append]

/-- A tick in front is no language. -/
theorem body_of_tick {t : Text} (h : Tight t) (hne : t ≠ []) (more : Text) :
    strip ((tick :: more ++ ("json\n".toList ++ t ++ ['\n'])).dropWhile isLangChar) =
      tick :: more ++ "json\n".toList ++ t := by
  have hlang : (tick :: more ++ ("json\n".toList ++ t ++ ['\n'])).dropWhile isLangChar =
      (tick :: more ++ "json\n".toList ++ t) ++ ['\n'] := by
    rw [List.cons_append, List.dropWhile_cons_of_neg (by decide)]
    simp
  have htick : ∀ c ∈ (tick :: more ++ "json\n".toList).head?, isSpace c = false := by
    rintro c ⟨⟩
    decide
  rw [hlang, strip_append_newline (tight_append htick h hne) (by simp)]

/-- What stands between the two fences that are found. -/
theorem stripMarkdownFences_of_find {t rest : Text} {i j : ℕ} (hi : find fence t = some i)
    (hrest : t.drop (i + 3) = rest) (hj : find fence rest = some j) :
    stripMarkdownFences t = strip ((rest.take j).dropWhile isLangChar) := by
  rw [stripMarkdownFences, hi]
  simp only [hrest, hj]

/-- Behind the first fence, where none stands in the prose: the text, with ticks of the prose in front of it. -/
theorem find_fenced {before : Prose} (hno : ¬ fence <:+: before.val) (after : Prose) (t : Text) :
    ∃ ticks i, (ticks = [] ∨ ticks = [tick] ∨ ticks = [tick, tick]) ∧
      find fence (Wrapping.wrap (.fenced before after) t) = some i ∧
      (Wrapping.wrap (.fenced before after) t).drop (i + 3) =
        ticks ++ (("json\n".toList ++ t ++ ['\n']) ++ fence ++ after.val) := by
  have hwrap : Wrapping.wrap (.fenced before after) t =
      before.val ++ fence ++ (("json\n".toList ++ t ++ ['\n']) ++ fence ++ after.val) := by
    simp only [Wrapping.wrap, List.append_assoc]
  obtain ⟨i, hi⟩ := exists_find hwrap
  obtain ⟨pre, post, hsplit, hlen⟩ := split_of_find hi
  obtain ⟨ticks, hticks, rfl⟩ := ticks_before hno (hwrap.symm.trans hsplit) (hlen ▸ find_le hi hwrap)
  refine ⟨ticks, i, hticks, hi, ?_⟩
  rw [hsplit, ← hlen]
  exact List.drop_left' (by simp [fence_eq])

theorem take_inner (a b c d : Text) : (a ++ (b ++ c ++ d)).take (a ++ b).length = a ++ b := by
  rw [List.append_assoc b, ← List.append_assoc a, List.take_left]

theorem dumps_ne_nil (o : Obj ν) : dumps P o ≠ [] := by
  rw [dumps_cons]
  exact List.cons_ne_nil _ _

/-- What is left of a text that is not cut: the object, behind what has no brace. -/
theorem stripMarkdownFences_wrap (o : Obj ν) {w : Wrapping} (h : Uncut w (dumps P o)) :
    ∃ p, '{' ∉ p ∧ stripMarkdownFences (w.wrap (dumps P o)) = p ++ dumps P o := by
  have htight := tight_dumps P o
  have hne := dumps_ne_nil P o
  cases w with
  | alone =>
    refine ⟨[], by simp, ?_⟩
    rw [Wrapping.wrap, stripMarkdownFences, List.nil_append]
    cases hf : find fence (dumps P o) with
    | none => exact htight.strip_eq
    | some i =>
      simp only [h i hf]
      exact htight.strip_eq
  | fenced before after =>
    obtain ⟨ticks, i, hticks, hi, hdrop⟩ := find_fenced h.1 after (dumps P o)
    have hclose := find_closing h.2 hticks after.val
    rw [stripMarkdownFences_of_find hi hdrop hclose, take_inner]
    rcases hticks with rfl | rfl | rfl
    · exact ⟨[], by simp, body_of_newline htight hne⟩
    · exact ⟨tick :: [] ++ "json\n".toList, by decide, body_of_tick htight hne []⟩
    · exact ⟨tick :: [tick] ++ "json\n".toList, by decide, body_of_tick htight hne [tick]⟩

/-- The objects that are found in a text that is not cut. -/
theorem iterJsonObjects_wrap (o : JsonObject ν) {w : Wrapping} (h : Uncut w (dumps P o.val)) :
    iterJsonObjects P (w.wrap (dumps P o.val)) = o.val :: laterObjects P o.val := by
  obtain ⟨p, hp, hstrip⟩ := stripMarkdownFences_wrap P o.val h
  rw [iterJsonObjects, hstrip, objectsAt_append P hp, objectsAt_dumps]

/-! ### A text that is cut -/

/-- Where an object is found. -/
theorem exists_of_mem_objectsAt {q : Obj ν} : ∀ {t : Text}, q ∈ objectsAt P t →
    ∃ front part es r, t = front ++ '{' :: part ∧ Json.rawDecode P.toNumbers ('{' :: part) = some (.obj es, r) ∧
      q = PyDict.ofList es
  | [], h => by cases h
  | c :: t, h => by
    have hlater (h : q ∈ objectsAt P t) : ∃ front part es r, c :: t = front ++ '{' :: part ∧
        Json.rawDecode P.toNumbers ('{' :: part) = some (.obj es, r) ∧ q = PyDict.ofList es := by
      obtain ⟨front, part, es, r, rfl, hread⟩ := exists_of_mem_objectsAt h
      exact ⟨c :: front, part, es, r, rfl, hread⟩
    rw [objectsAt] at h
    split_ifs at h with hc
    · subst hc
      split at h
      · next es r hread =>
        rcases List.mem_cons.1 h with rfl | h
        · exact ⟨[], t, es, r, rfl, hread, rfl⟩
        · exact hlater h
      · exact hlater h
    · exact hlater h

def fenceTicks : Json.Ticks := ⟨fence, by decide, List.all_iff_forall_prop.1 (by decide)⟩

/-- An object no string of which is written with a fence. -/
def CleanObj (o : Obj ν) : Prop := Json.Clean.membersClean fenceTicks o.entries

/-- The objects of a part of the text in front of a fence hold no fence. -/
theorem clean_of_cut {o : Obj ν} {front piece back p cleaned : Text}
    (ho : dumps P o = front ++ (piece ++ fence ++ back)) (hfree : ¬ fence <:+: piece) (hp : '{' ∉ p)
    (hcleaned : cleaned <:+: p ++ piece) {q : Obj ν} (hq : q ∈ objectsAt P cleaned) : CleanObj q := by
  obtain ⟨lead, part, es, r, rfl, hread, rfl⟩ := exists_of_mem_objectsAt P hq
  obtain ⟨a, b, hab⟩ := hcleaned
  -- the brace is in the piece
  obtain ⟨m, rfl⟩ : ∃ m, piece = m ++ '{' :: (part ++ b) := by
    have hsplit : p ++ piece = (a ++ lead) ++ '{' :: (part ++ b) := by simp [← hab]
    rcases List.append_eq_append_iff.1 hsplit with ⟨m, -, hm⟩ | ⟨m, rfl, hm⟩
    · exact ⟨m, hm⟩
    · cases m with
      | nil => exact ⟨[], hm.symm⟩
      | cons c m =>
        obtain ⟨rfl, -⟩ := List.cons.inj hm
        exact absurd (List.mem_append_right _ List.mem_cons_self) hp
  have htext : Json.dumps P.toNumbers (.obj o.entries) = (front ++ m) ++ '{' :: (part ++ (b ++ fence ++ back)) := by
    change dumps P o = _
    rw [ho]
    simp
  have hpart : Json.Free fenceTicks ('{' :: part) := by
    intro h
    exact hfree (h.trans ⟨m, b, by simp⟩)
  exact Json.clean_ofList (Json.clean_of_part htext hpart hread)

/-! ### What is merged of objects without a fence -/

theorem CleanObj.get? {o : Obj ν} (h : CleanObj o) {k : Text} {v : Json ν} (hv : o.get? k = some v) :
    Json.Free fenceTicks (JsonText.text (Json.atoms k)) ∧ Json.Clean fenceTicks v :=
  Json.membersClean_iff.1 h (k, v) (PyDict.mem_entries.2 hv)

theorem CleanObj.set {o : Obj ν} (h : CleanObj o) {k : Text} (hk : Json.Free fenceTicks (JsonText.text (Json.atoms k)))
    {v : Json ν} (hv : Json.Clean fenceTicks v) : CleanObj (o.set k v) := by
  refine Json.membersClean_iff.2 fun e he => ?_
  rcases PyDict.mem_entries_set he with he | rfl
  · exact Json.membersClean_iff.1 h e he
  · exact ⟨hk, hv⟩

theorem clean_fillValue (k : Text) {current : Option (Json ν)} (hc : ∀ c ∈ current, Json.Clean fenceTicks c)
    {v : Json ν} (hv : Json.Clean fenceTicks v) : Json.Clean fenceTicks (fillValue k current v) := by
  cases current with
  | none => exact hv
  | some c =>
    simp only [fillValue]
    split
    · exact hv
    · split
      · next cur val =>
        split_ifs
        · refine Json.membersClean_iff.2 fun e he => ?_
          rcases PyDict.mem_entries_update he with he | he
          · exact Json.membersClean_iff.1 (Json.clean_ofList (hc _ rfl)) e he
          · exact Json.membersClean_iff.1 (Json.clean_ofList hv) e he
        · exact hc _ rfl
      · exact hc _ rfl

theorem CleanObj.mergeObject {merged obj : Obj ν} (h : CleanObj merged) (hobj : CleanObj obj) :
    CleanObj (mergeObject merged obj) := by
  have hes := Json.membersClean_iff.1 hobj
  revert hes
  rw [ExtractJson.mergeObject]
  generalize obj.entries = es
  intro hes
  induction es generalizing merged with
  | nil => exact h
  | cons e es ih =>
    have he := hes e List.mem_cons_self
    refine ih (h.set he.1 (clean_fillValue e.1 (fun c hc => (h.get? hc).2) he.2)) fun e' he' => ?_
    exact hes e' (List.mem_cons_of_mem e he')

theorem clean_bestAt {objects : List (Obj ν)} (h : ∀ q ∈ objects, CleanObj q) {k : Text} {v : Json ν}
    (hv : bestAt P k objects = some v) :
    Json.Free fenceTicks (JsonText.text (Json.atoms k)) ∧ Json.Clean fenceTicks v := by
  obtain ⟨best, hbest, hget⟩ := Option.bind_eq_some_iff.1 hv
  exact (h best (List.mem_of_mem_filter (List.argmax_mem hbest))).get? hget

theorem clean_mergeJsonObjects {o : Obj ν} {later : List (Obj ν)} (h : ∀ q ∈ o :: later, CleanObj q)
    (preferKeys : List Text) : CleanObj (mergeJsonObjects P preferKeys (o :: later)) := by
  have hmerged : ∀ {l : List (Obj ν)} {d : Obj ν}, (∀ q ∈ l, CleanObj q) → CleanObj d →
      CleanObj (l.foldl ExtractJson.mergeObject d) := by
    intro l
    induction l with
    | nil => exact fun _ hd => hd
    | cons q l ih =>
      intro d hl hd
      exact ih (fun q' hq' => hl q' (List.mem_cons_of_mem q hq')) (hd.mergeObject (hl q List.mem_cons_self))
  rw [mergeJsonObjects]
  have hstart := hmerged (fun q hq => h q (List.mem_cons_of_mem o hq)) (h o List.mem_cons_self)
  generalize later.foldl ExtractJson.mergeObject o = d at hstart
  induction preferKeys generalizing d with
  | nil => exact hstart
  | cons pk keys ih =>
    refine ih _ ?_
    rw [preferKey]
    split
    · exact hstart
    · next v hbest =>
      obtain ⟨hk, hv⟩ := clean_bestAt P h hbest
      exact hstart.set hk hv

theorem objectsAt_eq_nil {t : Text} (h : '{' ∉ t) : objectsAt P t = [] := by
  have hnone := objectsAt_append P h []
  rwa [List.append_nil] at hnone

theorem infix_body (t : Text) : strip (t.dropWhile isLangChar) <:+: t :=
  (infix_strip _).trans (List.dropWhile_suffix _).isInfix

/-- A fence in the prose in front leaves some of the prose. -/
theorem no_brace_of_fence_before {before : Prose} (h : fence <:+: before.val) (after : Prose) (t : Text) :
    '{' ∉ stripMarkdownFences (Wrapping.wrap (.fenced before after) t) := by
  obtain ⟨lead, rest, heq⟩ := h
  obtain ⟨i, hi⟩ := exists_find heq.symm
  obtain ⟨pre, post, hsplit, hlen⟩ := split_of_find hi
  generalize htail : ("json\n".toList ++ t ++ ['\n']) ++ fence ++ after.val = tail
  have hwrap : Wrapping.wrap (.fenced before after) t = before.val ++ (fence ++ tail) := by
    simp only [Wrapping.wrap, ← htail, List.append_assoc]
  have hdrop : (Wrapping.wrap (.fenced before after) t).drop (i + 3) = post ++ fence ++ tail := by
    rw [hwrap, hsplit, List.append_assoc, ← hlen, List.append_assoc post]
    exact List.drop_left' (by simp [fence_eq])
  obtain ⟨j, hj⟩ : ∃ j, find fence (post ++ fence ++ tail) = some j := exists_find rfl
  have hle := find_le hj rfl
  rw [stripMarkdownFences_of_find (by rw [hwrap]; exact find_append_right _ hi) hdrop hj, List.append_assoc,
    List.take_append_of_le_length hle]
  intro hmem
  have hpost := List.mem_of_mem_take ((infix_body _).subset hmem)
  exact before.property.1 (hsplit ▸ List.mem_append_right _ hpost)

/-- A fence in the text is taken for the closing one. -/
theorem find_inside {t : Text} {k : ℕ} (hk : find fence t = some k) {ticks : Text}
    (hticks : ticks = [] ∨ ticks = [tick] ∨ ticks = [tick, tick]) (after : Text) :
    find fence (ticks ++ (("json\n".toList ++ t ++ ['\n']) ++ fence ++ after)) =
      some ((ticks ++ "json\n".toList).length + k) := by
  have hno := no_fence_inside hticks (no_fence_short (t := []) (by decide))
  have hlast : ∀ c ∈ (ticks ++ "json\n".toList).getLast?, c ∉ fence := by
    have hend : (ticks ++ "json\n".toList).getLast? = some '\n' := by simp
    intro c hc
    rw [hend, Option.mem_some_iff] at hc
    rw [← hc]
    decide
  rw [List.append_nil] at hno
  have hassoc : ticks ++ (("json\n".toList ++ t ++ ['\n']) ++ fence ++ after) =
      (ticks ++ "json\n".toList) ++ (t ++ (['\n'] ++ fence ++ after)) := by
    simp only [List.append_assoc]
  rw [hassoc, find_append _ hno hlast, find_append_right _ hk]
  rfl

/-- No fence stands before the first one. -/
theorem free_before {t pre post : Text} {i : ℕ} (hi : find fence t = some i) (hsplit : t = pre ++ fence ++ post)
    (hlen : pre.length = i) : ¬ fence <:+: pre := by
  rintro ⟨a, b, rfl⟩
  have hearlier : t = a ++ fence ++ (b ++ fence ++ post) := by
    rw [hsplit]
    simp
  have hle := find_le hi hearlier
  rw [← hlen] at hle
  rw [fence_eq, List.length_append, List.length_append] at hle
  simp only [List.length_cons, List.length_nil] at hle
  omega

/-- What is left where the object is cut: something that is less than it, or nothing. -/
theorem stripMarkdownFences_cut (o : Obj ν) {w : Wrapping} (h : ¬ Uncut w (dumps P o)) :
    '{' ∉ stripMarkdownFences (w.wrap (dumps P o)) ∨
      ∃ front piece back p, dumps P o = front ++ (piece ++ fence ++ back) ∧ ¬ fence <:+: piece ∧ '{' ∉ p ∧
        stripMarkdownFences (w.wrap (dumps P o)) <:+: p ++ piece := by
  cases w with
  | alone =>
    simp only [Uncut, not_forall] at h
    obtain ⟨i, hi, hrest⟩ := h
    obtain ⟨j, hj⟩ := Option.ne_none_iff_exists'.1 hrest
    obtain ⟨pre, post, hsplit, hlen⟩ := split_of_find hj
    refine Or.inr ⟨(dumps P o).take (i + 3), pre, post, [], ?_, free_before hj hsplit hlen, by simp, ?_⟩
    · rw [← hsplit, List.take_append_drop]
    · have htake : ((dumps P o).drop (i + 3)).take j = pre := by
        rw [hsplit, ← hlen, List.append_assoc, List.take_left]
      rw [Wrapping.wrap, stripMarkdownFences_of_find hi rfl hj, htake]
      exact infix_body pre
  | fenced before after =>
    by_cases hbefore : fence <:+: before.val
    · exact Or.inl (no_brace_of_fence_before hbefore after _)
    · obtain ⟨lead, rest, heq⟩ : fence <:+: dumps P o := by
        by_contra hno
        exact h ⟨hbefore, hno⟩
      obtain ⟨k, hk⟩ := exists_find heq.symm
      obtain ⟨pre, post, hsplit, hlen⟩ := split_of_find hk
      obtain ⟨ticks, i, hticks, hi, hdrop⟩ := find_fenced hbefore after (dumps P o)
      refine Or.inr ⟨[], pre, post, ticks ++ "json\n".toList, hsplit, free_before hk hsplit hlen, ?_, ?_⟩
      · rcases hticks with rfl | rfl | rfl <;> decide
      · have htake : (ticks ++ (("json\n".toList ++ dumps P o ++ ['\n']) ++ fence ++ after.val)).take
            ((ticks ++ "json\n".toList).length + k) = ticks ++ "json\n".toList ++ pre := by
          rw [← hlen, ← List.length_append, hsplit]
          have hassoc : ticks ++ (("json\n".toList ++ (pre ++ fence ++ post) ++ ['\n']) ++ fence ++ after.val) =
              (ticks ++ "json\n".toList ++ pre) ++ (fence ++ post ++ ['\n'] ++ fence ++ after.val) := by
            simp only [List.append_assoc]
          rw [hassoc, List.take_left]
        rw [stripMarkdownFences_of_find hi hdrop (find_inside hk hticks after.val), htake]
        exact infix_body _

variable (repair : Text → Option (Repaired ν))

/-- A list under `plan` is shortened, so that what is cut off of it does not tell, and one that is preferred may be
    repaired. Then no string of it holds a fence, and it is not preferred. -/
def PlanAside (preferKeys : List Text) (o : Obj ν) : Prop :=
  ∀ items, o.get? planKey = some (.arr items) → Json.Clean fenceTicks (.arr items) ∧ planKey ∉ preferKeys

/-- What a merge of objects without a fence is given out for holds none outside of its plan. -/
theorem clean_of_normalised_eq {merged o : Obj ν} (hm : CleanObj merged)
    (hplan : ∀ items, o.get? planKey = some (.arr items) → Json.Clean fenceTicks (.arr items))
    (heq : normalised P merged = normalised P o) : CleanObj o := by
  refine Json.membersClean_iff.2 fun e he => ?_
  have hv := PyDict.mem_entries.1 he
  have hget : (merged.get? e.1).map (normal P e.1) = (o.get? e.1).map (normal P e.1) := by
    rw [← get?_normalised, ← get?_normalised, heq]
  rw [hv, Option.map_some] at hget
  obtain ⟨u, hu, hnormal⟩ := Option.map_eq_some_iff.1 hget
  have hclean := hm.get? hu
  refine ⟨hclean.1, ?_⟩
  by_cases hlist : ∃ items, e.2 = .arr items
  · obtain ⟨items, hitems⟩ := hlist
    by_cases hk : e.1 = planKey
    · rw [hitems]
      exact hplan items (by rw [← hk, hv, hitems])
    · rw [normal_of_ne P hk, normal_of_ne P hk] at hnormal
      exact hnormal ▸ hclean.2
  · rw [eq_of_normal_eq P (fun items h => hlist ⟨items, h⟩) hnormal] at hclean
    exact hclean.2

/-- A repaired object has a plan, and so is none without one. -/
theorem Repaired.ne_normalised (r : Repaired ν) {o : Obj ν} (h : ∀ items, o.get? planKey ≠ some (.arr items)) :
    r.obj ≠ normalised P o := by
  intro heq
  have hget := get?_normalised P o planKey
  rw [← heq, r.plan] at hget
  obtain ⟨u, hu, hnormal⟩ := Option.map_eq_some_iff.1 hget.symm
  cases u with
  | arr items => exact h items hu
  | _ => cases hnormal

/-- Where no object is found, none comes back. -/
theorem not_back_of_none {text : Text} (h : objectsAt P (stripMarkdownFences text) = []) {preferKeys : List Text}
    {o : Obj ν} (hplan : PlanAside preferKeys o) : extractJson P repair text preferKeys ≠ .ok (normalised P o) := by
  intro hback
  rw [extractJson, iterJsonObjects, h] at hback
  simp only at hback
  split at hback
  · next r hr =>
    have hpreferred : planKey ∈ preferKeys := by
      by_contra hno
      rw [if_neg hno] at hr
      cases hr
    exact r.ne_normalised P (fun items h => (hplan items h).2 hpreferred) (Except.ok.inj hback)
  · cases hback

/-- A cut object does not come back. -/
theorem not_back_of_cut (o : Obj ν) (preferKeys : List Text) {w : Wrapping} (hplan : PlanAside preferKeys o)
    (hcut : ¬ Uncut w (dumps P o)) :
    extractJson P repair (w.wrap (dumps P o)) preferKeys ≠ .ok (normalised P o) := by
  rcases stripMarkdownFences_cut P o hcut with hnone | ⟨front, piece, back, p, ho, hfree, hp, hpart⟩
  · exact not_back_of_none P repair (objectsAt_eq_nil P hnone) hplan
  · cases hobjects : objectsAt P (stripMarkdownFences (w.wrap (dumps P o))) with
    | nil => exact not_back_of_none P repair hobjects hplan
    | cons q l =>
      intro hback
      have hclean : ∀ q' ∈ q :: l, CleanObj q' := by
        intro q' hq'
        exact clean_of_cut P ho hfree hp hpart (hobjects ▸ hq')
      have hmerged : CleanObj (if preferKeys = [] then q else mergeJsonObjects P preferKeys (q :: l)) := by
        split_ifs
        · exact hclean q List.mem_cons_self
        · exact clean_mergeJsonObjects P hclean preferKeys
      rw [extractJson, iterJsonObjects, hobjects] at hback
      have hwhole := clean_of_normalised_eq P hmerged (fun items h => (hplan items h).1) (Except.ok.inj hback)
      -- so the text has no fence at all
      have htext := Json.free_dumps (N := P.toNumbers) (.obj o.entries) hwhole Json.free_nil
      rw [List.append_nil] at htext
      refine htext ⟨front ++ piece, back, ?_⟩
      rw [List.append_assoc, List.append_assoc, ← List.append_assoc piece]
      exact ho.symm

/-- An object comes back, up to its plan, just where the fences do not cut it and either no keys are preferred or
    nothing that is read at a later brace disturbs it. -/
theorem extract_json_iff (o : JsonObject ν) (preferKeys : List Text) (w : Wrapping) :
    (Uncut w (dumps P o.val) →
      (extractJson P repair (w.wrap (dumps P o.val)) preferKeys = .ok (normalised P o.val) ↔
        preferKeys = [] ∨ ∀ k, Undisturbed P preferKeys o.val (laterObjects P o.val) k)) ∧
    (PlanAside preferKeys o.val →
      (extractJson P repair (w.wrap (dumps P o.val)) preferKeys = .ok (normalised P o.val) ↔
        Uncut w (dumps P o.val) ∧
          (preferKeys = [] ∨ ∀ k, Undisturbed P preferKeys o.val (laterObjects P o.val) k))) := by
  have huncut (h : Uncut w (dumps P o.val)) :
      extractJson P repair (w.wrap (dumps P o.val)) preferKeys = .ok (normalised P o.val) ↔
        preferKeys = [] ∨ ∀ k, Undisturbed P preferKeys o.val (laterObjects P o.val) k := by
    rw [extractJson, iterJsonObjects_wrap P o h]
    simp only [Except.ok.injEq]
    by_cases hkeys : preferKeys = []
    · simp [hkeys]
    · rw [if_neg hkeys, normalised_merge_iff P o.property]
      simp [hkeys]
  refine ⟨huncut, fun hplan => ⟨fun hback => ?_, fun h => (huncut h.1).2 h.2⟩⟩
  by_cases h : Uncut w (dumps P o.val)
  · exact ⟨h, (huncut h).1 hback⟩
  · exact absurd hback (not_back_of_cut P repair o.val preferKeys hplan h)

/-! ### A number is its literal -/

/-- Numbers as they are written. -/
def literals : Numbers {t : Text // JsonNumber.Literal t} where
  text n := n.val
  read t := if h : JsonNumber.Literal t then ⟨t, h⟩ else ⟨['0'], by decide⟩
  literal n := n.property
  read_text n := dif_pos n.property

def literalPy : Py {t : Text // JsonNumber.Literal t} where
  toNumbers := literals
  isZero n := n.val = ['0']
  repr v := Json.dumps literals v

/-- `{"summary": "done", "structured": {"x": 1}}`. -/
def nested : JsonObject {t : Text // JsonNumber.Literal t} :=
  ⟨⟨[("summary".toList, .str "done".toList), ("structured".toList, .obj [(['x'], .num ⟨['1'], by decide⟩)])],
    by decide⟩, by simp [Json.Distinct.membersDistinct, Json.Distinct]⟩

example : dumps literalPy nested.val = "\x7b\"summary\": \"done\", \"structured\": \x7b\"x\": 1\x7d\x7d".toList := by
  decide +kernel

/-- Without preferred keys it comes back. -/
theorem extract_json_iff_nested : extractJson literalPy (fun _ => none)
    (Wrapping.alone.wrap (dumps literalPy nested.val)) [] = .ok (normalised literalPy nested.val) := by
  have hfence : find fence (dumps literalPy nested.val) = none := by decide +kernel
  have hplan : (nested.val.get? planKey).isSome = false := by decide +kernel
  refine ((extract_json_iff literalPy (fun _ => none) nested [] .alone).2 fun items h => ?_).2
    ⟨fun i hi => ?_, Or.inl rfl⟩
  · rw [h] at hplan
    cases hplan
  · rw [hfence] at hi
    cases hi

/-- With one the entries of a nested object are merged into the object itself. -/
theorem nested_merged : extractJson literalPy (fun _ => none) (Wrapping.alone.wrap (dumps literalPy nested.val))
    ["summary".toList] ≠ .ok (normalised literalPy nested.val) := by
  intro h
  have hx : ((extractJson literalPy (fun _ => none) (Wrapping.alone.wrap (dumps literalPy nested.val))
      ["summary".toList]).toOption.bind fun o => o.get? ['x']).isSome = true := by decide +kernel
  have hnone : ((normalised literalPy nested.val).get? ['x']).isSome = false := by decide +kernel
  rw [h] at hx
  exact absurd (hx.symm.trans hnone) (by decide)

end AgentLangraph.Llm.ExtractJson
