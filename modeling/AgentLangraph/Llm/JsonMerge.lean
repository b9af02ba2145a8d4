import AgentLangraph.Lib.Json
import Mathlib.Data.List.MinMax

/-! What is made of several JSON objects of one answer. What the first one leaves empty the later ones fill in,
    and a preferred key gets the longest value that there is.

        {"summary": "done", "mission": {"a": 1}},  {"mission": {"b": 2}},  {"x": 3}
             ──merge──▶   {"summary": "done", "mission": {"a": 1, "b": 2}, "x": 3} -/

namespace AgentLangraph.Llm.ExtractJson
open PyText

/-- Python's side of JSON: which numbers are zero, and `str` of what is neither a string nor a constant. -/
structure Py (ν : Type) extends Numbers ν where
  isZero : ν → Bool
  repr : Json ν → Text

abbrev Obj (ν : Type) := PyDict Text (Json ν)

variable {ν : Type} (P : Py ν)

/-- `str(v)`. -/
def str : Json ν → Text
  | .null => "None".toList
  | .bool true => "True".toList
  | .bool false => "False".toList
  | .str t => t
  | v => P.repr v

def truthy : Json ν → Bool
  | .null => false
  | .bool b => b
  | .num n => !P.isZero n
  | .str t => !t.isEmpty
  | .arr vs => !vs.isEmpty
  | .obj es => !es.isEmpty

/-- `v in (None, "", [], {})`. -/
def isEmpty : Json ν → Bool
  | .null => true
  | .str t => t.isEmpty
  | .arr vs => vs.isEmpty
  | .obj es => es.isEmpty
  | _ => false

/-! ### The plan -/

def planningPlanMaxSteps : ℕ := 12

def planKey : Text := "plan".toList

/-- `_is_repetitive_writing_step`. -/
def isRepetitiveWritingStep (label : Text) : Bool :=
  ["append".toList, "续写".toList, "chapter".toList, "body".toList].any fun word =>
    contains (label.map Char.toLower) word

/-- One round of the loop in `normalize_planning_plan`. -/
def addStep (steps : List Text) (item : Json ν) : List Text :=
  let text := strip (str P item)
  if text = [] then steps
  else
    match steps.getLast? with
    | none => [text]
    | some last =>
      if isRepetitiveWritingStep text && isRepetitiveWritingStep last then steps else steps ++ [text]

/-- `normalize_planning_plan`. -/
def normalizePlanningPlan (plan : List (Json ν)) : List Text :=
  let steps := plan.foldl (addStep P) []
  if steps.length ≤ planningPlanMaxSteps then steps
  else
    let head := steps.take 2
    let tail := if 3 < steps.length then steps.getLast?.toList else []
    let middle := (steps.drop 2).dropLast.filter fun s => !isRepetitiveWritingStep s
    let merged := (head ++ middle ++ tail).take planningPlanMaxSteps
    match steps with
    | first :: _ => if merged.length < 2 then [first, "append body via writing/mission".toList] else merged
    | [] => merged

/-- The value of a key as it is given out: the plan is shortened. -/
def normal (k : Text) (v : Json ν) : Json ν :=
  match v with
  | .arr items => if k = planKey then .arr ((normalizePlanningPlan P items).map .str) else .arr items
  | _ => v

/-- `if isinstance(merged.get("plan"), list): merged["plan"] = normalize_planning_plan(merged["plan"])`. -/
def normalised (o : Obj ν) : Obj ν :=
  match o.get? planKey with
  | some (.arr items) => o.set planKey (.arr ((normalizePlanningPlan P items).map .str))
  | _ => o

/-! ### The merge -/

def nestedMergeKeys : List Text :=
  ["structured".toList, "writing_intent".toList, "mission".toList, "tool_params".toList]

/-- What becomes of the value of a key when a later object has another one. -/
def fillValue (k : Text) (current : Option (Json ν)) (v : Json ν) : Json ν :=
  match current with
  | none => v
  | some c =>
    if isEmpty c then v
    else
      match c, v with
      | .obj cur, .obj val =>
        if k ∈ nestedMergeKeys then .obj ((PyDict.ofList cur).update (PyDict.ofList val)).entries else c
      | _, _ => c

/-- One round of the inner loop in `_merge_json_objects`. -/
def fill (merged : Obj ν) (e : Text × Json ν) : Obj ν := merged.set e.1 (fillValue e.1 (merged.get? e.1) e.2)

def mergeObject (merged obj : Obj ν) : Obj ν := obj.entries.foldl fill merged

/-- `str(o.get(pk) or "")`. -/
def textAt (pk : Text) (o : Obj ν) : Text :=
  match o.get? pk with
  | none => []
  | some v => if truthy P v then str P v else []

/-- The objects that say something under a key. -/
def candidates (pk : Text) (objects : List (Obj ν)) : List (Obj ν) :=
  objects.filter fun o => strip (textAt P pk o) ≠ []

/-- `max(candidates, key=lambda o: len(str(o.get(pk) or "")))[pk]`: the longest, the first of them. -/
def bestAt (pk : Text) (objects : List (Obj ν)) : Option (Json ν) :=
  ((candidates P pk objects).argmax fun o => (textAt P pk o).length).bind fun best => best.get? pk

/-- One round of the loop over the preferred keys. -/
def preferKey (objects : List (Obj ν)) (merged : Obj ν) (pk : Text) : Obj ν :=
  match bestAt P pk objects with
  | none => merged
  | some v => merged.set pk v

/-- `_merge_json_objects`. -/
def mergeJsonObjects (preferKeys : List Text) : List (Obj ν) → Obj ν
  | [] => PyDict.empty
  | o :: later => preferKeys.foldl (preferKey P (o :: later)) (later.foldl mergeObject o)

/-! ### Key by key -/

theorem normal_of_ne {k : Text} (h : k ≠ planKey) (v : Json ν) : normal P k v = v := by
  cases v <;> simp [normal, h]

theorem normal_of_not_list (k : Text) {v : Json ν} (h : ∀ items, v ≠ .arr items) : normal P k v = v := by
  cases v with
  | arr items => exact absurd rfl (h items)
  | _ => rfl

theorem eq_of_normal_eq {k : Text} {u v : Json ν} (h : ∀ items, v ≠ .arr items) (heq : normal P k u = normal P k v) :
    u = v := by
  rw [normal_of_not_list P k h] at heq
  cases u with
  | arr items =>
    simp only [normal] at heq
    split_ifs at heq
    · exact absurd heq.symm (h _)
    · exact heq
  | _ => exact heq

theorem get?_normalised (o : Obj ν) (k : Text) : (normalised P o).get? k = (o.get? k).map (normal P k) := by
  have hid : (∀ items, o.get? planKey ≠ some (.arr items)) → o.get? k = (o.get? k).map (normal P k) := by
    intro hplan
    cases hv : o.get? k with
    | none => rfl
    | some v =>
      rw [Option.map_some]
      cases v with
      | arr items =>
        have hk : k ≠ planKey := by
          rintro rfl
          exact hplan items hv
        rw [normal_of_ne P hk]
      | _ => rfl
  rw [normalised]
  split
  · next items hplan =>
    rw [PyDict.get?_set]
    split_ifs with hk
    · subst hk
      rw [hplan]
      simp [normal]
    · cases o.get? k with
      | none => rfl
      | some v => rw [Option.map_some, normal_of_ne P (Ne.symm hk)]
  · next hplan => exact hid fun items h => hplan items h

/-- The plan keeps its place. -/
theorem keys_normalised (o : Obj ν) : (normalised P o).entries.map Prod.fst = o.entries.map Prod.fst := by
  rw [normalised]
  split
  · next items hplan =>
    rw [PyDict.set, PyDict.keys_assocSet, if_pos (PyDict.mem_keys_iff.2 ⟨_, hplan⟩)]
  · rfl

/-- The values of a key, object by object. -/
def valuesAt (k : Text) (objects : List (Obj ν)) : List (Json ν) := objects.filterMap fun o => o.get? k

theorem get?_mergeObject (merged obj : Obj ν) (k : Text) :
    (mergeObject merged obj).get? k =
      match obj.get? k with
      | none => merged.get? k
      | some v => some (fillValue k (merged.get? k) v) := by
  obtain ⟨es, hd⟩ := obj
  simp only [mergeObject, PyDict.get?]
  induction es generalizing merged with
  | nil => rfl
  | cons e es ih =>
    rw [List.map_cons, List.nodup_cons] at hd
    have hfill := PyDict.get?_set merged e.1 k (fillValue e.1 (merged.get? e.1) e.2)
    rw [List.foldl_cons, ih (fill merged e) hd.2]
    simp only [fill, PyDict.assocGet, PyDict.get?] at hfill ⊢
    by_cases hk : e.1 = k
    · subst hk
      rw [if_pos rfl] at hfill ⊢
      rw [PyDict.assocGet_eq_none hd.1, hfill]
    · rw [if_neg hk] at hfill ⊢
      rw [hfill]

/-- The value of a key, with the later ones filled in. -/
def filled (k : Text) (current : Option (Json ν)) (vs : List (Json ν)) : Option (Json ν) :=
  vs.foldl (fun c v => some (fillValue k c v)) current

theorem get?_foldl_mergeObject (later : List (Obj ν)) (o : Obj ν) (k : Text) :
    (later.foldl mergeObject o).get? k = filled k (o.get? k) (valuesAt k later) := by
  induction later generalizing o with
  | nil => rfl
  | cons p later ih =>
    rw [List.foldl_cons, ih, get?_mergeObject]
    simp only [valuesAt, List.filterMap_cons]
    cases p.get? k <;> rfl

theorem get?_preferKey (objects : List (Obj ν)) (merged : Obj ν) (pk k : Text) :
    (preferKey P objects merged pk).get? k =
      if pk = k then (bestAt P k objects).or (merged.get? k) else merged.get? k := by
  rw [preferKey]
  split
  · next hbest =>
    split_ifs with hk
    · rw [← hk, hbest, Option.none_or]
    · rfl
  · next v hbest =>
    rw [PyDict.get?_set]
    split_ifs with hk
    · rw [← hk, hbest, Option.some_or]
    · rfl

theorem get?_foldl_preferKey (objects : List (Obj ν)) (preferKeys : List Text) (merged : Obj ν) (k : Text) :
    (preferKeys.foldl (preferKey P objects) merged).get? k =
      if k ∈ preferKeys then (bestAt P k objects).or (merged.get? k) else merged.get? k := by
  induction preferKeys generalizing merged with
  | nil => simp
  | cons pk keys ih =>
    rw [List.foldl_cons, ih, get?_preferKey]
    by_cases hk : k = pk
    · subst hk
      cases hbest : bestAt P k objects <;> simp
    · simp [hk, Ne.symm hk]

/-- The value of a key that is merged. -/
theorem get?_mergeJsonObjects (preferKeys : List Text) (o : Obj ν) (later : List (Obj ν)) (k : Text) :
    (mergeJsonObjects P preferKeys (o :: later)).get? k =
      if k ∈ preferKeys then (bestAt P k (o :: later)).or (filled k (o.get? k) (valuesAt k later))
      else filled k (o.get? k) (valuesAt k later) := by
  rw [mergeJsonObjects, get?_foldl_preferKey, get?_foldl_mergeObject]

theorem extends_mergeJsonObjects (preferKeys : List Text) (o : Obj ν) (later : List (Obj ν)) :
    o.Extends (mergeJsonObjects P preferKeys (o :: later)) := by
  have hfill (d : Obj ν) (e : Text × Json ν) : d.Extends (fill d e) := PyDict.extends_set d _ _
  have hmerge (d p : Obj ν) : d.Extends (mergeObject d p) := PyDict.extends_foldl hfill p.entries d
  have hprefer (d : Obj ν) (pk : Text) : d.Extends (preferKey P (o :: later) d pk) := by
    rw [preferKey]
    split
    · exact PyDict.Extends.refl d
    · exact PyDict.extends_set d _ _
  exact (PyDict.extends_foldl hmerge later o).trans (PyDict.extends_foldl hprefer preferKeys _)

/-- Something is said under a key if there is a longest value. -/
theorem bestAt_eq_none_iff (k : Text) (objects : List (Obj ν)) :
    bestAt P k objects = none ↔ candidates P k objects = [] := by
  constructor
  · intro h
    rw [bestAt] at h
    cases hmax : (candidates P k objects).argmax fun o => (textAt P k o).length with
    | none => exact List.argmax_eq_none.1 hmax
    | some best =>
      rw [hmax, Option.bind_some] at h
      have hmem := List.argmax_mem hmax
      have hsolid := (List.mem_filter.1 hmem).2
      simp [textAt, h, strip, lstrip, rstrip] at hsolid
  · intro h
    rw [bestAt, h]
    rfl

/-! ### What is left of a value -/

/-- The dictionaries among some values. -/
def dicts (vs : List (Json ν)) : List (Obj ν) :=
  vs.filterMap fun v =>
    match v with
    | .obj es => some (PyDict.ofList es)
    | _ => none

/-- What an empty value is filled in with: the first one that is not empty, or else the last one. -/
def settled (v : Json ν) (vs : List (Json ν)) : Json ν :=
  ((vs.find? fun w => !isEmpty w).or vs.getLast?).getD v

theorem filled_cons (k : Text) (current : Option (Json ν)) (v : Json ν) (vs : List (Json ν)) :
    filled k current (v :: vs) = filled k (some (fillValue k current v)) vs := rfl

/-- What is there stays there. -/
theorem filled_some (k : Text) (v : Json ν) (vs : List (Json ν)) : ∃ w, filled k (some v) vs = some w := by
  induction vs generalizing v with
  | nil => exact ⟨v, rfl⟩
  | cons u vs ih => exact ih (fillValue k (some v) u)

theorem filled_eq_none_iff (k : Text) (vs : List (Json ν)) : filled k none vs = none ↔ vs = [] := by
  cases vs with
  | nil => exact ⟨fun _ => rfl, fun _ => rfl⟩
  | cons v vs =>
    obtain ⟨w, hw⟩ := filled_some k v vs
    have hcons : filled k none (v :: vs) = some w := hw
    simp [hcons]

theorem isEmpty_update {d e : Obj ν} (h : d.entries ≠ []) : (d.update e).entries ≠ [] := by
  intro hnil
  have hkeys := PyDict.extends_update d e
  rw [PyDict.Extends, hnil] at hkeys
  exact h (List.map_eq_nil_iff.1 (List.prefix_nil.1 hkeys))

/-- A dictionary that is not empty takes over the entries of the later ones, under some keys. -/
theorem filled_dict {k : Text} (hk : k ∈ nestedMergeKeys) {d : Obj ν} (hd : d.entries ≠ []) (vs : List (Json ν)) :
    filled k (some (.obj d.entries)) vs = some (.obj ((dicts vs).foldl PyDict.update d).entries) := by
  induction vs generalizing d with
  | nil => rfl
  | cons v vs ih =>
    have hempty : isEmpty (.obj d.entries) = false := by simpa [isEmpty] using hd
    rw [filled_cons]
    cases v with
    | obj es =>
      have hfill : fillValue k (some (.obj d.entries)) (.obj es) = .obj (d.update (PyDict.ofList es)).entries := by
        simp only [fillValue, hempty, if_pos hk, PyDict.ofList_entries]
        rfl
      rw [hfill, ih (isEmpty_update hd)]
      rfl
    | _ =>
      simp only [fillValue, hempty]
      exact ih hd

/-- Any other value that is not empty stays. -/
theorem filled_of_not_dict {k : Text} {v : Json ν} (hv : isEmpty v = false)
    (h : k ∉ nestedMergeKeys ∨ ∀ es, v ≠ .obj es) (vs : List (Json ν)) : filled k (some v) vs = some v := by
  induction vs with
  | nil => rfl
  | cons w vs ih =>
    have hfill : fillValue k (some v) w = v := by
      simp only [fillValue, hv, Bool.false_eq_true, if_false]
      split
      · next cur val =>
        rcases h with hk | hdict
        · exact if_neg hk
        · exact absurd rfl (hdict cur)
      · rfl
    rw [filled_cons, hfill, ih]

theorem get?_foldl_update (l : List (Obj ν)) (d : Obj ν) (k : Text) :
    (l.foldl PyDict.update d).get? k = (valuesAt k l).getLast?.or (d.get? k) := by
  induction l using List.reverseRecOn with
  | nil => rfl
  | append_singleton l e ih =>
    rw [List.foldl_append, List.foldl_cons, List.foldl_nil, PyDict.get?_update, ih, valuesAt, valuesAt,
      List.filterMap_append]
    cases he : e.get? k <;> simp [he]

/-- The dictionaries merge to what was there just where the last of them agree with it. -/
theorem foldl_update_eq_iff (l : List (Obj ν)) (d : Obj ν) :
    l.foldl PyDict.update d = d ↔ ∀ k w, w ∈ (valuesAt k l).getLast? → d.get? k = some w := by
  constructor
  · intro h k w hw
    have hget := get?_foldl_update l d k
    rw [h, hw, Option.some_or] at hget
    exact hget
  · intro h
    refine (PyDict.extends_foldl PyDict.extends_update l d).eq_of_get? fun k => ?_
    rw [get?_foldl_update]
    cases hlast : (valuesAt k l).getLast? with
    | none => exact Option.none_or
    | some w => rw [Option.some_or, h k w hlast]

theorem ofList_ne_nil {es : List (Text × Json ν)} (h : es ≠ []) : (PyDict.ofList es).entries ≠ [] := by
  obtain ⟨e, es, rfl⟩ := List.exists_cons_of_ne_nil h
  have hset (d : Obj ν) (kv : Text × Json ν) : d.Extends (d.set kv.1 kv.2) := PyDict.extends_set d _ _
  obtain ⟨more, hmore⟩ := PyDict.extends_foldl hset es (PyDict.empty.set e.1 e.2)
  intro hnil
  change (PyDict.ofList (e :: es)).entries = [] at hnil
  rw [PyDict.ofList, List.foldl_cons] at hnil
  rw [hnil] at hmore
  cases hmore

theorem isEmpty_fillValue (k : Text) {v : Json ν} (hv : isEmpty v = false) (w : Json ν) :
    isEmpty (fillValue k (some v) w) = false := by
  simp only [fillValue, hv, Bool.false_eq_true, if_false]
  split
  · next cur val =>
    split_ifs
    · have hcur : cur ≠ [] := by simpa [isEmpty] using hv
      simpa [isEmpty] using isEmpty_update (ofList_ne_nil hcur)
    · exact hv
  · exact hv

/-- A value that is not empty becomes none that is, and stays the same under most keys. -/
theorem filled_not_empty (k : Text) {v : Json ν} (hv : isEmpty v = false) (vs : List (Json ν)) :
    ∃ w, filled k (some v) vs = some w ∧ isEmpty w = false ∧ (k ∉ nestedMergeKeys → w = v) := by
  have hstays : ∃ w, filled k (some v) vs = some w ∧ isEmpty w = false := by
    induction vs generalizing v with
    | nil => exact ⟨v, rfl, hv⟩
    | cons u vs ih => exact ih (isEmpty_fillValue k hv u)
  obtain ⟨w, hw, he⟩ := hstays
  refine ⟨w, hw, he, fun hk => ?_⟩
  rw [filled_of_not_dict hv (Or.inl hk)] at hw
  exact (Option.some.inj hw).symm

theorem filled_empty {k : Text} : ∀ {v : Json ν} {vs : List (Json ν)}, isEmpty v →
    (∀ w ∈ vs, isEmpty w) → filled k (some v) vs = some (vs.getLast?.getD v)
  | v, [], _, _ => rfl
  | v, w :: vs, hv, h => by
    have hfill : fillValue k (some v) w = w := if_pos hv
    rw [filled_cons, hfill, filled_empty (h w List.mem_cons_self) fun u hu => h u (List.mem_cons_of_mem w hu)]
    cases vs with
    | nil => rfl
    | cons u vs => simp [List.getLast?_cons]

/-- An empty value becomes the first that is not empty, or else the last. -/
theorem filled_empty_iff {k : Text} {v : Json ν} (hv : isEmpty v) (vs : List (Json ν)) :
    (filled k (some v) vs).map (normal P k) = some (normal P k v) ↔
      normal P k (settled v vs) = normal P k v := by
  cases hfind : vs.find? fun w => !isEmpty w with
  | none =>
    have hall : ∀ w ∈ vs, isEmpty w := by
      intro w hw
      have hw := List.find?_eq_none.1 hfind w hw
      simpa using hw
    rw [settled, hfind, filled_empty hv hall, Option.none_or, Option.map_some, Option.some.injEq]
  | some w =>
    have hw : isEmpty w = false := by simpa using List.find?_some hfind
    obtain ⟨-, pre, post, rfl, hpre⟩ := List.find?_eq_some_iff_append.1 hfind
    have hempty : ∀ u ∈ pre, isEmpty u := fun u hu => by simpa using hpre u hu
    obtain ⟨x, hx, hxe, hsame⟩ := filled_not_empty k hw post
    have hfilled : filled k (some v) (pre ++ w :: post) = some x := by
      have hfill : fillValue k (some (pre.getLast?.getD v)) w = w := by
        have hlast : isEmpty (pre.getLast?.getD v) := by
          cases hl : pre.getLast? with
          | none => exact hv
          | some u => exact hempty u (List.mem_of_getLast? hl)
        exact if_pos hlast
      have hfold : filled k (some v) (pre ++ w :: post) = filled k (filled k (some v) pre) (w :: post) :=
        List.foldl_append
      rw [hfold, filled_empty hv hempty, filled_cons, hfill, hx]
    rw [settled, hfind, hfilled, Option.some_or, Option.getD_some, Option.map_some, Option.some.injEq]
    by_cases hk : k ∈ nestedMergeKeys
    · -- neither value is empty, and such a key is not the plan's
      have hplan : k ≠ planKey := by
        rintro rfl
        revert hk
        decide
      rw [normal_of_ne P hplan, normal_of_ne P hplan, normal_of_ne P hplan]
      constructor
      · rintro rfl
        rw [hxe] at hv
        cases hv
      · rintro rfl
        rw [hw] at hv
        cases hv
    · rw [hsame hk]

/-! ### When the first object is given out -/

/-- The values that come later leave one as it is: an empty one would become `settled`, a dictionary would take over
    their entries under some keys. -/
def Kept (k : Text) (vs : List (Json ν)) : Option (Json ν) → Prop
  | none => vs = []
  | some v =>
    if isEmpty v then normal P k (settled v vs) = normal P k v
    else
      match v with
      | .obj fields =>
        k ∈ nestedMergeKeys → ∀ l w, w ∈ (valuesAt l (dicts vs)).getLast? → PyDict.assocGet l fields = some w
      | _ => True

/-- What the later objects say under a key leaves the first one's value as it is. Of a preferred key the longest
    value counts. -/
def Undisturbed (preferKeys : List Text) (o : Obj ν) (later : List (Obj ν)) (k : Text) : Prop :=
  if k ∈ preferKeys ∧ candidates P k (o :: later) ≠ [] then
    (bestAt P k (o :: later)).map (normal P k) = (o.get? k).map (normal P k)
  else Kept P k (valuesAt k later) (o.get? k)

theorem distinct_of_get? {o : Obj ν} (h : Json.Distinct.membersDistinct o.entries) {k : Text} {v : Json ν}
    (hv : o.get? k = some v) : v.Distinct := by
  have hmem := PyDict.mem_entries.2 hv
  revert h hmem
  generalize o.entries = es
  intro h hmem
  induction es with
  | nil => cases hmem
  | cons e es ih =>
    rcases List.mem_cons.1 hmem with rfl | hmem
    · exact h.1
    · exact ih h.2 hmem

theorem filled_dict_iff (k : Text) {fields : List (Text × Json ν)} (hd : (fields.map Prod.fst).Nodup)
    (hne : fields ≠ []) (vs : List (Json ν)) :
    filled k (some (.obj fields)) vs = some (.obj fields) ↔
      (k ∈ nestedMergeKeys → ∀ l w, w ∈ (valuesAt l (dicts vs)).getLast? → PyDict.assocGet l fields = some w) := by
  by_cases hk : k ∈ nestedMergeKeys
  · have hfill := filled_dict hk (d := ⟨fields, hd⟩) hne vs
    have hiff := foldl_update_eq_iff (dicts vs) ⟨fields, hd⟩
    rw [PyDict.ext'_iff] at hiff
    rw [hfill, Option.some.injEq, Json.obj.injEq]
    simp only [hk, true_implies]
    exact hiff
  · have hempty : isEmpty (.obj fields) = false := by simpa [isEmpty] using hne
    rw [filled_of_not_dict hempty (Or.inl hk)]
    simp [hk]

theorem filled_iff (k : Text) (vs : List (Json ν)) : ∀ {current : Option (Json ν)}, (∀ v ∈ current, v.Distinct) →
    ((filled k current vs).map (normal P k) = current.map (normal P k) ↔ Kept P k vs current)
  | none, _ => by
    rw [Option.map_none, Option.map_eq_none_iff]
    exact filled_eq_none_iff k vs
  | some v, hd => by
    rw [Option.map_some]
    by_cases hv : isEmpty v
    · rw [filled_empty_iff P hv vs]
      cases v <;> simp [Kept, hv]
    have hempty : isEmpty v = false := by simpa using hv
    cases v with
    | obj fields =>
      have hne : fields ≠ [] := by simpa [isEmpty] using hempty
      -- the plan is no dictionary
      have hnormal (w : Json ν) : normal P k w = .obj fields ↔ w = .obj fields := by
        cases w with
        | arr items => simp only [normal]; split_ifs <;> simp
        | _ => rfl
      have hmap : (filled k (some (.obj fields)) vs).map (normal P k) = some (normal P k (.obj fields)) ↔
          filled k (some (.obj fields)) vs = some (.obj fields) := by
        cases filled k (some (.obj fields)) vs with
        | none => simp
        | some w => simpa [normal] using hnormal w
      rw [hmap, filled_dict_iff k (hd _ rfl).1 hne vs, Kept, if_neg hv]
    | _ =>
      rw [filled_of_not_dict hempty (Or.inr fun es => by simp)]
      simp [Kept, hempty]

/-- The merged objects are the first one, up to its plan, just where no key of it is disturbed. -/
theorem normalised_merge_iff {o : Obj ν} (hd : Json.Distinct.membersDistinct o.entries) (preferKeys : List Text)
    (later : List (Obj ν)) :
    normalised P (mergeJsonObjects P preferKeys (o :: later)) = normalised P o ↔
      ∀ k, Undisturbed P preferKeys o later k := by
  have hkey (k : Text) : (normalised P (mergeJsonObjects P preferKeys (o :: later))).get? k =
      (normalised P o).get? k ↔ Undisturbed P preferKeys o later k := by
    have hkept := filled_iff P k (valuesAt k later) fun v hv => distinct_of_get? hd (k := k) hv
    have hbest := bestAt_eq_none_iff P k (o :: later)
    rw [get?_normalised, get?_normalised, get?_mergeJsonObjects, Undisturbed]
    by_cases hk : k ∈ preferKeys
    · cases hb : bestAt P k (o :: later) with
      | none => simpa [hk, hbest.1 hb] using hkept
      | some v =>
        have hne : candidates P k (o :: later) ≠ [] := fun h => by simp [hbest.2 h] at hb
        simp [hk, hne]
    · simpa [hk] using hkept
  constructor
  · intro h k
    exact (hkey k).1 (by rw [h])
  · intro h
    have hget (k : Text) := (hkey k).2 (h k)
    have hextends : (normalised P o).Extends (normalised P (mergeJsonObjects P preferKeys (o :: later))) := by
      rw [PyDict.Extends, keys_normalised, keys_normalised]
      exact extends_mergeJsonObjects P preferKeys o later
    exact hextends.eq_of_get? hget

end AgentLangraph.Llm.ExtractJson
