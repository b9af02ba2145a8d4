import AgentLangraph.Lib.PyVal

/-! Values of loosely typed Python data with their containers: a scalar, a list, or a dictionary with
    text keys. `v.Within w` says that `v` is `w` or a part of it at any depth, `v.Inside w` that it is
    a proper part. -/

open PyText

inductive PyTree
  | leaf (v : PyVal)
  | list (vs : List PyTree)
  | dict (es : List (Text × PyTree))

/-- `dict[str, Any]`. -/
abbrev PyRecord := PyDict Text PyTree

namespace PyTree

/-- `None`. -/
abbrev nil : PyTree := leaf .none

def truthy : PyTree → Bool
  | leaf v => v.truthy
  | list vs => !vs.isEmpty
  | dict es => !es.isEmpty

/-- `a or b`. -/
def orElse (a b : PyTree) : PyTree := if a.truthy then a else b

/-- `isinstance(v, dict)`. -/
def isDict : PyTree → Bool
  | dict _ => true
  | _ => false

/-- `v if isinstance(v, dict) else {}`. -/
def orEmpty (v : PyTree) : PyTree := if v.isDict then v else dict []

/-- `v.get(key)` of a dictionary. -/
def get (v : PyTree) (key : String) : PyTree :=
  match v with
  | dict es => (PyDict.assocGet key.toList es).getD nil
  | _ => nil

/-- The value of a key that is there. -/
def get? (v : PyTree) (key : String) : Option PyTree :=
  match v with
  | dict es => PyDict.assocGet key.toList es
  | _ => none

/-- `{**v, key: x}` of a dictionary. -/
def withField (v : PyTree) (key : String) (x : PyTree) : PyTree :=
  match v with
  | dict es => dict (PyDict.assocSet key.toList x es)
  | _ => v

/-- `"key": v` in a dict display. -/
def entry (key : String) (v : PyTree) : Text × PyTree := (key.toList, v)

/-- `list(v)`, which raises where `v` cannot be iterated. -/
def toList? : PyTree → Option (List PyTree)
  | leaf (.str t) => some (t.map fun c => leaf (.str [c]))
  | leaf _ => none
  | list vs => some vs
  | dict es => some (es.map fun e => leaf (.str e.1))

/-- The values a container holds. -/
def parts : PyTree → List PyTree
  | leaf _ => []
  | list vs => vs
  | dict es => es.map Prod.snd

inductive Within (v : PyTree) : PyTree → Prop
  | self : Within v v
  | part {x w : PyTree} : x ∈ w.parts → Within v x → Within v w

def Inside (v w : PyTree) : Prop := ∃ x ∈ w.parts, v.Within x

/-! ### Records as trees -/

def ofRecord : Option PyRecord → PyTree
  | none => nil
  | some d => dict d.entries

def ofRecords : Option (List PyRecord) → PyTree
  | none => nil
  | some ds => list (ds.map fun d => dict d.entries)

/-- `Optional[dict[str, Any]]`; the validation raises on anything else. -/
def toRecord? : PyTree → Option (Option PyRecord)
  | leaf .none => some none
  | dict es => some (some (PyDict.ofList es))
  | _ => none

def row? : PyTree → Option PyRecord
  | dict es => some (PyDict.ofList es)
  | _ => none

/-- `Optional[list[dict[str, Any]]]`. -/
def toRecords? : PyTree → Option (Option (List PyRecord))
  | leaf .none => some none
  | list vs => (vs.mapM row?).map some
  | _ => none

theorem toRecord?_ofRecord (d : Option PyRecord) : (ofRecord d).toRecord? = some d := by
  cases d with
  | none => rfl
  | some d => exact congrArg (fun e => some (some e)) (PyDict.ofList_entries d)

theorem mapM_row? : ∀ ds : List PyRecord,
    (ds.map fun d => dict d.entries).mapM row? = some ds
  | [] => rfl
  | d :: ds => by
      rw [List.map_cons, List.mapM_cons, mapM_row? ds, row?, PyDict.ofList_entries]
      rfl

theorem toRecords?_ofRecords (ds : Option (List PyRecord)) : (ofRecords ds).toRecords? = some ds := by
  cases ds with
  | none => rfl
  | some ds =>
    change ((ds.map fun d => dict d.entries).mapM row?).map some = some (some ds)
    rw [mapM_row?]
    rfl

/-- A list in the place of a dictionary does not pass. -/
theorem toRecord?_ofRecords {ds : Option (List PyRecord)} (h : (ofRecords ds).truthy) :
    (ofRecords ds).toRecord? = none := by
  cases ds with
  | none => exact absurd h Bool.false_ne_true
  | some ds => rfl

/-! ### Lookups -/

theorem assocGet_entry (key key' : String) (v : PyTree) (es : List (Text × PyTree)) :
    PyDict.assocGet key.toList (entry key' v :: es) =
      if key' = key then some v else PyDict.assocGet key.toList es := by
  change (if key'.toList = key.toList then some v else PyDict.assocGet key.toList es) = _
  by_cases h : key' = key
  · rw [if_pos h, if_pos (congrArg String.toList h)]
  · rw [if_neg h, if_neg fun he => h (String.toList_inj.1 he)]

theorem get_entry (key key' : String) (v : PyTree) (es : List (Text × PyTree)) :
    (dict (entry key' v :: es)).get key = if key' = key then v else (dict es).get key := by
  rw [get, assocGet_entry]
  split_ifs <;> rfl

theorem get_eq (v : PyTree) (key : String) : v.get key = (v.get? key).getD nil := by
  cases v <;> rfl

theorem get?_withField_self {v : PyTree} (hv : v.isDict) (key : String) (x : PyTree) :
    (v.withField key x).get? key = some x := by
  cases v with
  | dict es => rw [withField, get?, PyDict.assocGet_assocSet, if_pos rfl]
  | leaf a => cases hv
  | list vs => cases hv

theorem get?_withField_ne (v : PyTree) {key key' : String} (h : key ≠ key') (x : PyTree) :
    (v.withField key x).get? key' = v.get? key' := by
  cases v with
  | dict es => rw [withField, get?, PyDict.assocGet_assocSet, if_neg fun he => h (String.toList_inj.1 he), get?]
  | leaf a => rfl
  | list vs => rfl

theorem get_withField_self {v : PyTree} (hv : v.isDict) (key : String) (x : PyTree) :
    (v.withField key x).get key = x := by
  rw [get_eq, get?_withField_self hv]
  rfl

@[simp] theorem isDict_withField (v : PyTree) (key : String) (x : PyTree) :
    (v.withField key x).isDict = v.isDict := by
  cases v <;> rfl

/-- A dictionary is left as it is just where the key has the value already. -/
theorem withField_eq_self_iff {v : PyTree} (hv : v.isDict) {key : String} {x : PyTree} :
    v.withField key x = v ↔ v.get? key = some x := by
  constructor
  · intro h
    rw [← h, get?_withField_self hv]
  · intro h
    cases v with
    | dict es => rw [withField, PyDict.assocSet_of_get h]
    | leaf a => cases hv
    | list vs => cases hv

theorem isDict_of_get {v : PyTree} {key : String} (h : v.get key ≠ nil) : v.isDict := by
  cases v with
  | dict es => rfl
  | leaf a => exact absurd rfl h
  | list vs => exact absurd rfl h

@[simp] theorem orElse_of_truthy {a b : PyTree} (h : a.truthy) : a.orElse b = a := if_pos h

theorem orElse_of_not {a b : PyTree} (h : ¬ a.truthy) : a.orElse b = b := if_neg h

/-! ### Parts -/

theorem within_iff {v w : PyTree} : v.Within w ↔ v = w ∨ v.Inside w := by
  constructor
  · rintro (_ | ⟨hpart, hv⟩)
    · exact Or.inl rfl
    · exact Or.inr ⟨_, hpart, hv⟩
  · rintro (rfl | ⟨x, hpart, hv⟩)
    · exact Within.self
    · exact Within.part hpart hv

theorem not_inside_leaf (v : PyTree) (a : PyVal) : ¬ v.Inside (leaf a) := by
  rintro ⟨x, hx, -⟩
  cases hx

theorem not_within_leaf {v : PyTree} {a : PyVal} (h : v ≠ leaf a) : ¬ v.Within (leaf a) :=
  fun hv => (within_iff.1 hv).elim h (not_inside_leaf v a)

/-- What is not the dictionary itself is in one of its values. -/
theorem within_dict_iff {v : PyTree} {es : List (Text × PyTree)} (h : v ≠ dict es) :
    v.Within (dict es) ↔ ∃ x ∈ es.map Prod.snd, v.Within x :=
  within_iff.trans (or_iff_right h)

theorem Within.trans {u v w : PyTree} (huv : u.Within v) (hvw : v.Within w) : u.Within w := by
  induction hvw with
  | self => exact huv
  | part hpart _ ih => exact Within.part hpart ih

theorem Inside.within {v w : PyTree} (h : v.Inside w) : v.Within w := within_iff.2 (Or.inr h)

theorem Within.trans_inside {u v w : PyTree} (huv : u.Within v) (hvw : v.Inside w) : u.Inside w := by
  obtain ⟨x, hx, hv⟩ := hvw
  exact ⟨x, hx, huv.trans hv⟩

end PyTree
