import AgentLangraph.Lib.PyTree

/-! Fields that are folded into containers (`state_models.py`, `state_field_access.py`, `agent_state_model.py`). A
    state is a dictionary; `progress`, `react_loop` and three more have no key of their own any more. An old snapshot
    still has one, which every merge folds in and removes:

        state ── fold ──▶ validate, dump ── fold ──▶ state
          progress ─▶ background_status.progress and plan_graph.meta.progress
          the others ─▶ plan_graph.meta -/

namespace AgentLangraph.Session.FieldAccess
open PyText PyTree

/-! ### Dictionaries -/

/-- `d.get(key)`. -/
def field (d : PyRecord) (key : String) : PyTree := d.getD key.toList nil

/-- `d[key] = v`. -/
def put (d : PyRecord) (key : String) (v : PyTree) : PyRecord := d.set key.toList v

def isNone : PyTree → Bool
  | leaf .none => true
  | _ => false

def isList : PyTree → Bool
  | list _ => true
  | _ => false

/-- A key and its value, where something with two elements is iterated. The keys are texts. -/
def pair? (v : PyTree) : Option (Text × PyTree) :=
  match v.toList? with
  | some [leaf (.str key), x] => some (key, x)
  | _ => none

/-- `dict(v)`: a copy of a dictionary, or the dictionary of some pairs; it raises on anything else. -/
def toDict? : PyTree → Option PyRecord
  | dict es => some (PyDict.ofList es)
  | v => do
    let items ← v.toList?
    let pairs ← items.mapM pair?
    return PyDict.ofList pairs

/-! ### The fold -/

/-- The legacy keys that go to `plan_graph.meta` whatever they hold, unless it is `None`. -/
def metaKeys : List String :=
  ["mission_step", "mission_control", "exploration", "subtasks", "worker_results", "react_loop", "step_decision"]

/-- `_LEGACY_TOP_LEVEL_FIELDS`. -/
def legacyTopLevelFields : List String :=
  ["mission", "progress", "mission_step", "mission_control", "exploration", "subtasks", "worker_results", "react_loop",
    "step_decision"]

/-- `if out.get(key) is not None: meta[key] = out[key]`. -/
def foldKey (out planMeta : PyRecord) (key : String) : PyRecord :=
  if isNone (field out key) then planMeta else put planMeta key (field out key)

/-- `if isinstance(out.get(key), dict): d[key] = out[key]`. -/
def foldDict (out d : PyRecord) (key : String) : PyRecord :=
  if (field out key).isDict then put d key (field out key) else d

def foldedMeta (out planMeta : PyRecord) : PyRecord :=
  metaKeys.foldl (foldKey out) (foldDict out (foldDict out planMeta "mission") "progress")

/-- `if d: out[key] = v`. -/
def putIf (d : PyRecord) (out : PyRecord) (key : String) (v : PyTree) : PyRecord :=
  if d.entries.isEmpty then out else put out key v

/-- The containers that hold something are put back, and the legacy keys are removed. -/
def foldInto (out payload planGraph planMeta bg : PyRecord) : PyRecord :=
  let next := putIf planMeta out "plan_graph" (dict (put planGraph "meta" (dict planMeta.entries)).entries)
  -- a dictionary is equal to its copy, and to nothing that is not one
  let next := if (field out "input_payload").isDict then next else put next "input_payload" (dict payload.entries)
  let next := putIf bg next "background_status" (dict bg.entries)
  legacyTopLevelFields.foldl (fun d key => d.erase key.toList) next

/-- `_strip_legacy_top_level_fields`, and `coerce_agent_state`. `none` raises. -/
def coerceAgentState (out : PyRecord) : Option PyRecord := do
  let payload ← toDict? ((field out "input_payload").orElse (dict []))
  let planGraph ← toDict? ((field out "plan_graph").orElse (dict [entry "nodes" (list [])]))
  let planMeta ← toDict? ((field planGraph "meta").orElse (dict []))
  let bg ← toDict? ((field out "background_status").orElse (dict []))
  return foldInto out payload planGraph (foldedMeta out planMeta) (foldDict out bg "progress")

/-! ### Validation -/

/-- What the validation makes of a scalar; a value of the type passes as it is. -/
structure Pydantic where
  str? : PyTree → Option Text
  int? : PyTree → Option ℤ
  bool? : PyTree → Option Bool
  str?_str : ∀ t, str? (leaf (.str t)) = some t
  int?_int : ∀ n, int? (leaf (.int n)) = some n
  bool?_bool : ∀ b, bool? (leaf (.bool b)) = some b

inductive Shape
  | str
  | int
  | bool
  /-- `dict[str, Any]`. -/
  | dict
  /-- `list[str]`. -/
  | strs
  /-- `list[dict[str, Any]]`. -/
  | dicts
  deriving DecidableEq

/-- A field of `AgentStateModel`. Without a default it is required. -/
structure ModelField where
  name : String
  shape : Shape
  optional : Bool
  default : Option PyTree

def checkStr (py : Pydantic) (v : PyTree) : Option PyTree := (py.str? v).map fun t => leaf (.str t)

def checkDict : PyTree → Option PyTree
  | .dict es => some (.dict (PyDict.ofList es).entries)
  | _ => none

def checkList (check : PyTree → Option PyTree) : PyTree → Option PyTree
  | list vs => (vs.mapM check).map list
  | _ => none

def Shape.check (py : Pydantic) : Shape → PyTree → Option PyTree
  | str => checkStr py
  | int => fun v => (py.int? v).map fun n => leaf (.int n)
  | bool => fun v => (py.bool? v).map fun b => leaf (.bool b)
  | dict => checkDict
  | strs => checkList (checkStr py)
  | dicts => checkList checkDict

def ModelField.check (py : Pydantic) (f : ModelField) (v : PyTree) : Option PyTree :=
  if f.optional && isNone v then some nil else f.shape.check py v

/-- The value of a field: what the state has for it, or the default. -/
def ModelField.value (py : Pydantic) (f : ModelField) (d : PyRecord) : Option PyTree :=
  match d.get? f.name.toList with
  | some v => f.check py v
  | none => f.default

/-- `Optional[...] = None`. -/
def optional (shape : Shape) (name : String) : ModelField := ⟨name, shape, true, some nil⟩

/-- The fields of `AgentStateModel`. -/
def modelFields : List ModelField :=
  [⟨"task_id", .str, false, none⟩, ⟨"session_id", .str, false, none⟩,
    ⟨"user_id", .str, false, some (leaf (.str "anonymous".toList))⟩,
    ⟨"task_type", .str, false, some (leaf (.str "qa".toList))⟩, ⟨"input_payload", .dict, false, some (dict [])⟩,
    ⟨"current_node", .str, false, some (leaf (.str "api".toList))⟩,
    ⟨"status", .str, false, some (leaf (.str "NEW".toList))⟩, optional .strs "plan",
    optional .dicts "planned_actions", optional .strs "selected_tools", optional .bool "skip_retrieval",
    optional .dict "retrieval_decision", optional .dict "query_object", optional .dicts "evidence_packets",
    optional .dict "retrieval_trace", optional .dicts "evidence_conflicts", optional .dict "failure_attribution",
    optional .dict "task_drift", optional .dicts "conversation_history", optional .int "session_turn",
    optional .dicts "tool_results", optional .dicts "retrieved_knowledge", optional .dict "reasoning_result",
    optional .dict "reflection_result", ⟨"reflection_count", .int, true, some (leaf (.int 0))⟩,
    optional .str "reasoning_mode", optional .dict "token_budget", optional .dict "cost_budget",
    optional .dict "output_guard_result", optional .str "policy_result",
    ⟨"review_required", .bool, false, some (leaf (.bool false))⟩, optional .dict "review_feedback",
    optional .str "final_answer", optional .str "streaming_answer_text", optional .str "streaming_answer_status",
    optional .str "streaming_thinking_text", optional .str "streaming_thinking_status", optional .dicts "artifacts",
    optional .dict "structured_output", optional .dicts "memory_hits", optional .dict "turn_facts",
    optional .dict "turn_event_log", optional .dict "trace_context", optional .dicts "engineering_spans",
    optional .dict "trace_active_span", ⟨"audit_log", .dicts, false, some (list [])⟩,
    ⟨"errors", .strs, false, some (list [])⟩, ⟨"retry_count", .int, false, some (leaf (.int 0))⟩,
    ⟨"node_history", .dicts, false, some (list [])⟩, optional .str "review_requested_at",
    optional .dict "observation", optional .dicts "observations",
    ⟨"execution_mode", .str, true, some (leaf (.str "single".toList))⟩, optional .str "skill_id",
    optional .str "skill_version", optional .dict "skill_snapshot", optional .str "skill_source_type",
    optional .dict "skill_runtime_policy", optional .dict "interrupt_context", optional .dict "execution_run",
    optional .dict "pending_user_message", optional .str "event_type", optional .str "event_id",
    optional .dict "foreground_status", optional .dict "background_status", optional .dict "plan_graph",
    optional .dict "plan_invalidations", ⟨"execution_version", .int, true, some (leaf (.int 1))⟩,
    optional .dict "context_budget_buckets", optional .dict "verification_result",
    optional .dict "submission_decision", optional .dict "eval_capture"]

def fieldNames : List Text := modelFields.map fun f => f.name.toList

/-- `AgentStateModel.model_validate(d).model_dump()`: the fields in their order, then what else the state has. -/
def validate (py : Pydantic) (d : PyRecord) : Option PyRecord :=
  if modelFields.all fun f => (f.value py d).isSome then
    some (PyDict.ofList ((modelFields.map fun f => (f.name.toList, (f.value py d).getD nil)) ++
      d.entries.filter fun e => e.1 ∉ fieldNames))
  else none

/-- `ensure_agent_state`: `state_to_model` and `model_to_state`. -/
def ensureAgentState (py : Pydantic) (state : PyRecord) : Option PyRecord := do
  let coerced ← coerceAgentState state
  let dumped ← validate py coerced
  coerceAgentState dumped

/-- One update of `merge_state`: the longer history is kept, payloads and observations are merged. -/
def mergeUpdate (merged : PyRecord) (update : Text × PyTree) : PyRecord :=
  if update.1 = "node_history".toList then
    match update.2, merged.getD update.1 nil with
    | list incoming, list current =>
      merged.set update.1 (list (if current.length ≤ incoming.length then incoming else current))
    | value, _ => merged.set update.1 value
  else if update.1 = "input_payload".toList ∨ update.1 = "observation".toList then
    match update.2, merged.getD update.1 nil with
    | dict es, dict current =>
      merged.set update.1 (dict ((PyDict.ofList current).update (PyDict.ofList es)).entries)
    | value, _ => merged.set update.1 value
  else merged.set update.1 update.2

def mergeState (py : Pydantic) (state : PyRecord) (updates : List (Text × PyTree)) : Option PyRecord :=
  ensureAgentState py (updates.foldl mergeUpdate state)

/-! ### Accessors -/

/-- `_plan_graph_meta`. -/
def planGraphMeta (state : PyRecord) : PyTree :=
  (((field state "plan_graph").orElse (dict [])).get "meta").orEmpty

def missionControlFromState (state : PyRecord) : PyTree :=
  if (field state "mission_control").isDict then field state "mission_control"
  else if ((planGraphMeta state).get "mission_control").isDict then (planGraphMeta state).get "mission_control"
  else dict []

def progressFromState (state : PyRecord) : PyTree :=
  let bg := (field state "background_status").orElse (dict [])
  if (bg.get "progress").isDict then bg.get "progress"
  else if ((planGraphMeta state).get "progress").isDict then (planGraphMeta state).get "progress"
  else nil

def setProgressOnState (py : Pydantic) (state : PyRecord) (progress : PyTree) : Option PyRecord := do
  let bg ← toDict? ((field state "background_status").orElse (dict []))
  let planGraph ← toDict? ((field state "plan_graph").orElse (dict [entry "nodes" (list [])]))
  let planMeta ← toDict? ((field planGraph "meta").orElse (dict []))
  mergeState py state [entry "background_status" (dict (put bg "progress" progress).entries),
    entry "plan_graph" (dict (put planGraph "meta" (dict (put planMeta "progress" progress).entries)).entries)]

def reactLoopFromState (state : PyRecord) : PyTree :=
  if ((planGraphMeta state).get "react_loop").isDict then (planGraphMeta state).get "react_loop" else nil

def setReactLoopOnState (py : Pydantic) (state : PyRecord) (reactLoop : PyTree) : Option PyRecord := do
  let planGraph ← toDict? ((field state "plan_graph").orElse (dict [entry "nodes" (list [])]))
  let planMeta ← toDict? ((field planGraph "meta").orElse (dict []))
  let planMeta := if isNone reactLoop then planMeta.erase "react_loop".toList else put planMeta "react_loop" reactLoop
  mergeState py state [entry "plan_graph" (dict (put planGraph "meta" (dict planMeta.entries)).entries)]

def subtasksFromState (state : PyRecord) : PyTree :=
  if isList (field state "subtasks") then field state "subtasks"
  else if isList ((planGraphMeta state).get "subtasks") then (planGraphMeta state).get "subtasks"
  else list []

def workerResultsFromState (state : PyRecord) : PyTree :=
  if (field state "worker_results").isDict then field state "worker_results"
  else if ((planGraphMeta state).get "worker_results").isDict then (planGraphMeta state).get "worker_results"
  else dict []

/-! ### Fields and writes -/

/-- The fields that were folded. -/
inductive Field
  | progress
  | reactLoop
  | missionControl
  | subtasks
  | workerResults
  deriving DecidableEq

/-- The legacy key, which is also the key in the container. -/
def Field.key : Field → String
  | progress => "progress"
  | reactLoop => "react_loop"
  | missionControl => "mission_control"
  | subtasks => "subtasks"
  | workerResults => "worker_results"

/-- A value of the type that the accessor looks for. -/
def Field.fits : Field → PyTree → Bool
  | subtasks => isList
  | _ => PyTree.isDict

/-- What the accessor returns where there is no such value. -/
def Field.absent : Field → PyTree
  | progress | reactLoop => nil
  | missionControl | workerResults => dict []
  | subtasks => list []

/-- The fold takes the value of the legacy key. -/
def Field.takes : Field → PyTree → Bool
  | progress => PyTree.isDict
  | _ => fun v => !isNone v

/-- A value as the accessor returns it. -/
def Field.typed (f : Field) (v : PyTree) : PyTree := if f.fits v then v else f.absent

def Field.reading : Field → PyRecord → PyTree
  | progress => progressFromState
  | reactLoop => reactLoopFromState
  | missionControl => missionControlFromState
  | subtasks => subtasksFromState
  | workerResults => workerResultsFromState

inductive Write
  | setProgress (progress : PyTree)
  | setReactLoop (reactLoop : PyTree)
  /-- `merge_state(state, key=value)`. -/
  | merge (f : Field) (value : PyTree)

def Write.run (py : Pydantic) (state : PyRecord) : Write → Option PyRecord
  | setProgress progress => setProgressOnState py state progress
  | setReactLoop reactLoop => setReactLoopOnState py state reactLoop
  | merge f value => mergeState py state [entry f.key value]

def Write.target : Write → Field
  | setProgress _ => .progress
  | setReactLoop _ => .reactLoop
  | merge f _ => f

def Write.value : Write → PyTree
  | setProgress v => v
  | setReactLoop v => v
  | merge _ v => v

/-- The value is of the type of the field; a loop may also be set to `None`. -/
def Write.Fits : Write → Prop
  | setReactLoop v => v.isDict ∨ v = nil
  | w => w.target.fits w.value

/-- A write into the containers, while the state still has the legacy key: the fold comes after it. -/
def Write.Overtaken (state : PyRecord) : Write → Prop
  | merge _ _ => False
  | w => w.target.takes (field state w.target.key)

instance (state : PyRecord) : (w : Write) → Decidable (w.Overtaken state)
  | .setProgress _ => inferInstanceAs (Decidable (_ = true))
  | .setReactLoop _ => inferInstanceAs (Decidable (_ = true))
  | .merge _ _ => .isFalse id

/-! ### Lookups -/

@[simp] theorem get_entries (d : PyRecord) (key : String) : (dict d.entries).get key = field d key := rfl

@[simp] theorem field_put_self (d : PyRecord) (key : String) (v : PyTree) : field (put d key v) key = v := by
  rw [field, put, PyDict.getD, PyDict.get?_set_self, Option.getD_some]

theorem field_put_ne (d : PyRecord) {key key' : String} (h : key ≠ key') (v : PyTree) :
    field (put d key v) key' = field d key' := by
  rw [field, put, PyDict.getD, PyDict.get?_set_ne d fun he => h (String.toList_inj.1 he)]
  rfl

theorem field_of_get? {d : PyRecord} {key : String} {v : PyTree} (h : d.get? key.toList = some v) :
    field d key = v := by
  rw [field, PyDict.getD, h, Option.getD_some]

theorem field_congr {d e : PyRecord} {key : String} (h : d.get? key.toList = e.get? key.toList) :
    field d key = field e key := by
  rw [field, field, PyDict.getD, PyDict.getD, h]

theorem field_of_entries_nil {d : PyRecord} (h : d.entries = []) (key : String) : field d key = nil := by
  rw [field, PyDict.getD, PyDict.get?, h]
  rfl

@[simp] theorem toDict?_entries (d : PyRecord) : toDict? (dict d.entries) = some d := by
  rw [toDict?, PyDict.ofList_entries]

/-- A dictionary, or nothing that counts. -/
def Dictlike (v : PyTree) : Prop := v.truthy → ∃ d : PyRecord, v = dict d.entries

theorem get_of_not_truthy {v : PyTree} (h : ¬ v.truthy) (key : String) : v.get key = nil := by
  cases v with
  | leaf a => rfl
  | list vs => rfl
  | dict es =>
    cases es with
    | nil => rfl
    | cons e es => exact absurd rfl h

/-- The copy `dict(v or e)` of what is like a dictionary. -/
def Copy (e : PyRecord) (v : PyTree) (copy : PyRecord) : Prop :=
  v.truthy ∧ v = dict copy.entries ∨ v.truthy = false ∧ copy = e

theorem exists_copy {v : PyTree} (hv : Dictlike v) (e : PyRecord) :
    ∃ copy, toDict? (v.orElse (dict e.entries)) = some copy ∧ Copy e v copy := by
  by_cases h : v.truthy
  · obtain ⟨copy, rfl⟩ := hv h
    exact ⟨copy, by rw [orElse_of_truthy h, toDict?_entries], Or.inl ⟨h, rfl⟩⟩
  · exact ⟨e, by rw [orElse_of_not h, toDict?_entries], Or.inr ⟨eq_false_of_ne_true h, rfl⟩⟩

/-- A copy has under a key what the original has. -/
theorem Copy.field_eq {e copy : PyRecord} {v : PyTree} (h : Copy e v copy) {key : String}
    (he : field e key = nil) : field copy key = v.get key := by
  rcases h with ⟨-, rfl⟩ | ⟨hfalse, rfl⟩
  · rfl
  · rw [he, get_of_not_truthy (by rw [hfalse]; exact Bool.false_ne_true)]

theorem planGraphMeta_get (state : PyRecord) (key : String) :
    (planGraphMeta state).get key = ((field state "plan_graph").get "meta").get key := by
  have hor (v : PyTree) : v.orEmpty.get key = v.get key := by cases v <;> rfl
  rw [planGraphMeta, hor]
  by_cases h : (field state "plan_graph").truthy
  · rw [orElse_of_truthy h]
  · rw [orElse_of_not h, get_of_not_truthy h]
    rfl

/-! ### The fold of the legacy keys -/

theorem field_foldKey (out planMeta : PyRecord) (key key' : String) : field (foldKey out planMeta key) key' =
    if key = key' ∧ isNone (field out key') = false then field out key' else field planMeta key' := by
  rw [foldKey]
  by_cases hkey : key = key'
  · subst hkey
    cases isNone (field out key) <;> simp
  · simp only [hkey, false_and, if_false]
    split_ifs
    · rfl
    · exact field_put_ne planMeta hkey _

theorem field_foldDict (out d : PyRecord) (key key' : String) : field (foldDict out d key) key' =
    if key = key' ∧ (field out key').isDict then field out key' else field d key' := by
  rw [foldDict]
  by_cases hkey : key = key'
  · subst hkey
    cases (field out key).isDict <;> simp
  · simp only [hkey, false_and, if_false]
    split_ifs
    · exact field_put_ne d hkey _
    · rfl

theorem field_foldl_foldKey (out : PyRecord) (key : String) : ∀ (keys : List String) (planMeta : PyRecord),
    field (keys.foldl (foldKey out) planMeta) key =
      if key ∈ keys ∧ isNone (field out key) = false then field out key else field planMeta key
  | [], planMeta => by simp
  | k :: keys, planMeta => by
      rw [List.foldl_cons, field_foldl_foldKey out key keys, field_foldKey]
      by_cases hk : k = key
      · subst hk
        cases isNone (field out k) <;> simp
      · simp [hk, Ne.symm hk]

/-- A field in the meta after the fold: the value of its legacy key, if the fold takes it. -/
theorem field_foldedMeta (out planMeta : PyRecord) (f : Field) : field (foldedMeta out planMeta) f.key =
    if f.takes (field out f.key) then field out f.key else field planMeta f.key := by
  rw [foldedMeta, field_foldl_foldKey, field_foldDict, field_foldDict]
  cases f with
  | progress =>
    cases hdict : (field out "progress").isDict <;> simp [Field.key, Field.takes, metaKeys, hdict]
  | reactLoop => simp [Field.key, Field.takes, metaKeys]
  | missionControl => simp [Field.key, Field.takes, metaKeys]
  | subtasks => simp [Field.key, Field.takes, metaKeys]
  | workerResults => simp [Field.key, Field.takes, metaKeys]

theorem extends_foldDict (out d : PyRecord) (key : String) : d.Extends (foldDict out d key) := by
  rw [foldDict]
  split_ifs
  · exact PyDict.extends_set ..
  · exact .refl d

theorem extends_foldKey (out d : PyRecord) (key : String) : d.Extends (foldKey out d key) := by
  rw [foldKey]
  split_ifs
  · exact .refl d
  · exact PyDict.extends_set ..

theorem extends_foldedMeta (out planMeta : PyRecord) : planMeta.Extends (foldedMeta out planMeta) :=
  ((extends_foldDict out planMeta "mission").trans (extends_foldDict out _ "progress")).trans
    (PyDict.extends_foldl (extends_foldKey out) metaKeys _)

theorem entries_nil_of_extends {d e : PyRecord} (h : d.Extends e) (hnil : e.entries = []) : d.entries = [] := by
  rwa [PyDict.Extends, hnil, List.map_nil, List.prefix_nil, List.map_eq_nil_iff] at h

theorem foldDict_of_nil {out : PyRecord} {key : String} (h : field out key = nil) (d : PyRecord) :
    foldDict out d key = d := by
  rw [foldDict, h, if_neg (by decide)]

theorem foldKey_of_nil {out : PyRecord} {key : String} (h : field out key = nil) (d : PyRecord) :
    foldKey out d key = d := by
  rw [foldKey, h]
  exact if_pos rfl

/-- Without legacy keys there is nothing to fold. -/
theorem foldedMeta_of_nil {out : PyRecord} (h : ∀ key ∈ legacyTopLevelFields, field out key = nil)
    (planMeta : PyRecord) : foldedMeta out planMeta = planMeta := by
  have hkeys (keys : List String) (hsub : keys ⊆ legacyTopLevelFields) : ∀ d, keys.foldl (foldKey out) d = d := by
    induction keys with
    | nil => exact fun _ => rfl
    | cons key keys ih =>
      intro d
      rw [List.foldl_cons, foldKey_of_nil (h key (hsub (.head _))), ih fun k hk => hsub (.tail _ hk)]
  rw [foldedMeta, hkeys metaKeys (by decide), foldDict_of_nil (h _ (by decide)), foldDict_of_nil (h _ (by decide))]

/-! ### What the fold puts back -/

theorem get?_foldl_erase (k : Text) : ∀ (keys : List String) (d : PyRecord),
    (keys.foldl (fun d key => d.erase key.toList) d).get? k = if k ∈ keys.map String.toList then none else d.get? k
  | [], d => rfl
  | key :: keys, d => by
      rw [List.foldl_cons, get?_foldl_erase k keys]
      by_cases hk : key.toList = k
      · subst hk
        simp
      · rw [PyDict.get?_erase_ne d hk]
        simp [Ne.symm hk]

theorem get?_putIf (d out : PyRecord) (key : String) (v : PyTree) (k : Text) :
    (putIf d out key v).get? k = if d.entries ≠ [] ∧ key.toList = k then some v else out.get? k := by
  rw [putIf, put]
  by_cases hd : d.entries = []
  · simp [hd]
  · simp [hd, PyDict.get?_set]

section FoldInto
variable (out payload planGraph planMeta bg : PyRecord)

/-- The value that the fold leaves under a key. -/
theorem get?_foldInto (k : Text) : (foldInto out payload planGraph planMeta bg).get? k =
    if k ∈ legacyTopLevelFields.map String.toList then none
    else if bg.entries ≠ [] ∧ "background_status".toList = k then some (dict bg.entries)
    else if (field out "input_payload").isDict = false ∧ "input_payload".toList = k then some (dict payload.entries)
    else if planMeta.entries ≠ [] ∧ "plan_graph".toList = k then
      some (dict (put planGraph "meta" (dict planMeta.entries)).entries)
    else out.get? k := by
  rw [foldInto, get?_foldl_erase, get?_putIf]
  refine if_congr Iff.rfl rfl (if_congr Iff.rfl rfl ?_)
  cases (field out "input_payload").isDict with
  | true =>
    simp only [Bool.true_eq_false, false_and, if_false]
    exact get?_putIf ..
  | false =>
    rw [if_neg Bool.false_ne_true, put, PyDict.get?_set, get?_putIf]
    simp only [true_and]

theorem get?_foldInto_legacy {key : String} (h : key ∈ legacyTopLevelFields) :
    (foldInto out payload planGraph planMeta bg).get? key.toList = none := by
  rw [get?_foldInto, if_pos (List.mem_map_of_mem h)]

theorem get?_foldInto_background : (foldInto out payload planGraph planMeta bg).get? "background_status".toList =
    if bg.entries = [] then out.get? "background_status".toList else some (dict bg.entries) := by
  rw [get?_foldInto, if_neg (by decide)]
  by_cases h : bg.entries = [] <;> simp [h]

theorem get?_foldInto_planGraph : (foldInto out payload planGraph planMeta bg).get? "plan_graph".toList =
    if planMeta.entries = [] then out.get? "plan_graph".toList
    else some (dict (put planGraph "meta" (dict planMeta.entries)).entries) := by
  rw [get?_foldInto, if_neg (by decide), if_neg (by simp), if_neg (by simp)]
  by_cases h : planMeta.entries = [] <;> simp [h]

end FoldInto

/-! ### What the validation keeps -/

/-- What passes a check as it is. -/
def Checked (check : PyTree → Option PyTree) (v : PyTree) : Prop := check v = some v

theorem checked_mapM {check : PyTree → Option PyTree} (h : ∀ v u, check v = some u → Checked check u) :
    ∀ {vs us : List PyTree}, vs.mapM check = some us → us.mapM check = some us
  | [], us, hvs => by
      obtain rfl : us = [] := by simpa using hvs.symm
      rfl
  | v :: vs, us, hvs => by
      rw [List.mapM_cons] at hvs
      obtain ⟨u, hu, us', hus, rfl⟩ : ∃ u, check v = some u ∧ ∃ us', vs.mapM check = some us' ∧
          u :: us' = us := by
        simpa [Option.bind_eq_some_iff] using hvs
      rw [List.mapM_cons, h v u hu, checked_mapM h hus]
      rfl

theorem checked_checkStr {py : Pydantic} {v u : PyTree} (h : checkStr py v = some u) : Checked (checkStr py) u := by
  obtain ⟨t, -, rfl⟩ := Option.map_eq_some_iff.1 h
  rw [Checked, checkStr, py.str?_str]
  rfl

theorem checked_checkDict {v u : PyTree} (h : checkDict v = some u) : Checked checkDict u := by
  cases v with
  | leaf a => cases h
  | list vs => cases h
  | dict es =>
    cases h
    rw [Checked, checkDict, PyDict.ofList_entries]

theorem checked_checkList {check : PyTree → Option PyTree} (hcheck : ∀ v u, check v = some u → Checked check u)
    {v u : PyTree} (h : checkList check v = some u) : Checked (checkList check) u := by
  cases v with
  | leaf a => cases h
  | dict es => cases h
  | list vs =>
    obtain ⟨us, hus, rfl⟩ := Option.map_eq_some_iff.1 h
    rw [Checked, checkList, checked_mapM hcheck hus]
    rfl

/-- A validated value passes as it is. -/
theorem Shape.checked {py : Pydantic} {shape : Shape} {v u : PyTree} (h : shape.check py v = some u) :
    Checked (shape.check py) u := by
  cases shape with
  | str => exact checked_checkStr h
  | int =>
    obtain ⟨n, -, rfl⟩ := Option.map_eq_some_iff.1 h
    simp [Checked, Shape.check, py.int?_int]
  | bool =>
    obtain ⟨b, -, rfl⟩ := Option.map_eq_some_iff.1 h
    simp [Checked, Shape.check, py.bool?_bool]
  | dict => exact checked_checkDict h
  | strs => exact checked_checkList (fun _ _ => checked_checkStr) h
  | dicts => exact checked_checkList (fun _ _ => checked_checkDict) h

theorem eq_nil_of_isNone {v : PyTree} (h : isNone v) : v = nil := by
  cases v with
  | leaf a =>
    cases a with
    | none => rfl
    | _ => cases h
  | list vs => cases h
  | dict es => cases h

theorem ModelField.checked {py : Pydantic} {f : ModelField} {v u : PyTree} (h : f.check py v = some u) :
    Checked (f.check py) u := by
  rw [Checked, ModelField.check]
  by_cases hnone : f.optional && isNone u
  · rw [if_pos hnone, eq_nil_of_isNone (Bool.and_eq_true_iff.1 hnone).2]
  · rw [if_neg hnone]
    rw [ModelField.check] at h
    by_cases hv : f.optional && isNone v
    · rw [if_pos hv, Option.some.injEq] at h
      subst h
      exact absurd (Bool.and_eq_true_iff.2 ⟨(Bool.and_eq_true_iff.1 hv).1, rfl⟩) hnone
    · rw [if_neg hv] at h
      exact Shape.checked h

/-- A scalar of the shape, or an empty container. -/
def Shape.plain : Shape → PyTree → Bool
  | .str, leaf (.str _) => true
  | .int, leaf (.int _) => true
  | .bool, leaf (.bool _) => true
  | .dict, .dict [] => true
  | .strs, list [] => true
  | .dicts, list [] => true
  | _, _ => false

theorem Shape.checked_plain (py : Pydantic) {shape : Shape} {v : PyTree} (h : shape.plain v) :
    Checked (shape.check py) v := by
  rw [Shape.plain.eq_def] at h
  split at h
  · simp [Checked, Shape.check, checkStr, py.str?_str]
  · simp [Checked, Shape.check, py.int?_int]
  · simp [Checked, Shape.check, py.bool?_bool]
  · rfl
  · rfl
  · rfl
  · cases h

/-- The default of a field is a value of its type. -/
def ModelField.sound (f : ModelField) : Bool :=
  f.default.all fun v => f.optional && isNone v || f.shape.plain v

theorem sound_modelFields : modelFields.all ModelField.sound = true := by decide

/-- Every default passes the check of its own field. -/
theorem checked_default (py : Pydantic) {f : ModelField} (hf : f ∈ modelFields) {v : PyTree}
    (hv : f.default = some v) : Checked (f.check py) v := by
  have hsound := List.all_eq_true.1 sound_modelFields f hf
  rw [ModelField.sound, hv, Option.all_some, Bool.or_eq_true] at hsound
  rw [Checked, ModelField.check]
  by_cases hnone : f.optional && isNone v
  · rw [if_pos hnone, eq_nil_of_isNone (Bool.and_eq_true_iff.1 hnone).2]
  · rw [if_neg hnone]
    exact Shape.checked_plain py (hsound.resolve_left hnone)

/-- The value that a field gets passes its check. -/
theorem checked_value {py : Pydantic} {f : ModelField} (hf : f ∈ modelFields) {d : PyRecord} {v : PyTree}
    (h : f.value py d = some v) : Checked (f.check py) v := by
  rw [ModelField.value] at h
  cases hget : d.get? f.name.toList with
  | none =>
    rw [hget] at h
    exact checked_default py hf h
  | some u =>
    rw [hget] at h
    exact ModelField.checked h

/-- The names of the fields differ, and no legacy key is one. -/
theorem nodup_keys : (legacyTopLevelFields ++ modelFields.map ModelField.name).Nodup := by decide +kernel

theorem nodup_fieldNames : fieldNames.Nodup := by
  have h := (List.nodup_append.1 nodup_keys).2.1.map (f := String.toList) fun _ _ h => String.toList_inj.1 h
  rwa [List.map_map] at h

theorem eq_of_name {f g : ModelField} (hf : f ∈ modelFields) (hg : g ∈ modelFields) (h : f.name = g.name) : f = g :=
  List.inj_on_of_nodup_map (List.nodup_append.1 nodup_keys).2.1 hf hg h

theorem legacy_not_mem {key : String} (hkey : key ∈ legacyTopLevelFields) : key.toList ∉ fieldNames := by
  intro hmem
  obtain ⟨f, hf, hname⟩ := List.mem_map.1 hmem
  exact (List.nodup_append.1 nodup_keys).2.2 key hkey f.name (List.mem_map_of_mem hf) (String.toList_inj.1 hname).symm

section Validate
variable {py : Pydantic} {d e : PyRecord}

theorem validate_eq_some (h : validate py d = some e) : (∀ f ∈ modelFields, (f.value py d).isSome) ∧
    e.entries = (modelFields.map fun f => (f.name.toList, (f.value py d).getD nil)) ++
      d.entries.filter fun e => e.1 ∉ fieldNames := by
  rw [validate] at h
  split_ifs at h with hall
  cases h
  refine ⟨by simpa using hall, PyDict.entries_ofList ?_⟩
  rw [List.map_append, List.map_map, List.nodup_append]
  refine ⟨nodup_fieldNames, d.nodup.sublist (List.filter_sublist.map Prod.fst), ?_⟩
  rintro k hk _ hk' rfl
  obtain ⟨entry, hentry, rfl⟩ := List.mem_map.1 hk'
  have hnot : entry.1 ∉ fieldNames := by simpa using (List.mem_filter.1 hentry).2
  exact hnot hk

theorem get?_validate (h : validate py d = some e) {f : ModelField} (hf : f ∈ modelFields) :
    e.get? f.name.toList = f.value py d := by
  obtain ⟨hall, hentries⟩ := validate_eq_some h
  obtain ⟨v, hv⟩ := Option.isSome_iff_exists.1 (hall f hf)
  have hmem : (f.name.toList, v) ∈ e.entries := by
    rw [hentries]
    exact List.mem_append_left _ (List.mem_map.2 ⟨f, hf, by rw [hv, Option.getD_some]⟩)
  rw [PyDict.mem_entries.1 hmem, hv]

theorem get?_validate_of_not_mem (h : validate py d = some e) {k : Text} (hk : k ∉ fieldNames) :
    e.get? k = d.get? k := by
  obtain ⟨-, hentries⟩ := validate_eq_some h
  ext v
  rw [← PyDict.mem_entries, ← PyDict.mem_entries, hentries, List.mem_append, List.mem_filter]
  constructor
  · rintro (hfield | ⟨hextra, -⟩)
    · obtain ⟨f, hf, heq⟩ := List.mem_map.1 hfield
      exact absurd (List.mem_map.2 ⟨f, hf, congrArg Prod.fst heq⟩) hk
    · exact hextra
  · exact fun hmem => Or.inr ⟨hmem, by simpa using hk⟩

/-- Validating what was dumped changes nothing. -/
theorem validate_idem (h : validate py d = some e) : validate py e = some e := by
  obtain ⟨hall, hentries⟩ := validate_eq_some h
  have hvalue (f : ModelField) (hf : f ∈ modelFields) : f.value py e = f.value py d := by
    obtain ⟨v, hv⟩ := Option.isSome_iff_exists.1 (hall f hf)
    rw [ModelField.value, get?_validate h hf, hv]
    exact checked_value hf hv
  have hfields : (modelFields.map fun f => (f.name.toList, (f.value py e).getD nil)) =
      modelFields.map fun f => (f.name.toList, (f.value py d).getD nil) :=
    List.map_congr_left fun f hf => by rw [hvalue f hf]
  have hextras : (e.entries.filter fun e => e.1 ∉ fieldNames) = d.entries.filter fun e => e.1 ∉ fieldNames := by
    rw [hentries, List.filter_append, List.filter_filter, List.filter_eq_nil_iff.2 fun entry hentry => ?_]
    · simp
    · obtain ⟨f, hf, rfl⟩ := List.mem_map.1 hentry
      have hin : f.name.toList ∈ fieldNames := List.mem_map_of_mem hf
      simpa using hin
  rw [validate, if_pos (List.all_eq_true.2 fun f hf => by rw [hvalue f hf]; exact hall f hf), hfields, hextras,
    ← hentries, PyDict.ofList_entries]

end Validate

/-! ### States -/

/-- `None`, or a dictionary. -/
def NoneOrDict (v : PyTree) : Prop := v = nil ∨ ∃ d : PyRecord, v = dict d.entries

/-- The containers are what `AgentState` says, and so is the meta, if there is any. -/
structure Typed (state : PyRecord) : Prop where
  background : NoneOrDict (field state "background_status")
  planGraph : NoneOrDict (field state "plan_graph")
  planMeta : Dictlike ((field state "plan_graph").get "meta")

/-- What a validated state is: there are no legacy keys. -/
structure Folded (state : PyRecord) : Prop extends Typed state where
  payload : (field state "input_payload").isDict
  legacy : ∀ key ∈ legacyTopLevelFields, state.get? key.toList = none

theorem NoneOrDict.dictlike {v : PyTree} (h : NoneOrDict v) : Dictlike v := by
  rintro htruthy
  rcases h with rfl | hd
  · cases htruthy
  · exact hd

theorem field_of_none {d : PyRecord} {key : String} (h : d.get? key.toList = none) : field d key = nil := by
  rw [field, PyDict.getD, h]
  rfl

/-- `{"nodes": []}`. -/
def emptyGraph : PyRecord := PyDict.ofList [entry "nodes" (list [])]

/-- The copies that are made of a state whose containers are dictionaries. -/
theorem Typed.copies {state : PyRecord} (h : Typed state) : ∃ planGraph planMeta bg : PyRecord,
    toDict? ((field state "plan_graph").orElse (dict [entry "nodes" (list [])])) = some planGraph ∧
    toDict? ((field planGraph "meta").orElse (dict [])) = some planMeta ∧
    toDict? ((field state "background_status").orElse (dict [])) = some bg ∧
    Copy emptyGraph (field state "plan_graph") planGraph ∧
    Copy PyDict.empty ((field state "plan_graph").get "meta") planMeta ∧
    Copy PyDict.empty (field state "background_status") bg := by
  obtain ⟨planGraph, hgraph, hcopy⟩ := exists_copy h.planGraph.dictlike emptyGraph
  have hmeta : field planGraph "meta" = (field state "plan_graph").get "meta" := hcopy.field_eq rfl
  obtain ⟨planMeta, hplan, hcopyMeta⟩ := exists_copy h.planMeta PyDict.empty
  obtain ⟨bg, hbg, hcopyBg⟩ := exists_copy h.background.dictlike PyDict.empty
  exact ⟨planGraph, planMeta, bg, hgraph, hmeta ▸ hplan, hbg, hcopy, hcopyMeta, hcopyBg⟩

/-! ### What was folded stays as it is -/

theorem erase_of_none {d : PyRecord} {k : Text} (h : d.get? k = none) : d.erase k = d := by
  refine PyDict.ext' (List.filter_eq_self.2 fun e he => ?_)
  have hget := PyDict.mem_entries.1 (show (e.1, e.2) ∈ d.entries from he)
  have hne : e.1 ≠ k := fun heq => by rw [heq, h] at hget; cases hget
  simpa using hne

theorem put_of_field {d : PyRecord} {key : String} {es : List (Text × PyTree)} (h : field d key = dict es) :
    put d key (dict es) = d := by
  refine PyDict.set_eq_self ?_
  rw [field, PyDict.getD] at h
  cases hget : d.get? key.toList with
  | none => rw [hget] at h; cases h
  | some v => rw [hget, Option.getD_some] at h; rw [h]

theorem putIf_eq_self {d out : PyRecord} {key : String} {es : List (Text × PyTree)}
    (h : d.entries ≠ [] → field out key = dict es) : putIf d out key (dict es) = out := by
  rw [putIf]
  split_ifs with hempty
  · rfl
  · exact put_of_field (h (by simpa using hempty))

theorem Copy.eq_of_ne_nil {v : PyTree} {copy : PyRecord} (h : Copy PyDict.empty v copy) (hne : copy.entries ≠ []) :
    v = dict copy.entries := by
  rcases h with ⟨-, rfl⟩ | ⟨-, rfl⟩
  · rfl
  · exact absurd rfl hne

theorem coerceAgentState_eq {state payload planGraph planMeta bg : PyRecord}
    (hpayload : toDict? ((field state "input_payload").orElse (dict [])) = some payload)
    (hgraph : toDict? ((field state "plan_graph").orElse (dict [entry "nodes" (list [])])) = some planGraph)
    (hmeta : toDict? ((field planGraph "meta").orElse (dict [])) = some planMeta)
    (hbg : toDict? ((field state "background_status").orElse (dict [])) = some bg) : coerceAgentState state =
      some (foldInto state payload planGraph (foldedMeta state planMeta) (foldDict state bg "progress")) := by
  simp only [coerceAgentState, hpayload, hgraph, hmeta, hbg, Option.bind_eq_bind, Option.bind_some, Option.pure_def]

/-- A state without legacy keys is folded already. -/
theorem coerceAgentState_of_folded {state : PyRecord} (h : Folded state) : coerceAgentState state = some state := by
  obtain ⟨planGraph, planMeta, bg, hgraph, hplan, hbg, hcopy, hcopyMeta, hcopyBg⟩ := h.copies
  obtain ⟨payload, hpayload⟩ : ∃ payload,
      toDict? ((field state "input_payload").orElse (dict [])) = some payload := by
    have hdict := h.payload
    cases hfield : field state "input_payload" with
    | leaf a => rw [hfield] at hdict; cases hdict
    | list vs => rw [hfield] at hdict; cases hdict
    | dict es => cases es <;> exact ⟨_, rfl⟩
  have hlegacy (key : String) (hkey : key ∈ legacyTopLevelFields) : field state key = nil :=
    field_of_none (h.legacy key hkey)
  have hput : putIf planMeta state "plan_graph" (dict (put planGraph "meta" (dict planMeta.entries)).entries) =
      state := by
    refine putIf_eq_self fun hne => ?_
    have hmeta := hcopyMeta.eq_of_ne_nil hne
    have hgraph : field planGraph "meta" = dict planMeta.entries := (hcopy.field_eq rfl).trans hmeta
    rw [put_of_field hgraph]
    rcases hcopy with ⟨-, heq⟩ | ⟨-, rfl⟩
    · exact heq
    · cases hgraph
  have herase (keys : List String) (hsub : keys ⊆ legacyTopLevelFields) :
      keys.foldl (fun d key => d.erase key.toList) state = state := by
    induction keys with
    | nil => rfl
    | cons key keys ih =>
      rw [List.foldl_cons, erase_of_none (h.legacy key (hsub (.head _)))]
      exact ih fun k hk => hsub (.tail _ hk)
  rw [coerceAgentState_eq hpayload hgraph hplan hbg, foldedMeta_of_nil hlegacy, foldDict_of_nil (hlegacy _ (by decide)),
    foldInto, hput, if_pos h.payload, putIf_eq_self hcopyBg.eq_of_ne_nil, herase _ fun _ hk => hk]

theorem exists_of_coerceAgentState {state d : PyRecord} (h : coerceAgentState state = some d) :
    ∃ payload planGraph planMeta bg : PyRecord,
      toDict? ((field state "input_payload").orElse (dict [])) = some payload ∧
      toDict? ((field state "plan_graph").orElse (dict [entry "nodes" (list [])])) = some planGraph ∧
      toDict? ((field planGraph "meta").orElse (dict [])) = some planMeta ∧
      toDict? ((field state "background_status").orElse (dict [])) = some bg ∧
      foldInto state payload planGraph (foldedMeta state planMeta) (foldDict state bg "progress") = d := by
  simpa only [coerceAgentState, Option.bind_eq_bind, Option.bind_eq_some_iff, Option.pure_def, Option.some.injEq,
    exists_and_left] using h

/-! ### Validated states -/

theorem mem_background : optional .dict "background_status" ∈ modelFields := by simp [modelFields]

theorem mem_planGraph : optional .dict "plan_graph" ∈ modelFields := by simp [modelFields]

/-- A container that is a dictionary or `None` passes as it is. -/
theorem value_of_optional (py : Pydantic) {d : PyRecord} {name : String} (hd : NoneOrDict (field d name)) :
    (optional .dict name).value py d = some (field d name) := by
  rw [ModelField.value, show (optional .dict name).name = name from rfl]
  cases hname : d.get? name.toList with
  | none =>
    rw [field_of_none hname]
    rfl
  | some v =>
    rw [field_of_get? hname] at hd ⊢
    rcases hd with rfl | ⟨g, rfl⟩
    · rfl
    · exact congrArg (fun g : PyRecord => some (dict g.entries)) (PyDict.ofList_entries g)

theorem field_validate {py : Pydantic} {d e : PyRecord} (h : validate py d = some e) {name : String}
    (hf : optional .dict name ∈ modelFields) (hd : NoneOrDict (field d name)) : field e name = field d name :=
  field_of_get? ((get?_validate h hf).trans (value_of_optional py hd))

/-- A container is a dictionary or `None` in every validated state. -/
theorem optional_validate {py : Pydantic} {d e : PyRecord} (h : validate py d = some e) {name : String}
    (hf : optional .dict name ∈ modelFields) :
    field e name = nil ∨ ∃ es, field d name = dict es ∧ field e name = dict (PyDict.ofList es).entries := by
  have hget := get?_validate h hf
  obtain ⟨v, hv⟩ := Option.isSome_iff_exists.1 ((validate_eq_some h).1 _ hf)
  rw [hv, show (optional .dict name).name = name from rfl] at hget
  rw [ModelField.value, show (optional .dict name).name = name from rfl] at hv
  rw [field_of_get? hget]
  cases hname : d.get? name.toList with
  | none =>
    rw [hname] at hv
    exact Or.inl (Option.some.inj hv).symm
  | some u =>
    rw [hname] at hv
    change (if isNone u then some nil else checkDict u) = some v at hv
    split_ifs at hv
    · exact Or.inl (Option.some.inj hv).symm
    · cases u with
      | leaf a => cases hv
      | list vs => cases hv
      | dict es => exact Or.inr ⟨es, field_of_get? hname, (Option.some.inj hv).symm⟩

theorem ofList_ne_nil {es : List (Text × PyTree)} (h : es ≠ []) : (PyDict.ofList es).entries ≠ [] := by
  cases es with
  | nil => exact absurd rfl h
  | cons e es =>
    intro hnil
    have hkeys : [e.1] <+: (PyDict.ofList (e :: es)).entries.map Prod.fst :=
      PyDict.extends_foldl (fun d (kv : Text × PyTree) => PyDict.extends_set d kv.1 kv.2) es
        (PyDict.empty.set e.1 e.2)
    rw [hnil, List.map_nil, List.prefix_nil] at hkeys
    cases hkeys

/-- What counts for something has a copy that is not empty. -/
theorem ne_nil_of_toDict? {v : PyTree} {copy : PyRecord} (h : toDict? v = some copy) (htruthy : v.truthy) :
    copy.entries ≠ [] := by
  have hitems (items : List PyTree) (hne : items ≠ [])
      (hcopy : (items.mapM pair?).bind (fun pairs => some (PyDict.ofList pairs)) = some copy) :
      copy.entries ≠ [] := by
    obtain ⟨pairs, hpairs, hofList⟩ := Option.bind_eq_some_iff.1 hcopy
    cases hofList
    cases items with
    | nil => exact absurd rfl hne
    | cons item items =>
      rw [List.mapM_cons] at hpairs
      obtain ⟨p, -, ps, -, rfl⟩ : ∃ p, pair? item = some p ∧ ∃ ps, items.mapM pair? = some ps ∧
          p :: ps = pairs := by
        simpa [Option.bind_eq_some_iff] using hpairs
      exact ofList_ne_nil (List.cons_ne_nil p ps)
  cases v with
  | dict es =>
    cases h
    cases es with
    | nil => cases htruthy
    | cons e es => exact ofList_ne_nil (List.cons_ne_nil e es)
  | list vs => exact hitems vs (by rintro rfl; cases htruthy) h
  | leaf a =>
    cases a with
    | str t =>
      refine hitems (t.map fun c => leaf (.str [c])) (fun hnil => ?_) h
      rw [List.map_eq_nil_iff.1 hnil] at htruthy
      cases htruthy
    | _ => cases h

theorem mem_payload : ⟨"input_payload", .dict, false, some (dict [])⟩ ∈ modelFields := by simp [modelFields]

/-- The payload is a dictionary in every validated state. -/
theorem isDict_payload {py : Pydantic} {d e : PyRecord} (h : validate py d = some e) :
    (field e "input_payload").isDict := by
  have hget : e.get? "input_payload".toList = _ := get?_validate h mem_payload
  obtain ⟨v, hv⟩ := Option.isSome_iff_exists.1 ((validate_eq_some h).1 _ mem_payload)
  rw [field_of_get? (hget.trans hv)]
  rw [ModelField.value] at hv
  split at hv
  · rename_i u _
    change checkDict u = some v at hv
    cases u with
    | leaf a => cases hv
    | list vs => cases hv
    | dict es =>
      cases hv
      rfl
  · cases hv
    rfl

/-- The meta of a plan graph that passes the validation after the fold. -/
theorem dictlike_meta {state planGraph planMeta : PyRecord} {es : List (Text × PyTree)}
    (hgraph : toDict? ((field state "plan_graph").orElse (dict [entry "nodes" (list [])])) = some planGraph)
    (hmeta : toDict? ((field planGraph "meta").orElse (dict [])) = some planMeta)
    (h : (if (foldedMeta state planMeta).entries = [] then field state "plan_graph"
      else dict (put planGraph "meta" (dict (foldedMeta state planMeta).entries)).entries) = dict es) :
    Dictlike (field (PyDict.ofList es) "meta") := by
  intro htruthy
  by_cases hempty : (foldedMeta state planMeta).entries = []
  · -- nothing was put back, so there was nothing in the meta
    rw [if_pos hempty] at h
    exfalso
    have hes : (dict es).truthy := by
      cases es with
      | nil => cases htruthy
      | cons e es => rfl
    rw [h, orElse_of_truthy hes] at hgraph
    cases hgraph
    rw [orElse_of_truthy htruthy] at hmeta
    exact ne_nil_of_toDict? hmeta htruthy (entries_nil_of_extends (extends_foldedMeta state planMeta) hempty)
  · rw [if_neg hempty, PyTree.dict.injEq] at h
    rw [← h, PyDict.ofList_entries, field_put_self]
    exact ⟨_, rfl⟩

theorem field_foldInto_planGraph (out payload planGraph planMeta bg : PyRecord) :
    field (foldInto out payload planGraph planMeta bg) "plan_graph" =
      if planMeta.entries = [] then field out "plan_graph"
      else dict (put planGraph "meta" (dict planMeta.entries)).entries := by
  rw [field, PyDict.getD, get?_foldInto_planGraph]
  split_ifs
  · rfl
  · rfl

/-- A validated state is folded. -/
theorem folded_of_validate {py : Pydantic} {state d e : PyRecord} (hcoerce : coerceAgentState state = some d)
    (h : validate py d = some e) : Folded e := by
  obtain ⟨payload, planGraph, planMeta, bg, -, hgraph, hmeta, -, rfl⟩ := exists_of_coerceAgentState hcoerce
  have hoptional (name : String) (hf : optional .dict name ∈ modelFields) : NoneOrDict (field e name) :=
    (optional_validate h hf).imp_right fun ⟨es, _, heq⟩ => ⟨_, heq⟩
  refine ⟨⟨hoptional _ mem_background, hoptional _ mem_planGraph, ?_⟩, isDict_payload h, fun key hkey => ?_⟩
  · rcases optional_validate h mem_planGraph with hnil | ⟨es, hd, he⟩
    · rw [hnil]
      rintro ⟨⟩
    · rw [field_foldInto_planGraph] at hd
      rw [he]
      exact dictlike_meta hgraph hmeta hd
  · rw [get?_validate_of_not_mem h (legacy_not_mem hkey), get?_foldInto_legacy _ _ _ _ _ hkey]

/-- What a state is brought into: folded and validated. The second fold finds nothing. -/
theorem ensureAgentState_eq_some {py : Pydantic} {state t : PyRecord} :
    ensureAgentState py state = some t ↔ ∃ d, coerceAgentState state = some d ∧ validate py d = some t := by
  rw [ensureAgentState, Option.bind_eq_bind, Option.bind_eq_some_iff]
  refine exists_congr fun d => and_congr_right fun hcoerce => ?_
  rw [Option.bind_eq_some_iff]
  constructor
  · rintro ⟨e, he, hagain⟩
    rw [coerceAgentState_of_folded (folded_of_validate hcoerce he)] at hagain
    cases hagain
    exact he
  · exact fun ht => ⟨t, ht, coerceAgentState_of_folded (folded_of_validate hcoerce ht)⟩

theorem folded_of_ensure {py : Pydantic} {state t : PyRecord} (h : ensureAgentState py state = some t) : Folded t := by
  obtain ⟨d, hcoerce, hvalidate⟩ := ensureAgentState_eq_some.1 h
  exact folded_of_validate hcoerce hvalidate

/-- Once brought into form, a state stays as it is. -/
theorem ensureAgentState_idem {py : Pydantic} {state t : PyRecord} (h : ensureAgentState py state = some t) :
    ensureAgentState py t = some t := by
  obtain ⟨d, hcoerce, hvalidate⟩ := ensureAgentState_eq_some.1 h
  exact ensureAgentState_eq_some.2
    ⟨t, coerceAgentState_of_folded (folded_of_validate hcoerce hvalidate), validate_idem hvalidate⟩

/-! ### Reading after the fold -/

/-- What a field reads as in the containers. -/
def Field.nested (f : Field) (state : PyRecord) : PyTree :=
  match f with
  | progress => progressFromState state
  | f => f.typed ((planGraphMeta state).get f.key)

theorem Field.nested_of_ne {f : Field} (h : f ≠ .progress) (state : PyRecord) :
    f.nested state = f.typed ((planGraphMeta state).get f.key) := by
  cases f with
  | progress => exact absurd rfl h
  | _ => rfl

theorem Field.reading_of_nil {f : Field} {state : PyRecord} (h : field state f.key = nil) :
    f.reading state = f.nested state := by
  cases f with
  | progress => rfl
  | reactLoop => rfl
  | missionControl => exact if_neg (show ¬ (field state Field.missionControl.key).isDict by simp [h, PyTree.isDict])
  | subtasks => exact if_neg (show ¬ isList (field state Field.subtasks.key) by simp [h, isList])
  | workerResults => exact if_neg (show ¬ (field state Field.workerResults.key).isDict by simp [h, PyTree.isDict])

/-- A legacy key that the fold does not take is not read either. -/
theorem Field.reading_of_not_takes {f : Field} {state : PyRecord} (h : ¬ f.takes (field state f.key)) :
    f.reading state = f.nested state := by
  have hnil (hnone : ¬ (!isNone (field state f.key)) = true) : field state f.key = nil :=
    eq_nil_of_isNone (by simpa using hnone)
  cases f with
  | progress => rfl
  | reactLoop => rfl
  | missionControl => exact Field.reading_of_nil (hnil h)
  | subtasks => exact Field.reading_of_nil (hnil h)
  | workerResults => exact Field.reading_of_nil (hnil h)

theorem get_orElse (v : PyTree) (key : String) : (v.orElse (dict [])).get key = v.get key := by
  by_cases h : v.truthy
  · rw [orElse_of_truthy h]
  · rw [orElse_of_not h, get_of_not_truthy h]
    rfl

section Readings
variable {state payload planGraph planMeta bg : PyRecord}

/-- The meta of the plan graph after the fold. -/
theorem get_meta_foldInto (hcopy : Copy PyDict.empty ((field state "plan_graph").get "meta") planMeta)
    (bg' : PyRecord) (key : String) :
    ((field (foldInto state payload planGraph (foldedMeta state planMeta) bg') "plan_graph").get "meta").get key =
      field (foldedMeta state planMeta) key := by
  rw [field_foldInto_planGraph]
  split_ifs with hempty
  · have hkeys := entries_nil_of_extends (extends_foldedMeta state planMeta) hempty
    rw [← hcopy.field_eq rfl, field_of_entries_nil hkeys, field_of_entries_nil hempty]
  · rw [get_entries, field_put_self, get_entries]

theorem field_foldInto_background (out payload planGraph planMeta bg : PyRecord) :
    field (foldInto out payload planGraph planMeta bg) "background_status" =
      if bg.entries = [] then field out "background_status" else dict bg.entries := by
  rw [field, PyDict.getD, get?_foldInto_background]
  split_ifs
  · rfl
  · rfl

/-- The background status after the fold. -/
theorem get_background_foldInto (hcopy : Copy PyDict.empty (field state "background_status") bg)
    (planMeta' : PyRecord) :
    (field (foldInto state payload planGraph planMeta' (foldDict state bg "progress")) "background_status").get
      "progress" = field (foldDict state bg "progress") "progress" := by
  rw [field_foldInto_background]
  split_ifs with hempty
  · have hbg := entries_nil_of_extends (extends_foldDict state bg "progress") hempty
    rw [← hcopy.field_eq rfl, field_of_entries_nil hbg, field_of_entries_nil hempty]
  · rfl

end Readings

theorem Typed.optional_foldInto {state : PyRecord} (h : Typed state) (payload planGraph planMeta bg : PyRecord) :
    NoneOrDict (field (foldInto state payload planGraph planMeta bg) "plan_graph") ∧
      NoneOrDict (field (foldInto state payload planGraph planMeta bg) "background_status") := by
  rw [field_foldInto_planGraph, field_foldInto_background]
  constructor
  · split_ifs
    · exact h.planGraph
    · exact Or.inr ⟨_, rfl⟩
  · split_ifs
    · exact h.background
    · exact Or.inr ⟨_, rfl⟩

/-- What is read after the fold and the validation: the legacy value, if the fold takes it. -/
theorem reading_validate {py : Pydantic} {state d e : PyRecord} (htyped : Typed state)
    (hcoerce : coerceAgentState state = some d) (h : validate py d = some e) (f : Field) :
    f.reading e = if f.takes (field state f.key) then f.typed (field state f.key) else f.nested state := by
  obtain ⟨planGraph, planMeta, bg, hgraph, hplan, hbg, -, hcopyMeta, hcopyBg⟩ := htyped.copies
  obtain ⟨payload, _, _, _, hpayload, -⟩ := exists_of_coerceAgentState hcoerce
  obtain rfl := Option.some.inj (hcoerce.symm.trans (coerceAgentState_eq hpayload hgraph hplan hbg))
  have hoptional := htyped.optional_foldInto payload planGraph (foldedMeta state planMeta)
    (foldDict state bg "progress")
  have hmeta : (planGraphMeta e).get f.key =
      if f.takes (field state f.key) then field state f.key else (planGraphMeta state).get f.key := by
    rw [planGraphMeta_get, field_validate h mem_planGraph hoptional.1, get_meta_foldInto hcopyMeta, field_foldedMeta,
      planGraphMeta_get, hcopyMeta.field_eq rfl]
  have hback : (field e "background_status").get "progress" = if (field state "progress").isDict then
      field state "progress" else (field state "background_status").get "progress" := by
    rw [field_validate h mem_background hoptional.2, get_background_foldInto hcopyBg, field_foldDict,
      hcopyBg.field_eq rfl]
    simp
  have hlegacy : field e f.key = nil :=
    field_of_none ((folded_of_validate hcoerce h).legacy f.key (by cases f <;> decide))
  rw [Field.reading_of_nil hlegacy]
  by_cases hf : f = .progress
  · subst hf
    change progressFromState e = if (field state "progress").isDict then
      (if (field state "progress").isDict then field state "progress" else nil) else progressFromState state
    change (planGraphMeta e).get "progress" = if (field state "progress").isDict then field state "progress"
      else (planGraphMeta state).get "progress" at hmeta
    simp only [progressFromState, get_orElse, hback, hmeta]
    by_cases hdict : (field state "progress").isDict <;> simp [hdict]
  · rw [Field.nested_of_ne hf, Field.nested_of_ne hf, hmeta]
    split_ifs
    · rfl
    · rfl

/-! ### Writing -/

/-- Two states that only differ in their containers and in legacy keys. -/
def AgreeElsewhere (state merged : PyRecord) : Prop :=
  ∀ k, k ∉ legacyTopLevelFields.map String.toList → k ≠ "plan_graph".toList → k ≠ "background_status".toList →
    merged.get? k = state.get? k

/-- A state that agrees elsewhere with a valid one is valid, if its containers are dictionaries. -/
theorem exists_ensure_of_agree {py : Pydantic} {state merged t : PyRecord} (h : ensureAgentState py state = some t)
    (htyped : Typed merged) (hagree : AgreeElsewhere state merged) : ∃ t', ensureAgentState py merged = some t' := by
  obtain ⟨d, hcoerce, hvalidate⟩ := ensureAgentState_eq_some.1 h
  obtain ⟨payload, planGraph₀, planMeta₀, bg₀, hpayload, -, -, -, rfl⟩ := exists_of_coerceAgentState hcoerce
  obtain ⟨planGraph, planMeta, bg, hgraph, hmeta, hbg, -⟩ := htyped.copies
  have hinput : field merged "input_payload" = field state "input_payload" :=
    field_congr (hagree _ (by decide) (by decide) (by decide))
  have hoptional := htyped.optional_foldInto payload planGraph (foldedMeta merged planMeta)
    (foldDict merged bg "progress")
  have hall : modelFields.all fun f => (f.value py
      (foldInto merged payload planGraph (foldedMeta merged planMeta) (foldDict merged bg "progress"))).isSome := by
    rw [List.all_eq_true]
    intro f hf
    by_cases hgraph : f.name = "plan_graph"
    · rw [eq_of_name hf mem_planGraph hgraph, value_of_optional py hoptional.1]
      rfl
    by_cases hback : f.name = "background_status"
    · rw [eq_of_name hf mem_background hback, value_of_optional py hoptional.2]
      rfl
    have hlegacy : f.name.toList ∉ legacyTopLevelFields.map String.toList := by
      intro hmem
      obtain ⟨key, hkey, hname⟩ := List.mem_map.1 hmem
      exact legacy_not_mem hkey (List.mem_map.2 ⟨f, hf, hname.symm⟩)
    have hne {key : String} (h : f.name ≠ key) : key.toList ≠ f.name.toList := fun he =>
      h (String.toList_inj.1 he).symm
    have hget : (foldInto merged payload planGraph (foldedMeta merged planMeta)
        (foldDict merged bg "progress")).get? f.name.toList = (foldInto state payload planGraph₀
        (foldedMeta state planMeta₀) (foldDict state bg₀ "progress")).get? f.name.toList := by
      simp only [get?_foldInto, hlegacy, hne hgraph, hne hback, and_false, if_false, hinput,
        hagree _ hlegacy (hne hgraph).symm (hne hback).symm]
    rw [ModelField.value, hget]
    exact (validate_eq_some hvalidate).1 f hf
  obtain ⟨t', ht'⟩ : ∃ t', validate py (foldInto merged payload planGraph (foldedMeta merged planMeta)
      (foldDict merged bg "progress")) = some t' := ⟨_, if_pos hall⟩
  exact ⟨t', ensureAgentState_eq_some.2 ⟨_, coerceAgentState_eq (hinput ▸ hpayload) hgraph hmeta hbg, ht'⟩⟩

theorem Field.key_mem (f : Field) : f.key ∈ legacyTopLevelFields := by cases f <;> decide

theorem Field.key_ne {f g : Field} (h : f ≠ g) : f.key ≠ g.key := by
  cases f <;> cases g <;> first | exact absurd rfl h | decide

theorem mergeUpdate_put {key : String} (h : key ∉ ["node_history", "input_payload", "observation"])
    (state : PyRecord) (v : PyTree) : mergeUpdate state (entry key v) = put state key v := by
  have hne (key' : String) (hmem : key' ∈ ["node_history", "input_payload", "observation"]) :
      (entry key v).1 ≠ key'.toList := fun he => h (String.toList_inj.1 he ▸ hmem)
  rw [mergeUpdate, if_neg (hne _ (by simp)), if_neg (not_or.2 ⟨hne _ (by simp), hne _ (by simp)⟩)]
  rfl

/-- A field in the containers only depends on what they have under its key. -/
theorem Field.nested_congr (f : Field) {state merged : PyRecord}
    (hmeta : (planGraphMeta merged).get f.key = (planGraphMeta state).get f.key)
    (hback : f = .progress →
      (field merged "background_status").get "progress" = (field state "background_status").get "progress") :
    f.nested merged = f.nested state := by
  by_cases hf : f = .progress
  · subst hf
    change (planGraphMeta merged).get "progress" = (planGraphMeta state).get "progress" at hmeta
    change progressFromState merged = progressFromState state
    simp only [progressFromState, get_orElse]
    rw [hmeta, hback rfl]
  · rw [Field.nested_of_ne hf, Field.nested_of_ne hf, hmeta]

/-- A write in its first half: what is merged, before it is brought into form. -/
structure Write.Merged (w : Write) (state merged : PyRecord) : Prop where
  typed : Typed merged
  agree : AgreeElsewhere state merged
  others : ∀ f ≠ w.target, field merged f.key = field state f.key ∧ f.nested merged = f.nested state
  own : (if w.target.takes (field merged w.target.key) then w.target.typed (field merged w.target.key)
      else w.target.nested merged) =
    if w.Overtaken state then w.target.typed (field state w.target.key) else w.value

theorem merged_merge {state : PyRecord} (h : Typed state) {f : Field} {v : PyTree} (hfits : f.fits v) :
    (Write.merge f v).Merged state (put state f.key v) := by
  have hgraph : field (put state f.key v) "plan_graph" = field state "plan_graph" :=
    field_put_ne state (by cases f <;> decide) v
  have hback : field (put state f.key v) "background_status" = field state "background_status" :=
    field_put_ne state (by cases f <;> decide) v
  refine ⟨⟨hback ▸ h.background, hgraph ▸ h.planGraph, hgraph ▸ h.planMeta⟩, fun k hk _ _ => ?_,
    fun g hg => ?_, ?_⟩
  · refine PyDict.get?_set_ne state (fun he => hk ?_) v
    rw [← he]
    exact List.mem_map_of_mem f.key_mem
  · refine ⟨field_put_ne state (Field.key_ne (Ne.symm hg)) v, g.nested_congr ?_ fun _ => by rw [hback]⟩
    rw [planGraphMeta_get, planGraphMeta_get, hgraph]
  · have htakes : f.takes v := by
      cases f <;> cases v <;> first | rfl | cases hfits
    change (if f.takes (field (put state f.key v) f.key) then f.typed (field (put state f.key v) f.key) else _) = _
    rw [field_put_self, if_pos htakes, Field.typed, if_pos hfits]
    exact (if_neg id).symm

/-- A write into the containers is read back, unless the fold takes the legacy value. -/
theorem own_of_nested {w : Write} {state merged : PyRecord}
    (hovertaken : w.Overtaken state ↔ w.target.takes (field state w.target.key))
    (hkey : field merged w.target.key = field state w.target.key) (hnested : w.target.nested merged = w.value) :
    (if w.target.takes (field merged w.target.key) then w.target.typed (field merged w.target.key)
      else w.target.nested merged) =
    if w.Overtaken state then w.target.typed (field state w.target.key) else w.value := by
  rw [hkey, hnested]
  exact if_congr hovertaken.symm rfl rfl

/-- What is read of a plan graph that was put back with this meta. -/
theorem get_meta_put {merged planGraph planMeta : PyRecord}
    (h : field merged "plan_graph" = dict (put planGraph "meta" (dict planMeta.entries)).entries) (key : String) :
    (planGraphMeta merged).get key = field planMeta key := by
  rw [planGraphMeta_get, h, get_entries, field_put_self, get_entries]

theorem field_erase_ne (d : PyRecord) {key key' : String} (h : key ≠ key') :
    field (d.erase key.toList) key' = field d key' :=
  field_congr (PyDict.get?_erase_ne d fun he => h (String.toList_inj.1 he))

/-- `set_react_loop_on_state`, before the merge is brought into form. -/
theorem exists_merged_setReactLoop {state : PyRecord} (h : Typed state) {v : PyTree} (hfits : v.isDict ∨ v = nil) :
    ∃ merged, (∀ py, setReactLoopOnState py state v = ensureAgentState py merged) ∧
      (Write.setReactLoop v).Merged state merged := by
  obtain ⟨planGraph, planMeta, bg, hgraph, hmeta, -, -, hcopyMeta, -⟩ := h.copies
  set next := if isNone v then planMeta.erase "react_loop".toList else put planMeta "react_loop" v with hnext
  set merged := put state "plan_graph" (dict (put planGraph "meta" (dict next.entries)).entries)
  have hother (key : String) (hkey : "react_loop" ≠ key) : field next key = field planMeta key := by
    rw [hnext]
    split_ifs
    · exact field_erase_ne planMeta hkey
    · exact field_put_ne planMeta hkey v
  have hself : Field.reactLoop.typed (field next "react_loop") = v := by
    rcases hfits with hdict | rfl
    · have hnone : isNone v = false := by cases v <;> first | rfl | cases hdict
      rw [hnext, hnone, if_neg Bool.false_ne_true, field_put_self]
      exact if_pos hdict
    · have herased : next = planMeta.erase "react_loop".toList := hnext.trans (if_pos rfl)
      rw [herased, field_of_none (PyDict.get?_erase_self ..)]
      rfl
  have hplan : field merged "plan_graph" = dict (put planGraph "meta" (dict next.entries)).entries :=
    field_put_self ..
  have hback : field merged "background_status" = field state "background_status" :=
    field_put_ne state (by decide) _
  have hlegacy (f : Field) : field merged f.key = field state f.key :=
    field_put_ne state (by cases f <;> decide) _
  refine ⟨merged, fun py => ?_, ⟨⟨hback ▸ h.background, hplan ▸ Or.inr ⟨_, rfl⟩, ?_⟩, fun k _ hk _ => ?_,
    fun f hf => ⟨hlegacy f, f.nested_congr ?_ fun _ => by rw [hback]⟩, ?_⟩⟩
  · simp only [setReactLoopOnState, hgraph, hmeta, Option.bind_eq_bind, Option.bind_some, mergeState]
    rw [List.foldl_cons, mergeUpdate_put (by decide)]
    rfl
  · rw [hplan, get_entries, field_put_self]
    exact fun _ => ⟨_, rfl⟩
  · exact PyDict.get?_set_ne state (Ne.symm hk) _
  · rw [get_meta_put hplan, planGraphMeta_get, hother _ (Field.key_ne (Ne.symm hf)), hcopyMeta.field_eq rfl]
  · have hnested : Field.reactLoop.nested merged = v := by
      rw [Field.nested_of_ne (by decide), get_meta_put hplan]
      exact hself
    exact own_of_nested Iff.rfl (hlegacy .reactLoop) hnested

/-- `set_progress_on_state`, before the merge is brought into form. -/
theorem exists_merged_setProgress {state : PyRecord} (h : Typed state) {v : PyTree} (hfits : v.isDict) :
    ∃ merged, (∀ py, setProgressOnState py state v = ensureAgentState py merged) ∧
      (Write.setProgress v).Merged state merged := by
  obtain ⟨planGraph, planMeta, bg, hgraph, hmeta, hbg, -, hcopyMeta, -⟩ := h.copies
  set first := put state "background_status" (dict (put bg "progress" v).entries)
  set merged :=
    put first "plan_graph" (dict (put planGraph "meta" (dict (put planMeta "progress" v).entries)).entries)
  have hplan : field merged "plan_graph" =
    dict (put planGraph "meta" (dict (put planMeta "progress" v).entries)).entries := field_put_self ..
  have hback : field merged "background_status" = dict (put bg "progress" v).entries :=
    (field_put_ne first (by decide) _).trans (field_put_self ..)
  have hlegacy (f : Field) : field merged f.key = field state f.key :=
    (field_put_ne first (by cases f <;> decide) _).trans (field_put_ne state (by cases f <;> decide) _)
  refine ⟨merged, fun py => ?_, ⟨⟨hback ▸ Or.inr ⟨_, rfl⟩, hplan ▸ Or.inr ⟨_, rfl⟩, ?_⟩, fun k _ hk hk' => ?_,
    fun f hf => ⟨hlegacy f, f.nested_congr ?_ fun he => absurd he hf⟩, ?_⟩⟩
  · simp only [setProgressOnState, hbg, hgraph, hmeta, Option.bind_eq_bind, Option.bind_some, mergeState]
    rw [List.foldl_cons, mergeUpdate_put (by decide), List.foldl_cons, mergeUpdate_put (by decide)]
    rfl
  · rw [hplan, get_entries, field_put_self]
    exact fun _ => ⟨_, rfl⟩
  · exact (PyDict.get?_set_ne first (Ne.symm hk) _).trans (PyDict.get?_set_ne state (Ne.symm hk') _)
  · have hkey : "progress" ≠ f.key := Field.key_ne (Ne.symm hf)
    rw [get_meta_put hplan, planGraphMeta_get, field_put_ne planMeta hkey, hcopyMeta.field_eq rfl]
  · have hnested : Field.progress.nested merged = v := by
      change progressFromState merged = v
      rw [progressFromState, get_orElse, hback, get_entries, field_put_self]
      exact if_pos hfits
    exact own_of_nested Iff.rfl (hlegacy .progress) hnested

theorem Write.exists_merged {state : PyRecord} (h : Typed state) {w : Write} (hfits : w.Fits) :
    ∃ merged, (∀ py, w.run py state = ensureAgentState py merged) ∧ w.Merged state merged := by
  cases w with
  | setProgress v => exact exists_merged_setProgress h hfits
  | setReactLoop v => exact exists_merged_setReactLoop h hfits
  | merge f v =>
    refine ⟨put state f.key v, fun py => ?_, merged_merge h hfits⟩
    rw [Write.run, mergeState, List.foldl_cons, mergeUpdate_put (by cases f <;> decide)]
    rfl

/-- A write to a valid state: what its field and the others read as. -/
theorem Write.readings {py : Pydantic} {state t : PyRecord} (hvalid : ensureAgentState py state = some t)
    (h : Typed state) {w : Write} (hfits : w.Fits) : ∃ after, w.run py state = some after ∧
      w.target.reading after =
        (if w.Overtaken state then w.target.typed (field state w.target.key) else w.value) ∧
      ∀ f ≠ w.target, f.reading after =
        if f.takes (field state f.key) then f.typed (field state f.key) else f.reading state := by
  obtain ⟨merged, hrun, hmerged⟩ := Write.exists_merged h hfits
  obtain ⟨after, hafter⟩ := exists_ensure_of_agree hvalid hmerged.typed hmerged.agree
  obtain ⟨d, hcoerce, hvalidate⟩ := ensureAgentState_eq_some.1 hafter
  refine ⟨after, (hrun py).trans hafter, ?_, fun f hf => ?_⟩
  · rw [reading_validate hmerged.typed hcoerce hvalidate, hmerged.own]
  · obtain ⟨hkey, hnested⟩ := hmerged.others f hf
    rw [reading_validate hmerged.typed hcoerce hvalidate, hkey, hnested]
    split_ifs with htakes
    · rfl
    · exact (Field.reading_of_not_takes htakes).symm

/-! ### The fields behave like fields -/

theorem Folded.not_takes {state : PyRecord} (h : Folded state) (f : Field) : f.takes (field state f.key) = false := by
  rw [field_of_none (h.legacy f.key f.key_mem)]
  cases f <;> rfl

theorem Folded.not_overtaken {state : PyRecord} (h : Folded state) (w : Write) : ¬ w.Overtaken state := by
  cases w with
  | setProgress v => exact fun hw => Bool.false_ne_true ((h.not_takes .progress).symm.trans hw)
  | setReactLoop v => exact fun hw => Bool.false_ne_true ((h.not_takes .reactLoop).symm.trans hw)
  | merge f v => exact id

/-- `None` written through `merge_state` is not taken. -/
theorem readings_merge_none {py : Pydantic} {state t : PyRecord} (h : ensureAgentState py state = some t) (f : Field) :
    ∃ after, mergeState py t [entry f.key nil] = some after ∧ ∀ g : Field, g.reading after = g.reading t := by
  have hfolded := folded_of_ensure h
  have hput (key : String) (hkey : f.key ≠ key) : field (put t f.key nil) key = field t key := field_put_ne t hkey nil
  have hgraph := hput "plan_graph" (by cases f <;> decide)
  have hback := hput "background_status" (by cases f <;> decide)
  have htyped : Typed (put t f.key nil) :=
    ⟨hback ▸ hfolded.background, hgraph ▸ hfolded.planGraph, hgraph ▸ hfolded.planMeta⟩
  obtain ⟨after, hafter⟩ := exists_ensure_of_agree (ensureAgentState_idem h) htyped fun k hk _ _ => by
    refine PyDict.get?_set_ne t (fun he => hk ?_) nil
    rw [← he]
    exact List.mem_map_of_mem f.key_mem
  obtain ⟨d, hcoerce, hvalidate⟩ := ensureAgentState_eq_some.1 hafter
  refine ⟨after, ?_, fun g => ?_⟩
  · rw [mergeState, List.foldl_cons, mergeUpdate_put (by cases f <;> decide)]
    exact hafter
  · have hnil : field (put t f.key nil) g.key = nil := by
      by_cases hg : f = g
      · rw [hg, field_put_self]
      · rw [hput g.key (Field.key_ne hg), field_of_none (hfolded.legacy g.key g.key_mem)]
    have htakes : g.takes nil = false := by cases g <;> rfl
    rw [reading_validate htyped hcoerce hvalidate, hnil, htakes, if_neg Bool.false_ne_true,
      Field.reading_of_not_takes (by rw [hfolded.not_takes g]; exact Bool.false_ne_true)]
    exact g.nested_congr (by rw [planGraphMeta_get, planGraphMeta_get, hgraph]) fun _ => by rw [hback]

/-- A state is in form after the first time. A write to a valid state is read back, except that a write into the
    containers is overtaken by the legacy key of its field, and the other fields read as before, except that a legacy
    key that the fold takes is read from then on. In a state that is in form there are no legacy keys: what is written
    is read back, and the others read as before. -/
theorem fields_behave (py : Pydantic) :
    (∀ state t, ensureAgentState py state = some t → ensureAgentState py t = some t) ∧
    (∀ state t (w : Write), ensureAgentState py state = some t → Typed state → w.Fits →
      ∃ after, w.run py state = some after ∧
        w.target.reading after =
          (if w.Overtaken state then w.target.typed (field state w.target.key) else w.value) ∧
        ∀ f ≠ w.target, f.reading after =
          if f.takes (field state f.key) then f.typed (field state f.key) else f.reading state) ∧
    (∀ state t (w : Write), ensureAgentState py state = some t → w.Fits →
      ∃ after, w.run py t = some after ∧ w.target.reading after = w.value ∧
        ∀ f ≠ w.target, f.reading after = f.reading t) ∧
    ∀ state t (f : Field), ensureAgentState py state = some t →
      ∃ after, mergeState py t [entry f.key nil] = some after ∧ ∀ g : Field, g.reading after = g.reading t := by
  refine ⟨fun _ _ h => ensureAgentState_idem h, fun _ _ _ h htyped hfits => Write.readings h htyped hfits,
    fun state t w h hfits => ?_, fun _ _ f h => readings_merge_none h f⟩
  have hfolded := folded_of_ensure h
  obtain ⟨after, hrun, hown, hothers⟩ := Write.readings (ensureAgentState_idem h) hfolded.toTyped hfits
  refine ⟨after, hrun, hown.trans (if_neg (hfolded.not_overtaken w)), fun f hf => (hothers f hf).trans ?_⟩
  rw [hfolded.not_takes f, if_neg Bool.false_ne_true]

/-- The validation of values that are of their types. -/
def plainPydantic : Pydantic where
  str? := fun | leaf (.str t) => some t | _ => none
  int? := fun | leaf (.int n) => some n | _ => none
  bool? := fun | leaf (.bool b) => some b | _ => none
  str?_str _ := rfl
  int?_int _ := rfl
  bool?_bool _ := rfl

/-- A snapshot with legacy keys. -/
def oldSnapshot : PyRecord := PyDict.ofList
  [entry "task_id" (leaf (.str "t".toList)), entry "session_id" (leaf (.str "t".toList)),
    entry "progress" (dict [entry "round" (leaf (.int 1))]), entry "react_loop" (dict [entry "round" (leaf (.int 1))])]

theorem field_oldSnapshot :
    field oldSnapshot "background_status" = nil ∧ field oldSnapshot "plan_graph" = nil :=
  ⟨field_of_none (by decide +kernel), field_of_none (by decide +kernel)⟩

theorem typed_oldSnapshot : Typed oldSnapshot := by
  refine ⟨Or.inl field_oldSnapshot.1, Or.inl field_oldSnapshot.2, ?_⟩
  rw [field_oldSnapshot.2]
  rintro ⟨⟩

theorem required_modelFields :
    modelFields.all fun f => f.default.isSome || f.name == "task_id" || f.name == "session_id" := by decide +kernel

/-- A state with its two ids is validated when what else it has passes. -/
theorem exists_validate {py : Pydantic} {d : PyRecord} (htask : (d.get? "task_id".toList).isSome)
    (hsession : (d.get? "session_id".toList).isSome)
    (h : ∀ f ∈ modelFields, ∀ v, d.get? f.name.toList = some v → (f.check py v).isSome) :
    ∃ e, validate py d = some e := by
  refine ⟨_, if_pos (List.all_eq_true.2 fun f hf => ?_)⟩
  rw [ModelField.value]
  cases hget : d.get? f.name.toList with
  | some v => exact h f hf v hget
  | none =>
    have hrequired := List.all_eq_true.1 required_modelFields f hf
    simp only [Bool.or_eq_true, beq_iff_eq] at hrequired
    rcases hrequired with (hdefault | hname) | hname
    · exact hdefault
    · rw [hname] at hget
      rw [hget] at htask
      cases htask
    · rw [hname] at hget
      rw [hget] at hsession
      cases hsession

theorem mem_taskId : ⟨"task_id", .str, false, none⟩ ∈ modelFields := by simp [modelFields]

theorem mem_sessionId : ⟨"session_id", .str, false, none⟩ ∈ modelFields := by simp [modelFields]

theorem valid_oldSnapshot : ∃ t, ensureAgentState plainPydantic oldSnapshot = some t := by
  obtain ⟨planGraph, planMeta, bg, hgraph, hmeta, hbg, -⟩ := typed_oldSnapshot.copies
  have hpayload : toDict? ((field oldSnapshot "input_payload").orElse (dict [])) = some PyDict.empty := by
    rw [field_of_none (by decide +kernel)]
    rfl
  have hentries : oldSnapshot.entries = _ := PyDict.entries_ofList (by decide +kernel)
  obtain ⟨t, ht⟩ : ∃ t, validate plainPydantic (foldInto oldSnapshot PyDict.empty planGraph
      (foldedMeta oldSnapshot planMeta) (foldDict oldSnapshot bg "progress")) = some t := by
    refine exists_validate ?_ ?_ fun f hf v hv => ?_
    · rw [get?_foldInto, if_neg (by decide), if_neg (by simp), if_neg (by simp), if_neg (by simp)]
      decide +kernel
    · rw [get?_foldInto, if_neg (by decide), if_neg (by simp), if_neg (by simp), if_neg (by simp)]
      decide +kernel
    · have hname {key : String} (h : key.toList = f.name.toList) : f.name = key := (String.toList_inj.1 h).symm
      rw [get?_foldInto] at hv
      split_ifs at hv with hlegacy hback hinput hplan
      · cases hv
        rw [eq_of_name hf mem_background (hname hback.2)]
        rfl
      · cases hv
        rw [eq_of_name hf mem_payload (hname hinput.2)]
        rfl
      · cases hv
        rw [eq_of_name hf mem_planGraph (hname hplan.2)]
        rfl
      · have hmem := PyDict.mem_entries.2 hv
        rw [hentries] at hmem
        simp only [List.mem_cons, List.not_mem_nil, or_false, entry, Prod.mk.injEq] at hmem
        rcases hmem with ⟨hkey, rfl⟩ | ⟨hkey, rfl⟩ | ⟨hkey, -⟩ | ⟨hkey, -⟩
        · rw [eq_of_name hf mem_taskId (hname hkey.symm)]
          rfl
        · rw [eq_of_name hf mem_sessionId (hname hkey.symm)]
          rfl
        · exact absurd (hkey ▸ List.mem_map_of_mem (by decide)) hlegacy
        · exact absurd (hkey ▸ List.mem_map_of_mem (by decide)) hlegacy
  exact ⟨t, ensureAgentState_eq_some.2 ⟨_, coerceAgentState_eq hpayload hgraph hmeta hbg, ht⟩⟩

theorem fields_behave_subtasks : ∃ after,
    mergeState plainPydantic oldSnapshot [entry "subtasks" (list [])] = some after ∧
      subtasksFromState after = list [] := by
  obtain ⟨t, ht⟩ := valid_oldSnapshot
  obtain ⟨after, hrun, hown, -⟩ :=
    (fields_behave plainPydantic).2.1 oldSnapshot t (.merge .subtasks (list [])) ht typed_oldSnapshot rfl
  exact ⟨after, hrun, hown⟩

theorem isDict_missionControlFromState (state : PyRecord) : (missionControlFromState state).isDict := by
  rw [missionControlFromState]
  split_ifs with htop hmeta
  · exact htop
  · exact hmeta
  · rfl

/-- While a state has its legacy keys, they overtake what is written, and the next merge changes what is read; and
    `None` is not what is read of a field whose accessor returns a dictionary. -/
theorem legacy_keys_overtake :
    (∃ after, setProgressOnState plainPydantic oldSnapshot (dict []) = some after ∧
      progressFromState after ≠ dict []) ∧
    (∃ after, setReactLoopOnState plainPydantic oldSnapshot nil = some after ∧ reactLoopFromState after ≠ nil) ∧
    (∃ after, mergeState plainPydantic oldSnapshot [entry "subtasks" (list [])] = some after ∧
      progressFromState after ≠ progressFromState oldSnapshot) ∧
    ∃ t after, ensureAgentState plainPydantic oldSnapshot = some t ∧
      mergeState plainPydantic t [entry "mission_control" nil] = some after ∧ missionControlFromState after ≠ nil := by
  obtain ⟨t, ht⟩ := valid_oldSnapshot
  have hprogress : field oldSnapshot "progress" = dict [entry "round" (leaf (.int 1))] :=
    field_of_get? (by rw [oldSnapshot, PyDict.get?, PyDict.entries_ofList (by decide)]; rfl)
  have hloop : field oldSnapshot "react_loop" = dict [entry "round" (leaf (.int 1))] :=
    field_of_get? (by rw [oldSnapshot, PyDict.get?, PyDict.entries_ofList (by decide)]; rfl)
  refine ⟨?_, ?_, ?_, ?_⟩
  · obtain ⟨after, hrun, hown, -⟩ := Write.readings (w := .setProgress (dict [])) ht typed_oldSnapshot rfl
    refine ⟨after, hrun, ?_⟩
    change progressFromState after = (if (field oldSnapshot "progress").isDict then
      Field.progress.typed (field oldSnapshot "progress") else _) at hown
    rw [hown, hprogress]
    rintro ⟨⟩
  · obtain ⟨after, hrun, hown, -⟩ := Write.readings (w := .setReactLoop nil) ht typed_oldSnapshot (Or.inr rfl)
    refine ⟨after, hrun, ?_⟩
    change reactLoopFromState after = (if (!isNone (field oldSnapshot "react_loop")) = true then
      Field.reactLoop.typed (field oldSnapshot "react_loop") else _) at hown
    rw [hown, hloop]
    rintro ⟨⟩
  · obtain ⟨after, hrun, -, hothers⟩ := Write.readings (w := .merge .subtasks (list [])) ht typed_oldSnapshot rfl
    refine ⟨after, hrun, ?_⟩
    have hafter : progressFromState after = (if (field oldSnapshot "progress").isDict then
      Field.progress.typed (field oldSnapshot "progress") else _) := hothers .progress (by decide)
    have hbefore : progressFromState oldSnapshot = nil := by
      simp only [progressFromState, get_orElse, planGraphMeta_get, field_oldSnapshot.1, field_oldSnapshot.2]
      rfl
    rw [hafter, hbefore, hprogress]
    rintro ⟨⟩
  · obtain ⟨after, hrun, -⟩ := readings_merge_none ht .missionControl
    refine ⟨t, after, ht, hrun, fun heq => ?_⟩
    have hdict := isDict_missionControlFromState after
    rw [heq] at hdict
    cases hdict

end AgentLangraph.Session.FieldAccess
