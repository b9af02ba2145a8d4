import AgentLangraph.Artifact.Executor
import AgentLangraph.Lib.Logged

/-! The registry of tools (`tool_registry.py`) and the helper that both pipelines call it through
    (`tool_invoke_helpers.py`). The registry checks the role and the required parameters, and hands the
    rest on to the handler of the tool; `rm_path` without a preview token is carried out twice.

        name, params, role ── known? role? required? ──▶ handler(params) -/

namespace AgentLangraph.Tool
open PyText Logged
open AgentLangraph.Artifact (Raise Entry textOr)

/-- `role_order`, which gives an unknown role no place. -/
def roleOrder (role : Text) : Option ℕ :=
  if role = "guest".toList then some 0
  else if role = "user".toList then some 1
  else if role = "admin".toList then some 2
  else none

/-- What a handler returns; `preview_token` is that of a dry run of `rm_path`. -/
structure Output where
  result : Artifact.Result := {}
  previewToken : Text := []

/-- The properties of an input schema, with whether they are required. -/
abbrev Schema := PyDict Text Bool

/-- `ToolSpec`, with a handler that works on `σ`. -/
structure ToolSpec (σ : Type) where
  name : Text
  requiredRole : Text := "user".toList
  riskLevel : Text := "LOW".toList
  properties : Schema := PyDict.empty
  handler : Fields → Attempt σ Raise Output

/-- `ToolRegistry._tools`. -/
abbrev Registry (σ : Type) := PyDict Text (ToolSpec σ)

/-- What the node does that can be seen from outside. -/
inductive Event
  /-- A tool is asked for by name. -/
  | invoked (tool : Text) (params : Fields)
  /-- The handler of a tool is called. -/
  | handled (tool : Text) (params : Fields)
  deriving DecidableEq

/-- The programs of the node: they work on `σ` and log their events. -/
abbrev Act (σ α : Type) := Attempt (Logged σ Event) Raise α

variable {σ : Type}

/-- `ToolRegistry.get`. -/
def Registry.get (reg : Registry σ) (name : Text) : Except Raise (ToolSpec σ) :=
  match reg.get? name with
  | some spec => .ok spec
  | none => .error (.keyError ("Unknown tool: ".toList ++ name))

/-- `ToolRegistry.check_permission`, of a tool that is known. -/
def checkPermission (spec : ToolSpec σ) (role : Text) : Bool :=
  decide ((roleOrder spec.requiredRole).getD 1 ≤ (roleOrder role).getD 0)

/-- The loop of `_validate_params`: the properties that are given, in the order of the schema. -/
def pickProperties (params : Fields) : List (Text × Bool) → Fields → Except Raise Fields
  | [], out => .ok out
  | (key, needed) :: rest, out =>
    match params.get? key with
    | some v => pickProperties params rest (out.set key v)
    | none =>
      if needed then .error (.valueError ("Missing required parameter: ".toList ++ key))
      else pickProperties params rest out

/-- `_validate_params`. -/
def validateParams (params : Fields) (schema : Schema) : Except Raise Fields :=
  (pickProperties params schema.entries PyDict.empty).map fun validated =>
    params.entries.foldl
      (fun out kv => if (validated.get? kv.1).isSome then out else out.set kv.1 kv.2) validated

/-- The checks of `ToolRegistry.invoke`, with the handler and what it is handed. -/
def admitted (reg : Registry σ) (name : Text) (params : Fields) (role : Text) :
    Except Raise (ToolSpec σ × Fields) :=
  match reg.get name with
  | .error e => .error e
  | .ok spec =>
    if checkPermission spec role then (validateParams params spec.properties).map fun p => (spec, p)
    else .error (.permissionError
      ("Role '".toList ++ role ++ "' cannot invoke '".toList ++ name ++ "'".toList))

/-- A handler is called. -/
def called (tool : Text) (params : Fields) (handler : Fields → Attempt σ Raise Output) : Act σ Output := do
  note (.handled tool params)
  inside (handler params)

/-- `ToolRegistry.invoke`. -/
def Registry.invoke (reg : Registry σ) (name : Text) (params : Fields) (role : Text) : Act σ Output := do
  let (spec, validated) ← .lift (admitted reg name params role)
  called name validated spec.handler

/-- `rm_path` is asked to delete, without the token of a preview. -/
def wantsPreview (name : Text) (params : Fields) : Bool :=
  name = "rm_path".toList && !(params.field "dry_run").truthy &&
    decide (strip (textOr params "preview_token") = [])

/-- `invoke_tool_with_guards`, once the tool was asked for. -/
def invokeRest (reg : Registry σ) (name : Text) (params : Fields) (role : Text) : Act σ Output :=
  if wantsPreview name params then do
    let dry ← reg.invoke name (params.put "dry_run" (.bool true)) role
    let token := strip dry.previewToken
    if token = [] then .raise (.valueError "rm_path dry_run did not return preview_token".toList)
    else
      reg.invoke name ((params.put "dry_run" (.bool false)).put "preview_token" (.str token)) role
  else reg.invoke name params role

/-- `invoke_tool_with_guards`. -/
def invokeToolWithGuards (reg : Registry σ) (tool : Text) (params : Fields) (role : Text) :
    Act σ Output := do
  note (.invoked (strip tool) params)
  invokeRest reg (strip tool) params role

/-- The parameters that the first call of a handler is made with. -/
def firstParams (name : Text) (params : Fields) : Fields :=
  if wantsPreview name params then params.put "dry_run" (.bool true) else params

/-! ### What validating keeps -/

theorem get?_pickProperties {params : Fields} : ∀ {props : List (Text × Bool)} {out p : Fields},
    pickProperties params props out = .ok p → ∀ key,
      p.get? key = if key ∈ props.map Prod.fst then (params.get? key).or (out.get? key) else out.get? key
  | [], out, p, h, key => by
      cases h
      simp
  | (k, needed) :: rest, out, p, h, key => by
      rw [pickProperties] at h
      cases hk : params.get? k with
      | some v =>
        rw [hk] at h
        rw [get?_pickProperties h key, PyDict.get?_set]
        by_cases hkey : k = key
        · subst hkey
          simp [hk]
        · simp [hkey, Ne.symm hkey]
      | none =>
        rw [hk] at h
        dsimp only at h
        split_ifs at h
        rw [get?_pickProperties h key]
        by_cases hkey : key = k
        · subst hkey
          simp [hk]
        · simp [hkey]

theorem get?_foldl_rest (validated : Fields) : ∀ (es : List (Text × PyVal)) (out : Fields) (key : Text),
    (es.map Prod.fst).Nodup →
    (es.foldl (fun out kv => if (validated.get? kv.1).isSome then out else out.set kv.1 kv.2) out).get? key =
      if (validated.get? key).isSome then out.get? key else (PyDict.assocGet key es).or (out.get? key)
  | [], out, key, _ => by simp [PyDict.assocGet]
  | e :: es, out, key, hnodup => by
      rw [List.map_cons, List.nodup_cons] at hnodup
      rw [List.foldl_cons, get?_foldl_rest validated es _ key hnodup.2, PyDict.assocGet]
      by_cases he : e.1 = key
      · have hnone : PyDict.assocGet key es = none := by
          cases hes : PyDict.assocGet key es with
          | none => rfl
          | some v =>
            have hmem := (PyDict.mem_iff_assocGet hnodup.2).2 hes
            exact absurd (he ▸ List.mem_map_of_mem hmem : e.1 ∈ es.map Prod.fst) hnodup.1
        rw [if_pos he, he]
        split_ifs with hv
        · rfl
        · rw [hnone, PyDict.get?_set, if_pos rfl]
          rfl
      · rw [if_neg he]
        split_ifs with hk hv hv
        · rfl
        · rw [PyDict.get?_set_ne _ he]
        · rfl
        · rw [PyDict.get?_set_ne _ he]

/-- The handler sees the parameters as they were given, in another order. -/
theorem get?_validateParams {params p : Fields} {schema : Schema}
    (h : validateParams params schema = .ok p) (key : Text) : p.get? key = params.get? key := by
  rw [validateParams] at h
  cases hpick : pickProperties params schema.entries PyDict.empty with
  | error e =>
    rw [hpick] at h
    cases h
  | ok validated =>
    rw [hpick] at h
    cases h
    rw [get?_foldl_rest validated params.entries validated key params.nodup]
    have hget := get?_pickProperties hpick key
    rw [PyDict.get?_empty, Option.or_none] at hget
    split_ifs at hget with hmem
    · rw [hget]
      split_ifs
      · rfl
      · exact Option.or_self
    · rw [hget, Option.isSome_none, if_neg Bool.false_ne_true, Option.or_none]
      rfl

theorem validated_of_admitted {reg : Registry σ} {name role : Text} {params p : Fields}
    {spec : ToolSpec σ} (h : admitted reg name params role = .ok (spec, p)) (key : Text) :
    p.get? key = params.get? key := by
  rw [admitted] at h
  split at h
  · cases h
  · split_ifs at h
    cases hp : validateParams params _ with
    | error e =>
      rw [hp] at h
      cases h
    | ok q =>
      rw [hp] at h
      cases h
      exact get?_validateParams hp key

/-! ### What an invocation logs -/

theorem grows_called (tool : Text) (params : Fields) (handler : Fields → Attempt σ Raise Output) :
    Grows (called tool params handler) := grows_bind (grows_note _) fun _ => grows_inside _

theorem grows_invoke (reg : Registry σ) (name : Text) (params : Fields) (role : Text) :
    Grows (reg.invoke name params role) :=
  grows_bind (grows_lift _) fun _ => grows_called _ _ _

@[simp] theorem added_called (tool : Text) (params : Fields) (handler : Fields → Attempt σ Raise Output)
    (s : Logged σ Event) : added (called tool params handler) s = [.handled tool params] := by
  rw [called, added_bind_ok (a := ()) rfl (grows_note _) (grows_inside _), added_note, added_inside,
    List.append_nil]

/-- One invocation calls the handler with what was admitted, or nothing. -/
theorem added_invoke (reg : Registry σ) (name : Text) (params : Fields) (role : Text)
    (s : Logged σ Event) : added (reg.invoke name params role) s =
      match admitted reg name params role with
      | .ok (_, p) => [.handled name p]
      | .error _ => [] := by
  rw [Registry.invoke]
  cases h : admitted reg name params role with
  | error e => rw [Attempt.lift_error_bind, added_raise]
  | ok sp => rw [Attempt.lift_ok_bind, added_called]

/-- Two parameter lists that differ in the keys of a preview at most. -/
def Alike (p q : Fields) : Prop :=
  ∀ key : String, key ∉ ["dry_run", "preview_token"] → q.get? key.toList = p.get? key.toList

theorem alike_put {p : Fields} {key : String} (h : key ∈ ["dry_run", "preview_token"]) (v : PyVal) :
    Alike p (p.put key v) := by
  intro key' hkey
  refine PyDict.get?_put_ne _ ?_ v
  rintro rfl
  exact hkey h

theorem Alike.trans {p q r : Fields} (h : Alike p q) (h' : Alike q r) : Alike p r :=
  fun key hkey => (h' key hkey).trans (h key hkey)

theorem alike_firstParams (name : Text) (p : Fields) : Alike p (firstParams name p) := by
  rw [firstParams]
  split_ifs
  · exact alike_put (by decide) _
  · exact fun _ _ => rfl

theorem alike_of_admitted {reg : Registry σ} {name role : Text} {p q : Fields} {spec : ToolSpec σ}
    (h : admitted reg name p role = .ok (spec, q)) : Alike p q := fun key _ => validated_of_admitted h key.toList

/-- A handler that is called with the parameters, but for a preview. -/
def HandledLike (name : Text) (p : Fields) (e : Event) : Prop := ∃ q, e = .handled name q ∧ Alike p q

theorem handledLike_invoke {reg : Registry σ} {name role : Text} {p p' : Fields} (h : Alike p p')
    {s : Logged σ Event} {e : Event} (he : e ∈ added (reg.invoke name p' role) s) : HandledLike name p e := by
  rw [added_invoke] at he
  cases hadm : admitted reg name p' role with
  | error err =>
    rw [hadm] at he
    cases he
  | ok sq =>
    rw [hadm, List.mem_singleton] at he
    exact ⟨_, he, h.trans (alike_of_admitted hadm)⟩

theorem grows_invokeRest (reg : Registry σ) (name : Text) (params : Fields) (role : Text) :
    Grows (invokeRest reg name params role) := by
  rw [invokeRest]
  split_ifs
  · refine grows_bind (grows_invoke reg _ _ role) fun dry => ?_
    dsimp only
    split_ifs
    · exact grows_raise _
    · exact grows_invoke reg _ _ role
  · exact grows_invoke reg _ _ role

theorem grows_invokeToolWithGuards (reg : Registry σ) (tool : Text) (params : Fields) (role : Text) :
    Grows (invokeToolWithGuards reg tool params role) :=
  grows_bind (grows_note _) fun _ => grows_invokeRest reg (strip tool) params role

theorem added_invokeToolWithGuards (reg : Registry σ) (tool : Text) (params : Fields) (role : Text)
    (s : Logged σ Event) : added (invokeToolWithGuards reg tool params role) s =
      .invoked (strip tool) params :: added (invokeRest reg (strip tool) params role)
        { s with log := s.log ++ [.invoked (strip tool) params] } := by
  rw [invokeToolWithGuards, added_bind_ok (a := ()) rfl (grows_note _) (grows_invokeRest _ _ _ _), added_note]
  rfl

/-- What an invocation logs after its name: nothing, or calls of the handler, the first of them with what
    was admitted first. -/
theorem added_invokeRest (reg : Registry σ) (name : Text) (params : Fields) (role : Text)
    (s : Logged σ Event) : ∃ more, added (invokeRest reg name params role) s =
      (match admitted reg name (firstParams name params) role with
      | .ok (_, q) => .handled name q :: more
      | .error _ => []) ∧ ∀ e ∈ more, HandledLike name params e := by
  rw [invokeRest, firstParams]
  split_ifs with hpreview
  · have hfirst := added_invoke reg name (params.put "dry_run" (.bool true)) role s
    rcases hr : reg.invoke name (params.put "dry_run" (.bool true)) role s with ⟨s', r⟩
    cases r with
    | error e =>
      refine ⟨[], ?_, fun _ h => absurd h List.not_mem_nil⟩
      rw [added_bind_error hr]
      exact hfirst
    | ok dry =>
      have hrest : Grows (if strip dry.previewToken = [] then
            (.raise (.valueError "rm_path dry_run did not return preview_token".toList) : Act σ Output)
          else reg.invoke name ((params.put "dry_run" (.bool false)).put "preview_token"
            (.str (strip dry.previewToken))) role) := by
        split_ifs
        · exact grows_raise _
        · exact grows_invoke _ _ _ _
      rw [added_bind_ok hr (grows_invoke _ _ _ _) hrest, hfirst]
      cases hadm : admitted reg name (params.put "dry_run" (.bool true)) role with
      | error e =>
        have hraised : reg.invoke name (params.put "dry_run" (.bool true)) role s = (s, .error e) := by
          rw [Registry.invoke, hadm]
          rfl
        rw [hraised] at hr
        cases hr
      | ok sq =>
        refine ⟨_, rfl, fun e he => ?_⟩
        dsimp only at he
        split_ifs at he
        · rw [added_raise] at he
          cases he
        · exact handledLike_invoke ((alike_put (by decide) _).trans (alike_put (by decide) _)) he
  · refine ⟨[], ?_, fun _ h => absurd h List.not_mem_nil⟩
    rw [added_invoke]

/-- The events of an invocation: its tool is asked for, and the handler is called. -/
theorem mem_added_invoke {reg : Registry σ} {tool role : Text} {params : Fields} {s : Logged σ Event}
    {e : Event} (h : e ∈ added (invokeToolWithGuards reg tool params role) s) :
    e = .invoked (strip tool) params ∨ HandledLike (strip tool) params e := by
  obtain ⟨more, hmore, hlike⟩ := added_invokeRest reg (strip tool) params role
    { s with log := s.log ++ [.invoked (strip tool) params] }
  rw [added_invokeToolWithGuards, List.mem_cons, hmore] at h
  refine h.imp_right fun h => ?_
  cases hadm : admitted reg (strip tool) (firstParams (strip tool) params) role with
  | error e =>
    rw [hadm] at h
    cases h
  | ok sq =>
    rw [hadm, List.mem_cons] at h
    rcases h with rfl | h
    · exact ⟨_, rfl, (alike_firstParams (strip tool) params).trans (alike_of_admitted hadm)⟩
    · exact hlike e h

end AgentLangraph.Tool
