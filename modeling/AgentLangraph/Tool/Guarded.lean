import AgentLangraph.Tool.Events

/-! The guard on the two paths of the tool node. The staged path asks it before it invokes a tool. The
    planned path leaves the role and the required parameters to the registry and does not ask for the rest,
    so it meets the guard as far as what a `run_tool` calls is harmless by itself. -/

namespace AgentLangraph.Tool
open PyText Logged
open AgentLangraph.Artifact (Raise Entry ActionType textOr)

variable {σ : Type}

/-- The guard accepts a call of a tool, for the goal and the role of a turn. -/
def Accepted (u : Letters) (reg : Registry σ) (x : NodeState) (tool : Text) (p : Fields) : Prop :=
  ∃ spec, reg.get tool = .ok spec ∧ checkToolParamsSafe u tool p spec x.goal x.userRole = []

/-- No tool is asked for but for calls that the guard accepts. -/
def AskedSafely (u : Letters) (reg : Registry σ) (x : NodeState) (events : List Event) : Prop :=
  ∀ name p, .invoked name p ∈ events → ∃ tool, strip tool = name ∧ Accepted u reg x tool p

/-- No handler is reached but for calls that the guard accepts. -/
def ReachedSafely (u : Letters) (reg : Registry σ) (x : NodeState) (events : List Event) : Prop :=
  ∀ name p, .invoked name p ∈ events → (∃ q, .handled name q ∈ events) → Accepted u reg x name p

/-- Both paths keep the guard: the staged one before every invocation, the planned one before every handler
    that a `run_tool` reaches. -/
structure GuardedPaths (u : Letters) (b : Backends σ) (o : Order) (x : NodeState) (s : Logged σ Event) :
    Prop where
  staged : Attempt.Along (stagedStep b u x) (fun s tool =>
    AskedSafely u b.registry x (added (stagedStep b u x tool) s)) s (stagedOrder o (parseToolStages o x))
  planned : Attempt.Along (Exec.step b) (fun s raw => ∀ p, raw.action = .ok ⟨.runTool, p⟩ →
    ReachedSafely u b.registry x (added (Exec.step b raw) s)) (Exec.start x s) x.plannedActions

/-- The registry lets a call through to its handler: the tool is known, the role is high enough, and no
    required parameter is missing. -/
structure Admits (reg : Registry σ) (name : Text) (p : Fields) (role : Text) (spec : ToolSpec σ) : Prop where
  known : reg.get name = .ok spec
  role : checkPermission spec role
  required : ∀ prop ∈ spec.properties.entries, prop.2 → ((firstParams name p).get? prop.1).isSome

/-- What a `run_tool` calls is harmless where the registry lets it through. -/
def RunToolHarmless (u : Letters) (b : Backends σ) (x : NodeState) (s : Logged (Exec σ) Event)
    (raw : Planned) : Prop :=
  ∀ p, raw.action = .ok ⟨.runTool, p⟩ → ∀ w tool q,
    runToolCall b s.world.current p s.world.world = some (w, tool, q) → ∀ spec,
      Admits b.registry (strip tool) q x.userRole spec → Harmless u (strip tool) q spec x.goal x.userRole

/-! ### What the registry lets through -/

theorem pickProperties_isOk {params : Fields} : ∀ {props : List (Text × Bool)} {out : Fields},
    (∃ p, pickProperties params props out = .ok p) ↔ ∀ prop ∈ props, prop.2 → (params.get? prop.1).isSome
  | [], out => by simp [pickProperties]
  | (key, needed) :: rest, out => by
      rw [pickProperties, List.forall_mem_cons]
      cases hkey : params.get? key with
      | some v => simp [pickProperties_isOk]
      | none => cases needed <;> simp [pickProperties_isOk]

theorem validateParams_isOk {params : Fields} {schema : Schema} :
    (∃ p, validateParams params schema = .ok p) ↔
      ∀ prop ∈ schema.entries, prop.2 → (params.get? prop.1).isSome := by
  have hpicked : (∃ p, pickProperties params schema.entries PyDict.empty = .ok p) ↔
      ∀ prop ∈ schema.entries, prop.2 → (params.get? prop.1).isSome := pickProperties_isOk
  rw [← hpicked, validateParams]
  cases pickProperties params schema.entries PyDict.empty with
  | ok p => simp [Except.map]
  | error e => simp [Except.map]

/-- A handler is called exactly where the registry lets the call through. -/
theorem admitted_iff_admits {reg : Registry σ} {name role : Text} {p : Fields} {spec : ToolSpec σ} :
    (∃ q, admitted reg name (firstParams name p) role = .ok (spec, q)) ↔ Admits reg name p role spec := by
  constructor
  · rintro ⟨q, h⟩
    rw [admitted] at h
    cases hget : reg.get name with
    | error e =>
      rw [hget] at h
      cases h
    | ok found =>
      rw [hget] at h
      dsimp only at h
      split_ifs at h with hrole
      cases hvalid : validateParams (firstParams name p) found.properties with
      | error e =>
        rw [hvalid] at h
        cases h
      | ok q' =>
        rw [hvalid] at h
        cases h
        exact ⟨hget, hrole, validateParams_isOk.1 ⟨q, hvalid⟩⟩
  · rintro ⟨hget, hrole, hneeded⟩
    obtain ⟨q, hvalid⟩ := validateParams_isOk.2 hneeded
    refine ⟨q, ?_⟩
    rw [admitted, hget]
    dsimp only
    rw [if_pos hrole, hvalid]
    rfl

/-- Of a call that the registry lets through, the guard only judges what is harmful. -/
theorem accepted_iff_harmless {u : Letters} {reg : Registry σ} {x : NodeState} {tool : Text} {p : Fields}
    {spec : ToolSpec σ} (h : Admits reg tool p x.userRole spec) :
    Accepted u reg x tool p ↔ Harmless u tool p spec x.goal x.userRole := by
  constructor
  · rintro ⟨found, hget, hsafe⟩
    rw [h.known] at hget
    cases hget
    exact (safe_iff.1 hsafe).2
  · intro hharmless
    exact ⟨spec, h.known, safe_iff.2 ⟨requiredLevel_le_of_checkPermission h.role, hharmless⟩⟩

/-! ### The two paths -/

theorem stagedCall_accepted {u : Letters} {b : Backends σ} {x : NodeState} {stage tool : Text} {p : Fields}
    {w w' : σ} (h : stagedCall b u x stage w = some (w', tool, p)) : Accepted u b.registry x tool p := by
  rw [stagedCall] at h
  obtain ⟨⟨w₁, name, q⟩, -, h⟩ := Option.bind_eq_some_iff.1 h
  obtain ⟨spec, hspec, h⟩ := Option.bind_eq_some_iff.1 h
  split_ifs at h with hsafe hrepeat
  cases h
  cases hget : b.registry.get tool with
  | error e =>
    rw [hget] at hspec
    cases hspec
  | ok found =>
    rw [hget] at hspec
    cases hspec
    exact ⟨spec, hget, not_not.1 hsafe⟩

/-- An invocation asks for its tool once, with its own parameters. -/
theorem invoked_mem_added {reg : Registry σ} {tool name role : Text} {params p : Fields}
    {s : Logged σ Event} (h : .invoked name p ∈ added (invokeToolWithGuards reg tool params role) s) :
    name = strip tool ∧ p = params := by
  rcases mem_added_invoke h with h | ⟨q, h, -⟩
  · cases h
    exact ⟨rfl, rfl⟩
  · cases h

/-- Its handlers are called under the same name, with the same parameters but for a preview. -/
theorem handled_like {reg : Registry σ} {tool name role : Text} {params p : Fields}
    {s : Logged σ Event} (h : .handled name p ∈ added (invokeToolWithGuards reg tool params role) s) :
    name = strip tool ∧ Alike params p := by
  rcases mem_added_invoke h with h | ⟨q, h, halike⟩
  · cases h
  · cases h
    exact ⟨rfl, halike⟩

/-- An invocation reaches the handler exactly where the registry lets it through. -/
theorem handled_mem_added {reg : Registry σ} {tool role : Text} {params : Fields} {s : Logged σ Event} :
    (∃ q, .handled (strip tool) q ∈ added (invokeToolWithGuards reg tool params role) s) ↔
      ∃ spec, Admits reg (strip tool) params role spec := by
  obtain ⟨more, hmore, -⟩ := added_invokeRest reg (strip tool) params role
    { s with log := s.log ++ [.invoked (strip tool) params] }
  rw [added_invokeToolWithGuards, hmore]
  simp only [← admitted_iff_admits]
  cases admitted reg (strip tool) (firstParams (strip tool) params) role with
  | error e => simp
  | ok sq =>
    refine iff_of_true ⟨sq.2, ?_⟩ ⟨sq.1, sq.2, rfl⟩
    simp

/-- A property of the calls of handlers. -/
def OnHandled (P : Text → Fields → Prop) : Event → Prop
  | .invoked _ _ => True
  | .handled tool p => P tool p

/-- CALL RULE: the handlers that an invocation reaches have a property that a preview does not change exactly
    when it has it itself, if it is let through. -/
theorem onHandled_invoke_iff {P : Text → Fields → Prop} (hlike : ∀ {name p q}, Alike p q → (P name q ↔ P name p))
    {reg : Registry σ} {tool role : Text} {p : Fields} {s : Logged σ Event} :
    (∀ e ∈ added (invokeToolWithGuards reg tool p role) s, OnHandled P e) ↔
      ((∃ spec, Admits reg (strip tool) p role spec) → P (strip tool) p) := by
  constructor
  · rintro h hadmits
    obtain ⟨q, hq⟩ := handled_mem_added (s := s).2 hadmits
    exact (hlike (handled_like hq).2).1 (h _ hq)
  · rintro h (⟨name, q⟩ | ⟨name, q⟩) hmem
    · trivial
    · obtain ⟨rfl, halike⟩ := handled_like hmem
      exact (hlike halike).2 (h (handled_mem_added.1 ⟨q, hmem⟩))

theorem onHandled_directEvents {P : Text → Fields → Prop} {tool : Text} {p : Fields} :
    (∀ e ∈ directEvents (tool, p), OnHandled P e) ↔ P tool p := by
  simp [directEvents, OnHandled]

theorem stagedStep_askedSafely (u : Letters) (b : Backends σ) (x : NodeState) (tool : Text)
    (s : Logged σ Event) : AskedSafely u b.registry x (added (stagedStep b u x tool) s) := by
  rintro name p hmem
  rw [added_stagedStep] at hmem
  cases hcall : stagedCall b u x tool s.world with
  | none =>
    rw [hcall] at hmem
    cases hmem
  | some call =>
    obtain ⟨w, asked, q⟩ := call
    rw [hcall] at hmem
    obtain ⟨rfl, rfl⟩ := invoked_mem_added hmem
    exact ⟨asked, rfl, stagedCall_accepted hcall⟩

/-- ROUND: a `run_tool` reaches its handler safely exactly where what it calls is harmless. -/
theorem reachedSafely_iff {u : Letters} {b : Backends σ} {x : NodeState} {s : Logged (Exec σ) Event}
    (hturn : SameTurn x s.world.current) (raw : Planned) :
    (∀ p, raw.action = .ok ⟨.runTool, p⟩ → ReachedSafely u b.registry x (added (Exec.step b raw) s)) ↔
      RunToolHarmless u b x s raw := by
  refine forall_congr' fun p => forall_congr' fun hact => ?_
  have hadded : added (Exec.step b raw) s =
      added (executeRunTool b s.world.current p) (inner s) := by
    rw [Exec.step, hact]
    dsimp only
    rw [added_perform]
    rfl
  rw [hadded]
  cases hcall : runToolCall b s.world.current p s.world.world with
  | none =>
    rw [added_executeRunTool_none (s := inner s) hcall]
    refine iff_of_true (fun _ _ h => absurd h List.not_mem_nil) ?_
    intro w tool q heq
    simp at heq
  | some call =>
    obtain ⟨w, tool, q⟩ := call
    rw [added_executeRunTool_some (s := inner s) hcall, hturn.userRole]
    constructor
    · rintro h w' tool' q' heq spec hadmits
      cases heq
      refine (accepted_iff_harmless hadmits).1 (h _ _ ?_ (handled_mem_added.2 ⟨spec, hadmits⟩))
      rw [added_invokeToolWithGuards]
      exact List.mem_cons_self
    · rintro h name p' hinv hhandled
      obtain ⟨rfl, rfl⟩ := invoked_mem_added hinv
      obtain ⟨spec, hadmits⟩ := handled_mem_added.1 hhandled
      exact (accepted_iff_harmless hadmits).2 (h w tool p' rfl spec hadmits)

/-- Both paths keep the guard exactly when every `run_tool` that the planned path comes to is refused by
    the registry itself or harmless. -/
theorem guardedPaths_iff (u : Letters) (b : Backends σ) (o : Order) (x : NodeState) (s : Logged σ Event) :
    GuardedPaths u b o x s ↔
      Attempt.Along (Exec.step b) (RunToolHarmless u b x) (Exec.start x s) x.plannedActions := by
  have hstaged : Attempt.Along (stagedStep b u x) (fun s tool =>
      AskedSafely u b.registry x (added (stagedStep b u x tool) s)) s
        (stagedOrder o (parseToolStages o x)) :=
    Attempt.along_iff_forall.2 fun _ tool _ _ s' _ => stagedStep_askedSafely u b x tool s'
  rw [← Attempt.along_iff (fun s raw _ hturn => reachedSafely_iff hturn raw)
    (fun s raw _ s' hturn _ hstep => hturn.trans ?_) (SameTurn.refl x)]
  · exact ⟨fun h => h.planned, fun h => ⟨hstaged, h⟩⟩
  · have hkeeps := keepsTurn_step b raw s
    rwa [hstep] at hkeeps

/-! ### A delete that nobody has reviewed -/

/-- `rm_path`, as it is registered. -/
def rmPath (handler : Fields → Attempt σ Raise Output) : ToolSpec σ where
  name := "rm_path".toList
  riskLevel := "HIGH".toList
  properties := PyDict.ofList (["task_id", "path", "recursive", "dry_run", "preview_token"].map
    fun key => (key.toList, false))
  handler := handler

/-- A world whose registry has `rm_path`, with a token for its dry run. -/
def rmWorld : Backends Unit :=
  { bareWorld with
    registry := PyDict.ofList [("rm_path".toList, rmPath fun _ => pure { previewToken := "t1".toList })] }

/-- A planned `run_tool` that deletes a file of the task. -/
def rmAction : Planned where
  type := "run_tool".toList
  params := PyDict.ofList [("name".toList, .str "rm_path".toList), ("path".toList, .str "notes.md".toList)]

/-- A turn of a user whose plan deletes a file. -/
def rmTurn : NodeState where
  taskId := "t-1".toList
  plannedActions := [rmAction]

/-- A user's plan deletes a file without the review that the staged path asks for. -/
theorem rmTurn_not_guarded : ¬ GuardedPaths asciiLetters rmWorld .listed rmTurn ⟨(), []⟩ := by
  intro h
  have hround := (reachedSafely_iff (SameTurn.refl rmTurn) rmAction).1 h.planned.1
  have hadmits : Admits rmWorld.registry "rm_path".toList
      (PyDict.ofList [("path".toList, .str "notes.md".toList), ("task_id".toList, .str "t-1".toList)])
      rmTurn.userRole (rmPath fun _ => pure { previewToken := "t1".toList }) :=
    ⟨rfl, by decide, by decide⟩
  have hharmless := hround rmAction.params rfl () "rm_path".toList _ rfl _ hadmits
  exact absurd (hharmless.risk (by decide)) (by decide)

end AgentLangraph.Tool
