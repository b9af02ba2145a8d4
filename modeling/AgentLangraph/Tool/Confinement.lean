import AgentLangraph.Tool.Guarded

/-! The task that a handler works for. Every place that injects the task of the state lets a `task_id` of
    the parameters win, so a handler of files stays in the directory of its task as far as the planner
    names no other one. `run_code` alone writes the task over what it is given.

        planned   withTask      params first     │  run_code   put task_id
        staged    taskParams    tool_params last │ -/

namespace AgentLangraph.Tool
open PyText Logged
open AgentLangraph.Artifact (Raise Entry ActionType DraftTool textOr writeTool appendTool editTool readTool)

variable {σ : Type}

/-- The tools that work in the directory of the task they are given. -/
def fileTools : List Text :=
  ["write_file".toList, "append_file".toList, "move_path".toList, "copy_path".toList, "ls_path".toList,
    "read_file".toList, "grep_file".toList, "replace_in_file".toList, "touch_file".toList,
    "verify_backend".toList, "mkdir_path".toList, "rm_path".toList, "write_text_artifact".toList,
    "append_text_artifact".toList, "read_text_artifact".toList, "edit_text_artifact".toList]

/-- These, with the skills that hand their parameters on to one of them. -/
def directoryTools (skills : List Text) : List Text := fileTools ++ skills.map ("skill_".toList ++ ·)

/-- The parameters name the task of the state. -/
def ForTask (x : NodeState) (p : Fields) : Prop :=
  ∃ v, p.get? "task_id".toList = some v ∧ v.toText = x.taskId

/-- A handler of files works for the task of the state. -/
def Confined (skills : List Text) (x : NodeState) : Event → Prop
  | .invoked _ _ => True
  | .handled tool p => tool ∈ directoryTools skills → ForTask x p

/-- The parameters name no task but that of the state. -/
def OwnTask (x : NodeState) (p : Fields) : Prop :=
  ∀ v, p.get? "task_id".toList = some v → v.toText = x.taskId

/-- An action comes to a handler of files. -/
def ReachesFiles (b : Backends σ) (skills : List Text) (x : NodeState) (a : Action) (w : σ) : Prop :=
  match a.type with
  | .writeArtifact | .editArtifact | .readArtifact => (artifactCall b x a w).isSome
  | .runTool => ∃ w' tool q spec, runToolCall b x a.params w = some (w', tool, q) ∧
      strip tool ∈ directoryTools skills ∧ Admits b.registry (strip tool) q x.userRole spec
  | _ => False

def OwnAction (b : Backends σ) (skills : List Text) (x : NodeState) (s : Logged (Exec σ) Event)
    (raw : Planned) : Prop :=
  ∀ a, raw.action = .ok a → ReachesFiles b skills s.world.current a s.world.world → OwnTask x a.params

def OwnTool (u : Letters) (b : Backends σ) (skills : List Text) (x : NodeState) (s : Logged σ Event)
    (tool : Text) : Prop :=
  ∀ w name p, stagedCall b u x tool s.world = some (w, name, p) → strip name ∈ directoryTools skills →
    (∃ spec, Admits b.registry (strip name) p x.userRole spec) → OwnTask x (toolCfg x tool)

/-- Of the path that the node takes, no round that comes to a handler of files names another task. -/
def OwnTasks (u : Letters) (b : Backends σ) (o : Order) (skills : List Text) (x : NodeState)
    (s : Logged σ Event) : Prop :=
  if hasPlannedActions x then
    Attempt.Along (Exec.step b) (OwnAction b skills x) (Exec.start x s) x.plannedActions
  else Attempt.Along (stagedStep b u x) (OwnTool u b skills x) s (stagedOrder o (parseToolStages o x))

/-! ### Where a task comes from -/

/-- The task of the state stands in where the parameters name none. -/
theorem forTask_iff_ownTask {x : NodeState} {p q : Fields}
    (h : q.get? "task_id".toList = (p.get? "task_id".toList).or (some (.str x.taskId))) :
    ForTask x q ↔ OwnTask x p := by
  rw [ForTask, OwnTask, h]
  cases p.get? "task_id".toList with
  | none => exact iff_of_true ⟨_, rfl, rfl⟩ fun _ h => nomatch h
  | some v => simp

theorem get?_withContent (p : Fields) {key : String} (hkey : key ≠ "content") (content : Text) :
    (withContent p content).get? key.toList = p.get? key.toList := PyDict.get?_put_ne _ hkey.symm _

theorem get?_withState (b : Backends σ) (x : NodeState) (p : Fields) :
    (withState b x p).get? "task_id".toList = p.get? "task_id".toList :=
  PyDict.get?_put_ne _ (by decide) _

/-- A draft for a `run_tool` changes its content alone. -/
theorem get?_redirectRunTool {b : Backends σ} {x : NodeState} {name tool : Text} {p q : Fields} {w w' : σ}
    {key : String} (hkey : key ≠ "content")
    (h : reached (redirectRunTool b x name p) w = some (w', tool, q)) :
    q.get? key.toList = p.get? key.toList := by
  obtain ⟨-, d, content, -, rfl⟩ | ⟨-, rfl⟩ := redirected h
  · exact get?_withContent p hkey content
  · rfl

theorem get?_runToolCall {b : Backends σ} {x : NodeState} {tool : Text} {p q : Fields} {w w' : σ}
    (h : runToolCall b x p w = some (w', tool, q)) : q.get? "task_id".toList =
      (p.get? "task_id".toList).or (some (.str x.taskId)) := by
  rw [runToolCall] at h
  split_ifs at h
  rw [get?_redirectRunTool (by decide) h, get?_withTask, PyDict.get?_pop_ne _ (by decide)]

theorem get?_artifactCall {b : Backends σ} {x : NodeState} {a : Action} {w : σ} {call : Text × Fields}
    (h : artifactCall b x a w = some call) : call.2.get? "task_id".toList =
      (a.params.get? "task_id".toList).or (some (.str x.taskId)) := by
  rw [artifactCall] at h
  cases hty : a.type with
  | writeArtifact =>
    rw [hty] at h
    obtain ⟨content, -, rfl⟩ := Option.map_eq_some_iff.1 h
    rw [get?_withContent _ (by decide), get?_withState, get?_withTask]
  | editArtifact =>
    rw [hty] at h
    dsimp only at h
    split_ifs at h
    · cases h
      rw [get?_withState, get?_withTask]
    · obtain ⟨content, -, rfl⟩ := Option.map_eq_some_iff.1 h
      rw [get?_withContent _ (by decide), get?_withState, get?_withTask]
  | readArtifact =>
    rw [hty] at h
    dsimp only at h
    split_ifs at h
    cases h
    exact get?_withTask _ _
  | runTool | runCode | answer | retrieve =>
    rw [hty] at h
    cases h

/-- The tools of the staged path whose parameters are written without the task. -/
def messageTools : List Text := ["echo".toList, "summarize_text".toList, "calculator".toList]

theorem get?_pops {cfg : Fields} : ∀ {keys : List String}, "task_id" ∉ keys →
    (keys.foldl PyDict.pop cfg).get? "task_id".toList = cfg.get? "task_id".toList := by
  intro keys
  induction keys generalizing cfg with
  | nil => exact fun _ => rfl
  | cons key keys ih =>
    intro h
    rw [List.mem_cons, not_or] at h
    rw [List.foldl_cons, ih h.2, PyDict.get?_pop_ne _ (Ne.symm h.1)]

theorem get?_editParams (x : NodeState) (filename : Text) (cfg : Fields) :
    (editParams x filename cfg).get? "task_id".toList =
      (cfg.get? "task_id".toList).or (some (.str x.taskId)) := by
  rw [editParams, PyDict.get?_update, get?_pops (by decide)]
  rfl

theorem get?_artifactHead (b : Backends σ) (x : NodeState) (filename : Text) (cfg : Fields) :
    (artifactHead b x filename cfg).get? "task_id".toList =
      (cfg.get? "task_id".toList).or (some (.str x.taskId)) := by
  rw [artifactHead]
  split_ifs
  · rw [PyDict.get?_update]
    rfl
  · rw [PyDict.get?_put_ne _ (by decide), PyDict.get?_update]
    rfl

theorem get?_artifactParams {b : Backends σ} {x : NodeState} {tool : Text} {cfg p : Fields} {w w' : σ}
    (h : reached (artifactParams b x tool cfg) w = some (w', p)) : p.get? "task_id".toList =
      (cfg.get? "task_id".toList).or (some (.str x.taskId)) := by
  rw [artifactParams, reached_bind] at h
  obtain ⟨⟨w₁, filename⟩, -, h⟩ := Option.bind_eq_some_iff.1 h
  split_ifs at h
  · cases h
    exact get?_artifactHead b x filename cfg
  · rw [reached_bind] at h
    obtain ⟨⟨w₂, content⟩, -, h⟩ := Option.bind_eq_some_iff.1 h
    cases h
    rw [get?_withContent _ (by decide), get?_artifactHead]

theorem get?_buildToolParams {b : Backends σ} {x : NodeState} {tool : Text} {p : Fields} {w w' : σ}
    (h : reached (buildToolParams b x tool) w = some (w', p)) (hmessage : tool ∉ messageTools) :
    p.get? "task_id".toList = ((toolCfg x tool).get? "task_id".toList).or (some (.str x.taskId)) := by
  simp only [messageTools, List.mem_cons, List.not_mem_nil, or_false, not_or] at hmessage
  obtain ⟨hecho, hsummarize, hcalculator⟩ := hmessage
  rw [buildToolParams] at h
  dsimp only at h
  rw [if_neg hecho, if_neg hsummarize, if_neg hcalculator] at h
  split_ifs at h
  · rw [reached_bind] at h
    obtain ⟨⟨w₁, filename⟩, -, h⟩ := Option.bind_eq_some_iff.1 h
    cases h
    exact get?_editParams x filename _
  · exact get?_artifactParams h
  · cases h
    rw [PyDict.get?_update]
    rfl
  · cases h
    rw [taskParams, PyDict.get?_update]
    rfl

theorem get?_resolveImprecise {b : Backends σ} {x : NodeState} {tool name : Text} {p q : Fields} {w w' : σ}
    {key : String} (hkey : key ≠ "content")
    (h : reached (resolveImpreciseEditAsWrite b x tool p) w = some (w', name, q)) :
    q.get? key.toList = p.get? key.toList ∧ (name = tool ∨ tool = editTool ∧ name = writeTool) := by
  obtain ⟨-, rfl, rfl⟩ | ⟨hedit, rfl, content, rfl⟩ := resolved h
  · exact ⟨rfl, .inl rfl⟩
  · exact ⟨get?_withContent p hkey content, .inr ⟨hedit.1, rfl⟩⟩

/-- What a staged call is made with are the parameters that were built, but for the content of an edit. -/
theorem built_of_stagedCall {u : Letters} {b : Backends σ} {x : NodeState} {tool name : Text} {p : Fields}
    {w w' : σ} (h : stagedCall b u x tool w = some (w', name, p)) :
    ∃ w₁ w₂ q, reached (buildToolParams b x tool) w₁ = some (w₂, q) ∧
      (∀ key : String, key ≠ "content" → p.get? key.toList = q.get? key.toList) ∧
        (name = tool ∨ tool = editTool ∧ name = writeTool) := by
  obtain ⟨w₁, w₂, q, hbuilt, hresolved⟩ := prepared_of_stagedCall h
  exact ⟨w₁, w₂, q, hbuilt, fun key hkey => (get?_resolveImprecise hkey hresolved).1,
    (get?_resolveImprecise (show "task_id" ≠ "content" by decide) hresolved).2⟩

theorem get?_stagedCall {u : Letters} {b : Backends σ} {x : NodeState} {tool name : Text} {p : Fields}
    {w w' : σ} (h : stagedCall b u x tool w = some (w', name, p)) (hname : name ∉ messageTools) :
    p.get? "task_id".toList = ((toolCfg x tool).get? "task_id".toList).or (some (.str x.taskId)) := by
  obtain ⟨w₁, w₂, q, hbuilt, hsame, hkind⟩ := built_of_stagedCall h
  rw [hsame "task_id" (by decide), get?_buildToolParams hbuilt ?_]
  rcases hkind with rfl | ⟨rfl, -⟩
  · exact hname
  · decide

/-! ### The handlers of a round -/

/-- A handler of files, in terms of the rule for calls. -/
theorem confined_iff_onHandled {skills : List Text} {x : NodeState} {e : Event} : Confined skills x e ↔
    OnHandled (fun tool p => tool ∈ directoryTools skills → ForTask x p) e := by
  cases e <;> exact Iff.rfl

/-- The handlers that an invocation reaches have its task. -/
theorem confined_invoke_iff {skills : List Text} {reg : Registry σ} {x : NodeState} {tool role : Text}
    {p : Fields} {s : Logged σ Event} :
    (∀ e ∈ added (invokeToolWithGuards reg tool p role) s, Confined skills x e) ↔
      (strip tool ∈ directoryTools skills → (∃ spec, Admits reg (strip tool) p role spec) → ForTask x p) := by
  simp only [confined_iff_onHandled]
  rw [onHandled_invoke_iff, forall_comm]
  intro name p q halike
  rw [ForTask, halike "task_id" (by decide), ForTask]

theorem confined_directEvents {skills : List Text} {x : NodeState} {tool : Text} {p : Fields} :
    (∀ e ∈ directEvents (tool, p), Confined skills x e) ↔ (tool ∈ directoryTools skills → ForTask x p) := by
  simp only [confined_iff_onHandled]
  exact onHandled_directEvents

theorem mem_directoryTools_of_artifactCall {b : Backends σ} {x : NodeState} {a : Action} {w : σ}
    {call : Text × Fields} (skills : List Text) (h : artifactCall b x a w = some call) :
    call.1 ∈ directoryTools skills := by
  have hmem : ∀ {tool}, tool ∈ fileTools → tool ∈ directoryTools skills := List.mem_append_left _
  have hdraft : ∀ d : DraftTool, d.name ∈ fileTools := by
    rintro (_ | _) <;> decide
  rw [artifactCall] at h
  cases hty : a.type with
  | writeArtifact =>
    rw [hty] at h
    obtain ⟨content, -, rfl⟩ := Option.map_eq_some_iff.1 h
    exact hmem (hdraft _)
  | editArtifact =>
    rw [hty] at h
    dsimp only at h
    split_ifs at h
    · cases h
      exact hmem (show editTool ∈ fileTools by decide)
    · obtain ⟨content, -, rfl⟩ := Option.map_eq_some_iff.1 h
      exact hmem (show writeTool ∈ fileTools by decide)
  | readArtifact =>
    rw [hty] at h
    dsimp only at h
    split_ifs at h
    cases h
    exact hmem (show readTool ∈ fileTools by decide)
  | runTool | runCode | answer | retrieve =>
    rw [hty] at h
    cases h

/-- A tool that does not work in a directory has its parameters written without the task. -/
theorem not_mem_messageTools {skills : List Text} {name : Text} (h : strip name ∈ directoryTools skills) :
    name ∉ messageTools := by
  intro hmessage
  have hstrip : strip name = name := by
    revert hmessage
    simp only [messageTools, List.mem_cons, List.not_mem_nil, or_false]
    rintro (rfl | rfl | rfl) <;> decide
  rw [hstrip, directoryTools, List.mem_append, List.mem_map] at h
  rcases h with h | ⟨skill, -, rfl⟩
  · revert hmessage h
    simp only [messageTools, List.mem_cons, List.not_mem_nil, or_false]
    rintro (rfl | rfl | rfl) <;> decide
  · simp [messageTools] at hmessage

/-- The session files of `run_code` are those of the state's task. -/
theorem confined_runEngineering (b : Backends σ) (skills : List Text) (x : NodeState) (s : Logged σ Event) :
    ∀ e ∈ added (runEngineeringBounded b x) s, Confined skills x e :=
  forall_added_runEngineering b x s fun _ =>
    confined_directEvents.2 fun _ => ⟨_, PyDict.get?_set_self _ _ _, rfl⟩

/-! ### The node -/

/-- An artifact action keeps to its task exactly when it names no other one, if it comes to a call. -/
theorem confined_artifact_iff {b : Backends σ} {skills : List Text} {x y : NodeState} {a : Action}
    {s : Logged σ Event} (hturn : y.taskId = x.taskId)
    (hty : a.type ∈ [.writeArtifact, .editArtifact, .readArtifact]) :
    (∀ e ∈ added (executeEntry b y a) s, Confined skills x e) ↔
      ((artifactCall b y a s.world).isSome → OwnTask x a.params) := by
  rw [added_executeEntry_artifact b y s hty]
  cases hcall : artifactCall b y a s.world with
  | none => simp
  | some call =>
    have hget := get?_artifactCall hcall
    rw [hturn] at hget
    have hmem := mem_directoryTools_of_artifactCall skills hcall
    exact confined_directEvents.trans ⟨fun h _ => (forTask_iff_ownTask hget).1 (h hmem),
      fun h _ => (forTask_iff_ownTask hget).2 (h rfl)⟩

/-- A `run_tool` keeps to its task exactly when it names no other one, if it comes to files. -/
theorem confined_runTool_iff {b : Backends σ} {skills : List Text} {x y : NodeState} {p : Fields}
    {s : Logged σ Event} (hturn : y.taskId = x.taskId) :
    (∀ e ∈ added (executeRunTool b y p) s, Confined skills x e) ↔
      ((∃ w' tool q spec, runToolCall b y p s.world = some (w', tool, q) ∧
        strip tool ∈ directoryTools skills ∧ Admits b.registry (strip tool) q y.userRole spec) →
          OwnTask x p) := by
  rw [added_executeRunTool]
  cases hcall : runToolCall b y p s.world with
  | none => simp
  | some call =>
    obtain ⟨w, tool, q⟩ := call
    have hget := get?_runToolCall hcall
    rw [hturn] at hget
    dsimp only
    rw [confined_invoke_iff]
    constructor
    · rintro h ⟨w', tool', q', spec, heq, htool, hadmits⟩
      cases heq
      exact (forTask_iff_ownTask hget).1 (h htool ⟨spec, hadmits⟩)
    · rintro h htool ⟨spec, hadmits⟩
      exact (forTask_iff_ownTask hget).2 (h ⟨w, tool, q, spec, rfl, htool, hadmits⟩)

/-- ROUND: an action keeps to its task exactly when it names no other one where it comes to files. -/
theorem confined_step_iff {b : Backends σ} {skills : List Text} {x : NodeState} {s : Logged (Exec σ) Event}
    (hturn : SameTurn x s.world.current) (raw : Planned) :
    (∀ e ∈ added (Exec.step b raw) s, Confined skills x e) ↔ OwnAction b skills x s raw := by
  rw [added_step, OwnAction]
  cases hact : raw.action with
  | error e => exact iff_of_true (fun _ h => absurd h List.not_mem_nil) fun _ h => nomatch h
  | ok a =>
    have hone : (∀ a', Except.ok (ε := Raise) a = .ok a' → ReachesFiles b skills s.world.current a' s.world.world →
        OwnTask x a'.params) ↔ (ReachesFiles b skills s.world.current a s.world.world → OwnTask x a.params) :=
      ⟨fun h => h a rfl, fun h _ heq => by cases heq; exact h⟩
    rw [hone]
    dsimp only
    rw [added_perform, ReachesFiles]
    cases hty : a.type with
    | answer | retrieve => exact iff_of_true (fun _ h => absurd h List.not_mem_nil) fun h => h.elim
    | runCode =>
      refine iff_of_true (fun e he => ?_) fun h => h.elim
      have hcode := confined_runEngineering b skills _ _ e he
      revert hcode
      cases e with
      | invoked tool p => exact id
      | handled tool p => exact fun h htool => (h htool).imp fun v hv => ⟨hv.1, hv.2.trans hturn.taskId⟩
    | runTool =>
      dsimp only
      have hentry : executeEntry b s.world.current a = executeRunTool b s.world.current a.params := by
        rw [executeEntry, hty]
      rw [hentry]
      exact confined_runTool_iff (s := inner s) hturn.taskId
    | writeArtifact | editArtifact | readArtifact =>
      exact confined_artifact_iff (s := inner s) hturn.taskId (by rw [hty]; decide)

/-- ROUND: a staged tool keeps to its task exactly when its parameters name no other one. -/
theorem confined_stagedStep_iff {u : Letters} {b : Backends σ} {skills : List Text} {x : NodeState}
    {s : Logged σ Event} (tool : Text) :
    (∀ e ∈ added (stagedStep b u x tool) s, Confined skills x e) ↔ OwnTool u b skills x s tool := by
  rw [added_stagedStep, OwnTool]
  cases hcall : stagedCall b u x tool s.world with
  | none => exact iff_of_true (fun _ h => absurd h List.not_mem_nil) fun _ _ _ h => nomatch h
  | some call =>
    obtain ⟨w, name, p⟩ := call
    have htask : strip name ∈ directoryTools skills → (ForTask x p ↔ OwnTask x (toolCfg x tool)) :=
      fun htool => forTask_iff_ownTask (get?_stagedCall hcall (not_mem_messageTools htool))
    dsimp only
    rw [confined_invoke_iff]
    constructor
    · rintro h w' name' p' heq htool hadmits
      cases heq
      exact (htask htool).1 (h htool hadmits)
    · rintro h htool hadmits
      exact (htask htool).2 (h w name p rfl htool hadmits)

/-- Every handler of files works for the task of the state exactly when, on the path that the node takes,
    no round that comes to one names another task. -/
theorem confined_iff (u : Letters) (b : Backends σ) (o : Order) (skills : List Text) (x : NodeState)
    (s : Logged σ Event) : (∀ e ∈ added (toolExecutionNode b u o x) s, Confined skills x e) ↔
      OwnTasks u b o skills x s := by
  rw [added_toolExecutionNode, OwnTasks]
  split_ifs
  · rw [executeActions, forall_added_forEach (grows_step b)]
    refine Attempt.along_iff (fun s raw _ hturn => confined_step_iff hturn raw)
      (fun s raw _ s' hturn _ hstep => hturn.trans ?_) (SameTurn.refl x)
    have hkeeps := keepsTurn_step b raw s
    rwa [hstep] at hkeeps
  · rw [executeToolStages, forall_added_forEach (grows_stagedStep b u x)]
    exact Attempt.along_iff (I := fun _ => True) (fun s tool _ _ => confined_stagedStep_iff tool)
      (fun _ _ _ _ _ _ _ => trivial) trivial

/-- A turn whose plan reads a file of another task. -/
def straying : NodeState where
  taskId := "t-1".toList
  plannedActions := [{ type := "read_artifact".toList,
                       params := PyDict.ofList [("task_id".toList, .str "t-2".toList),
                         ("filename".toList, .str "notes.md".toList)] }]

/-- A planned action reads in the directory of a task that its own parameters name. -/
theorem straying_not_confined : ¬ ∀ e ∈ added (toolExecutionNode bareWorld asciiLetters .listed
    straying) ⟨(), []⟩, Confined [] straying e := by
  intro h
  have hadded : added (toolExecutionNode bareWorld asciiLetters .listed straying) ⟨(), []⟩ =
      directEvents (readTool, PyDict.ofList [("task_id".toList, .str "t-2".toList),
        ("filename".toList, .str "notes.md".toList)]) := rfl
  rw [hadded, confined_directEvents] at h
  obtain ⟨v, hv, htext⟩ := h (by decide)
  cases hv
  exact absurd htext (by decide)

end AgentLangraph.Tool
