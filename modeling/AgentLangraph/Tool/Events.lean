import AgentLangraph.Tool.Staged

/-! What the tool node logs. An action of the planner comes to at most one call, which depends on the
    state and the world it is carried out in; the events of a round of the loop are those of its call. -/

namespace AgentLangraph.Tool
open PyText Logged
open AgentLangraph.Artifact (Raise Entry ActionType DraftTool textOr writeTool appendTool editTool readTool
  blockRepeatArtifactRead needsGeneratedContent)

variable {σ : Type} (b : Backends σ)

/-! ### The calls of actions -/

/-- The task of the state stands in for one that is missing. -/
theorem get?_withTask (taskId : Text) (p : Fields) : (withTask taskId p).get? "task_id".toList =
    (p.get? "task_id".toList).or (some (.str taskId)) := by
  rw [withTask, PyDict.has]
  split_ifs with h
  · obtain ⟨v, hv⟩ := Option.isSome_iff_exists.1 h
    rw [hv, Option.some_or]
  · rw [Option.not_isSome_iff_eq_none.1 h, Option.none_or, PyDict.put, PyDict.get?_set, if_pos rfl]

theorem get?_withTask_ne (taskId : Text) (p : Fields) {key : String} (h : key ≠ "task_id") :
    (withTask taskId p).get? key.toList = p.get? key.toList := by
  rw [withTask]
  split_ifs
  · rfl
  · exact PyDict.get?_put_ne _ h.symm _

/-- The world and the value that a program comes to, if it does not raise. -/
def reached {α : Type} (x : Attempt σ Raise α) (w : σ) : Option (σ × α) :=
  match x w with
  | (w', .ok a) => some (w', a)
  | (_, .error _) => none

@[simp] theorem reached_pure {α : Type} (a : α) (w : σ) :
    reached (pure a : Attempt σ Raise α) w = some (w, a) := rfl

@[simp] theorem reached_raise {α : Type} (e : Raise) (w : σ) :
    reached (.raise e : Attempt σ Raise α) w = none := rfl

theorem reached_bind {α β : Type} (x : Attempt σ Raise α) (f : α → Attempt σ Raise β) (w : σ) :
    reached (x >>= f) w = (reached x w).bind fun wa => reached (f wa.2) wa.1 := by
  rw [reached, reached]
  rcases hr : x w with ⟨w', r⟩
  cases r with
  | ok a =>
    rw [Attempt.bind_ok hr]
    rfl
  | error e => rw [Attempt.bind_error hr, Option.bind_none]

/-- The tool and the parameters that a `run_tool` asks the registry for, and the world it does in. -/
def runToolCall (x : NodeState) (p : Fields) (w : σ) : Option (σ × Text × Fields) :=
  if textOr p "name" = [] then none
  else reached (redirectRunTool b x (textOr p "name") (withTask x.taskId (p.pop "name"))) w

/-- What a `run_tool` is redirected to: the tool for the draft of a write, with the text that it came to,
    or its own tool as it was. -/
theorem redirected {b} {x : NodeState} {name tool : Text} {p q : Fields} {w w' : σ}
    (h : reached (redirectRunTool b x name p) w = some (w', tool, q)) :
    (((name = writeTool ∨ name = appendTool) ∧ needsGeneratedContent (givenContent p) x.goal) ∧
      ∃ (d : DraftTool) (content : Text), tool = d.name ∧ q = withContent p content) ∨
      tool = name ∧ q = p := by
  rw [redirectRunTool] at h
  split_ifs at h with hdraft
  · rw [reached_bind] at h
    obtain ⟨⟨w₁, d⟩, -, h⟩ := Option.bind_eq_some_iff.1 h
    rw [reached_bind] at h
    obtain ⟨⟨w₂, content⟩, -, h⟩ := Option.bind_eq_some_iff.1 h
    cases h
    exact .inl ⟨⟨hdraft.1, hdraft.2.2⟩, d, content, rfl, rfl⟩
  · cases h
    exact .inr ⟨rfl, rfl⟩

/-- The handler and the parameters of an artifact action. -/
def artifactCall (x : NodeState) (a : Action) (w : σ) : Option (Text × Fields) :=
  let p := withTask x.taskId a.params
  match a.type with
  | .writeArtifact =>
    (reached (resolveWriteContent b x (withState b x p)) w).map fun (w', content) =>
      ((b.draftTool w' x.taskId (textOr (withState b x p) "filename")).name,
        withContent (withState b x p) content)
  | .editArtifact =>
    if editHasTarget p then some (editTool, withState b x p)
    else (reached (resolveWriteContent b x (withState b x p)) w).map fun (_, content) =>
      (writeTool, withContent (withState b x p) content)
  | .readArtifact =>
    if (blockRepeatArtifactRead b.settings x.rows (textOr p "filename")).isNone then some (readTool, p)
    else none
  | _ => none

/-- The events of a call of a handler. -/
def directEvents (call : Text × Fields) : List Event := [.invoked call.1 call.2, .handled call.1 call.2]

/-! ### What each program adds -/

theorem grows_entryOf {x : Act σ Output} (hx : Grows x) (ok : Output → Entry) (raised : Raise → Entry) :
    Grows (entryOf x ok raised) := grows_caught (grows_bind hx fun _ => grows_pure _) raised

theorem added_entryOf {x : Act σ Output} (hx : Grows x) (ok : Output → Entry) (raised : Raise → Entry)
    (s : Logged σ Event) : added (entryOf x ok raised) s = added x s := by
  rw [entryOf, added_caught, added_bind_pure hx]

theorem grows_direct (tool : Text) (p : Fields) : Grows (direct b tool p) :=
  grows_bind (grows_note _) fun _ => grows_called _ _ _

@[simp] theorem added_direct (tool : Text) (p : Fields) (s : Logged σ Event) :
    added (direct b tool p) s = directEvents (tool, p) := by
  rw [direct, added_bind_ok (a := ()) rfl (grows_note _) (grows_called _ _ _), added_note, added_called]
  rfl

theorem grows_executeRunTool (x : NodeState) (p : Fields) : Grows (executeRunTool b x p) := by
  rw [executeRunTool]
  split_ifs
  · exact grows_pure _
  · exact grows_bind (grows_inside _) fun _ => grows_entryOf (grows_invokeToolWithGuards _ _ _ _) _ _

/-- A `run_tool` logs what its one call of the registry does. -/
theorem added_executeRunTool (x : NodeState) (p : Fields) (s : Logged σ Event) :
    added (executeRunTool b x p) s =
      match runToolCall b x p s.world with
      | some (w, tool, q) =>
        added (invokeToolWithGuards b.registry tool q x.userRole) { s with world := w }
      | none => [] := by
  rw [executeRunTool, runToolCall]
  split_ifs
  · exact added_pure _ _
  · rw [added_inside_bind, reached]
    rcases redirectRunTool b x (textOr p "name") (withTask x.taskId (p.pop "name")) s.world with ⟨w, r⟩
    cases r with
    | ok np => exact added_entryOf (grows_invokeToolWithGuards _ _ _ _) _ _ _
    | error e => rfl

theorem added_executeRunTool_none {b : Backends σ} {x : NodeState} {p : Fields} {s : Logged σ Event}
    (h : runToolCall b x p s.world = none) : added (executeRunTool b x p) s = [] := by
  rw [added_executeRunTool, h]

theorem added_executeRunTool_some {b : Backends σ} {x : NodeState} {p q : Fields} {s : Logged σ Event} {w : σ}
    {tool : Text} (h : runToolCall b x p s.world = some (w, tool, q)) :
    added (executeRunTool b x p) s =
      added (invokeToolWithGuards b.registry tool q x.userRole) { s with world := w } := by
  rw [added_executeRunTool, h]

theorem grows_executeEntry (x : NodeState) (a : Action) : Grows (executeEntry b x a) := by
  have hdirect : ∀ tool p ok raised, Grows (entryOf (direct b tool p) ok raised) :=
    fun tool p ok raised => grows_entryOf (grows_direct b tool p) ok raised
  rw [executeEntry]
  cases a.type
  case writeArtifact =>
    exact grows_bind (grows_inside _) fun _ => grows_bind (grows_inside _) fun _ => hdirect _ _ _ _
  case editArtifact =>
    dsimp only
    split_ifs
    · exact hdirect _ _ _ _
    · exact grows_bind (grows_inside _) fun _ => hdirect _ _ _ _
  case readArtifact =>
    dsimp only
    rw [executeRead]
    split
    · exact grows_pure _
    · exact hdirect _ _ _ _
  all_goals exact grows_executeRunTool b x _

/-- An artifact action logs its call, if it comes to one. -/
theorem added_executeEntry_artifact (x : NodeState) {a : Action} (s : Logged σ Event)
    (h : a.type ∈ [.writeArtifact, .editArtifact, .readArtifact]) :
    added (executeEntry b x a) s =
      match artifactCall b x a s.world with
      | some call => directEvents call
      | none => [] := by
  have hdirect : ∀ tool p ok raised t, added (entryOf (direct b tool p) ok raised) t =
      directEvents (tool, p) := fun tool p ok raised t => by
    rw [added_entryOf (grows_direct b tool p), added_direct]
  rw [executeEntry, artifactCall]
  cases hty : a.type
  case writeArtifact =>
    dsimp only
    rw [executeWrite, added_inside_bind, reached]
    rcases resolveWriteContent b x (withState b x (withTask x.taskId a.params)) s.world with ⟨w, r⟩
    cases r with
    | ok content =>
      dsimp only
      rw [added_inside_bind]
      exact hdirect _ _ _ _ _
    | error e => rfl
  case editArtifact =>
    dsimp only
    split_ifs
    · exact hdirect _ _ _ _ _
    · rw [executeImprecise, added_inside_bind, reached]
      rcases resolveWriteContent b x (withState b x (withTask x.taskId a.params)) s.world with ⟨w, r⟩
      cases r with
      | ok content => exact hdirect _ _ _ _ _
      | error e => rfl
  case readArtifact =>
    dsimp only
    rw [executeRead]
    cases blockRepeatArtifactRead b.settings x.rows (textOr (withTask x.taskId a.params) "filename") with
    | some r => exact added_pure _ _
    | none => exact hdirect _ _ _ _ _
  all_goals
    rw [hty] at h
    simp at h

/-! ### The loop -/

theorem grows_within {α : Type} {f : NodeState → Act σ α} (h : ∀ x, Grows (f x)) : Grows (within f) := by
  intro s
  have hin := h s.world.current ⟨s.world.world, s.log⟩
  rw [within]
  rcases hr : f s.world.current ⟨s.world.world, s.log⟩ with ⟨t, r⟩
  rw [hr] at hin
  exact hin

theorem added_within {α : Type} (f : NodeState → Act σ α) (s : Logged (Exec σ) Event) :
    added (within f) s = added (f s.world.current) ⟨s.world.world, s.log⟩ := by
  rw [added, added, within]

theorem grows_onLoop (f : Exec σ → Exec σ) : Grows (onLoop f) := fun _ => List.prefix_rfl

@[simp] theorem added_onLoop (f : Exec σ → Exec σ) (s : Logged (Exec σ) Event) : added (onLoop f) s = [] :=
  added_eq (List.append_nil s.log).symm

theorem grows_writeCodeFile (x : NodeState) (file : CodeTool × Fields) : Grows (writeCodeFile b x file) :=
  grows_caught (grows_bind (grows_direct b _ _) fun _ => grows_pure _) _

theorem grows_codeRound (x : NodeState) (n : ℕ) :
    Grows (inside (b.codeFiles x n) >>= .forEach (writeCodeFile b x)) :=
  grows_bind (grows_inside _) fun _ => grows_forEach fun file _ => grows_writeCodeFile b x file

theorem grows_runEngineeringBounded (x : NodeState) : Grows (runEngineeringBounded b x) :=
  grows_bind (grows_forEach fun n _ => grows_codeRound b x n) fun _ => grows_inside _

theorem grows_runCode : Grows (runCode b) :=
  grows_bind (grows_onLoop _) fun _ =>
    grows_bind (grows_within (grows_runEngineeringBounded b)) fun _ => grows_onLoop _

theorem grows_perform (a : Action) : Grows (Exec.perform b a) := by
  rw [Exec.perform]
  cases a.type
  case answer | retrieve => exact grows_pure _
  case runCode => exact grows_runCode b
  all_goals exact grows_bind (grows_within fun x => grows_executeEntry b x a) fun _ => grows_onLoop _

theorem grows_step (raw : Planned) : Grows (Exec.step b raw) := by
  rw [Exec.step]
  cases raw.action with
  | error e => exact grows_onLoop _
  | ok a => exact grows_perform b a

/-- The world and the log of the node inside the loop. -/
def inner (s : Logged (Exec σ) Event) : Logged σ Event := ⟨s.world.world, s.log⟩

/-- What follows a program of the node in a round only changes the locals. -/
theorem added_within_onLoop {α : Type} {f : NodeState → Act σ α} (hf : ∀ x, Grows (f x))
    (g : α → Exec σ → Exec σ) (s : Logged (Exec σ) Event) :
    added (within f >>= fun a => onLoop (g a)) s = added (f s.world.current) (inner s) := by
  have hwithin := added_within f s
  rcases hr : within f s with ⟨s', r⟩
  cases r with
  | ok a =>
    rw [added_bind_ok hr (grows_within hf) (grows_onLoop _), added_onLoop, List.append_nil, hwithin]
    rfl
  | error e =>
    rw [added_bind_error hr, hwithin]
    rfl

theorem added_runCode (s : Logged (Exec σ) Event) : added (runCode b) s =
    added (runEngineeringBounded b { s.world.current with toolResults := s.world.results }) (inner s) := by
  have hrest : Grows (within (runEngineeringBounded b) >>= fun results =>
      onLoop (Exec.takeBack results)) :=
    grows_bind (grows_within (grows_runEngineeringBounded b)) fun _ => grows_onLoop _
  rw [runCode, added_bind_ok (a := ()) rfl (grows_onLoop _) hrest, added_onLoop, List.nil_append,
    added_within_onLoop (grows_runEngineeringBounded b)]
  rfl

/-- An action that is carried out logs what its entry does. -/
theorem added_perform (a : Action) (s : Logged (Exec σ) Event) : added (Exec.perform b a) s =
    match a.type with
    | .answer | .retrieve => []
    | .runCode =>
      added (runEngineeringBounded b { s.world.current with toolResults := s.world.results }) (inner s)
    | _ => added (executeEntry b s.world.current a) (inner s) := by
  rw [Exec.perform]
  cases a.type
  case answer | retrieve => exact added_pure _ _
  case runCode => exact added_runCode b s
  all_goals exact added_within_onLoop (fun x => grows_executeEntry b x a) _ s

/-- A round logs what its action does; what is no action is recorded. -/
theorem added_step (raw : Planned) (s : Logged (Exec σ) Event) : added (Exec.step b raw) s =
    match raw.action with
    | .ok a => added (Exec.perform b a) s
    | .error _ => [] := by
  rw [Exec.step]
  cases raw.action with
  | error e => exact added_onLoop _ s
  | ok a => rfl

/-- CODE RULE: `run_code` logs the calls of its session files, in the directory of the state's task. -/
theorem forall_added_runEngineering {P : Event → Prop} (x : NodeState) (s : Logged σ Event)
    (h : ∀ file : CodeTool × Fields,
      ∀ e ∈ directEvents (file.1.name, file.2.put "task_id" (.str x.taskId)), P e) :
    ∀ e ∈ added (runEngineeringBounded b x) s, P e := by
  have hfile : ∀ file t, ∀ e ∈ added (writeCodeFile b x file) t, P e := by
    intro file t
    rw [writeCodeFile, added_caught, added_bind_pure (grows_direct b _ _), added_direct]
    exact h file
  have hround : ∀ n t, ∀ e ∈ added (inside (b.codeFiles x n) >>= .forEach (writeCodeFile b x)) t, P e := by
    intro n t
    refine forall_added_bind (grows_inside _) (fun _ => grows_forEach fun file _ =>
      grows_writeCodeFile b x file) ?_ fun files => forall_added_rounds (grows_writeCodeFile b x) hfile
    rw [added_inside]
    exact fun _ h => absurd h List.not_mem_nil
  refine forall_added_bind ?_ (fun _ => grows_inside _) (forall_added_rounds ?_ hround s) fun _ t => ?_
  · exact grows_forEach fun n _ => grows_codeRound b x n
  · exact grows_codeRound b x
  · rw [added_inside]
    exact fun _ h => absurd h List.not_mem_nil

/-! ### What the loop leaves as it was -/

/-- The task and the payload of a turn, but for the kind that `run_code` notes. -/
structure SameTurn (x y : NodeState) : Prop where
  taskId : y.taskId = x.taskId
  payload : ∀ key : String, key ≠ "intent_kind" → y.payload.get? key.toList = x.payload.get? key.toList

theorem SameTurn.refl (x : NodeState) : SameTurn x x := ⟨rfl, fun _ _ => rfl⟩

theorem SameTurn.trans {x y z : NodeState} (h : SameTurn x y) (h' : SameTurn y z) : SameTurn x z :=
  ⟨h'.taskId.trans h.taskId, fun key hkey => (h'.payload key hkey).trans (h.payload key hkey)⟩

theorem SameTurn.field {x y : NodeState} (h : SameTurn x y) {key : String} (hkey : key ≠ "intent_kind") :
    y.payload.field key = x.payload.field key := PyDict.field_congr (h.payload key hkey)

theorem SameTurn.userRole {x y : NodeState} (h : SameTurn x y) : y.userRole = x.userRole := by
  rw [NodeState.userRole, NodeState.userRole, h.payload "user_role" (by decide)]

theorem SameTurn.goal {x y : NodeState} (h : SameTurn x y) : y.goal = x.goal := by
  rw [NodeState.goal, NodeState.goal, h.field (by decide), h.field (by decide)]

/-- A program of the loop that keeps the turn. -/
def KeepsTurn {α : Type} (x : Act (Exec σ) α) : Prop :=
  Attempt.Moves (fun s t => SameTurn s.world.current t.world.current) x

theorem keepsTurn_onLoop {f : Exec σ → Exec σ} (h : ∀ s, SameTurn s.current (f s).current) :
    KeepsTurn (onLoop f) := fun s => h s.world

theorem keepsTurn_within {α : Type} (f : NodeState → Act σ α) : KeepsTurn (within f) := by
  intro s
  rw [within]
  exact SameTurn.refl _

theorem keepsTurn_bind {α β : Type} {x : Act (Exec σ) α} {f : α → Act (Exec σ) β} (hx : KeepsTurn x)
    (hf : ∀ a, KeepsTurn (f a)) : KeepsTurn (x >>= f) :=
  Attempt.moves_bind (fun _ _ _ h h' => h.trans h') hx hf

theorem keepsTurn_takeBack (results : List Entry) (s : Exec σ) :
    SameTurn s.current (s.takeBack results).current :=
  ⟨rfl, fun _ hkey => PyDict.get?_put_ne _ hkey.symm _⟩

theorem keepsTurn_record (e : Entry) : KeepsTurn (record (σ := σ) e) := keepsTurn_onLoop fun _ => .refl _

/-- No round changes the turn. -/
theorem keepsTurn_step (raw : Planned) : KeepsTurn (Exec.step b raw) := by
  rw [Exec.step]
  cases raw.action with
  | error e => exact keepsTurn_record _
  | ok a =>
    dsimp only
    rw [Exec.perform]
    cases a.type
    case answer | retrieve => exact fun _ => .refl _
    case runCode =>
      refine keepsTurn_bind (keepsTurn_onLoop fun _ => ⟨rfl, fun _ _ => rfl⟩) fun _ => ?_
      exact keepsTurn_bind (keepsTurn_within _) fun results =>
        keepsTurn_onLoop fun s => keepsTurn_takeBack results s
    all_goals exact keepsTurn_bind (keepsTurn_within _) fun _ => keepsTurn_record _

/-! ### The staged path -/

/-- The invocation that a staged tool comes to, past the guard, and the world it does in. -/
def stagedCall (u : Letters) (x : NodeState) (tool : Text) (w : σ) : Option (σ × Text × Fields) := do
  let (w, tool, p) ← reached (prepareStaged b x tool) w
  let spec ← (b.registry.get tool).toOption
  if checkToolParamsSafe u tool p spec x.goal x.userRole ≠ [] then none
  else if tool = readTool ∧ (blockRepeatArtifactRead b.settings x.rows (textOr p "filename")).isSome then none
  else some (w, tool, p)

theorem grows_stagedInvoke (u : Letters) (x : NodeState) (tool : Text) : Grows (stagedInvoke b u x tool) := by
  refine grows_bind (grows_inside _) fun tp => grows_bind (grows_lift _) fun spec => ?_
  have hcall : Grows (invokeToolWithGuards b.registry tp.1 tp.2 x.userRole >>= fun o => pure (Outcome.done o)) :=
    grows_bind (grows_invokeToolWithGuards _ _ _ _) fun _ => grows_pure _
  split_ifs
  · exact grows_pure _
  · split
    · exact grows_pure _
    · exact hcall
  · exact hcall

theorem grows_stagedStep (u : Letters) (x : NodeState) (tool : Text) : Grows (stagedStep b u x tool) :=
  grows_caught (grows_bind (grows_stagedInvoke b u x tool) fun _ => grows_pure _) _

/-- A staged tool logs what its one call of the registry does. -/
theorem added_stagedStep (u : Letters) (x : NodeState) (tool : Text) (s : Logged σ Event) :
    added (stagedStep b u x tool) s =
      match stagedCall b u x tool s.world with
      | some (w, tool, p) =>
        added (invokeToolWithGuards b.registry tool p x.userRole) { s with world := w }
      | none => [] := by
  rw [stagedStep, added_caught, added_bind_pure (grows_stagedInvoke b u x tool), stagedInvoke,
    added_inside_bind, stagedCall, reached]
  rcases prepareStaged b x tool s.world with ⟨w, r⟩
  cases r with
  | error e => rfl
  | ok tp =>
    obtain ⟨name, p⟩ := tp
    dsimp only [Option.bind_eq_bind, Option.bind_some]
    cases hspec : b.registry.get name with
    | error e => exact added_raise _ _
    | ok spec =>
      dsimp only [Except.toOption, Option.bind_some]
      rw [Attempt.lift_ok_bind]
      by_cases hsafe : checkToolParamsSafe u name p spec x.goal x.userRole = []
      · rw [if_neg (not_not.2 hsafe), if_neg (not_not.2 hsafe)]
        by_cases hread : name = readTool
        · rw [if_pos hread]
          cases blockRepeatArtifactRead b.settings x.rows (textOr p "filename") with
          | some r =>
            rw [if_pos ⟨hread, rfl⟩]
            exact added_pure _ _
          | none =>
            rw [if_neg (by simp)]
            exact added_bind_pure (grows_invokeToolWithGuards _ _ _ _) _ _
        · rw [if_neg hread, if_neg (by simp [hread])]
          exact added_bind_pure (grows_invokeToolWithGuards _ _ _ _) _ _
      · rw [if_pos hsafe, if_pos hsafe]
        exact added_pure _ _

/-- An edit without a target comes to a write, with the text for it, where writing is on; every other tool
    stays as it is. -/
theorem resolved {b} {x : NodeState} {tool name : Text} {p q : Fields} {w w' : σ}
    (h : reached (resolveImpreciseEditAsWrite b x tool p) w = some (w', name, q)) :
    ((tool ≠ editTool ∨ editHasTarget p ∨ ¬ x.writingEnabled) ∧ name = tool ∧ q = p) ∨
      (tool = editTool ∧ ¬ editHasTarget p ∧ x.writingEnabled) ∧ name = writeTool ∧
        ∃ content : Text, q = withContent p content := by
  rw [resolveImpreciseEditAsWrite] at h
  split_ifs at h with hkeep
  · cases h
    exact .inl ⟨hkeep, rfl, rfl⟩
  · rw [not_or, not_or, not_not, not_not] at hkeep
    rw [reached_bind] at h
    obtain ⟨⟨w₁, content⟩, -, h⟩ := Option.bind_eq_some_iff.1 h
    cases h
    exact .inr ⟨hkeep, rfl, content, rfl⟩

/-- What a staged call is made with is built for its tool, and resolved. -/
theorem prepared_of_stagedCall {b} {u : Letters} {x : NodeState} {tool name : Text}
    {p : Fields} {w w' : σ} (h : stagedCall b u x tool w = some (w', name, p)) :
    ∃ w₁ w₂ q, reached (buildToolParams b x tool) w₁ = some (w₂, q) ∧
      reached (resolveImpreciseEditAsWrite b x tool q) w₂ = some (w', name, p) := by
  rw [stagedCall] at h
  obtain ⟨⟨w₃, name', p'⟩, hprepared, h⟩ := Option.bind_eq_some_iff.1 h
  obtain ⟨spec, -, h⟩ := Option.bind_eq_some_iff.1 h
  split_ifs at h
  cases h
  rw [prepareStaged, reached_bind] at hprepared
  obtain ⟨⟨w₁, _⟩, -, hprepared⟩ := Option.bind_eq_some_iff.1 hprepared
  rw [reached_bind] at hprepared
  obtain ⟨⟨w₂, q⟩, hbuilt, hresolved⟩ := Option.bind_eq_some_iff.1 hprepared
  exact ⟨w₁, w₂, q, hbuilt, hresolved⟩

/-- The node logs what the path logs that it takes. -/
theorem added_toolExecutionNode (u : Letters) (o : Order) (x : NodeState) (s : Logged σ Event) :
    added (toolExecutionNode b u o x) s =
      if hasPlannedActions x then added (executeActions b x.plannedActions) (Exec.start x s)
      else added (executeToolStages b u o x) s := by
  rw [added, toolExecutionNode]
  split_ifs <;> rfl

end AgentLangraph.Tool
