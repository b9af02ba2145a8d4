import AgentLangraph.Plan.Transport

/-! Whether one pass of the tool node executes what a plan selects. The planned path carries out the actions
    alone, so a tool that the planner only selects is lost there as soon as some action is executable; the
    staged path invokes what its stages come to. -/

namespace AgentLangraph.Plan
open PyText Logged AgentLangraph.Tool
open AgentLangraph.Artifact (Raise ActionType actionTypes DraftTool textOr writeTool appendTool editTool
  readTool needsGeneratedContent)

variable {σ : Type}

/-- The parameters that an action gives arrive, and nothing is added but the task, and the text of a write
    that needs one. -/
structure OwnParams (goal : Text) (p q : Fields) : Prop where
  given : ∀ key : String, key ∉ ["name", "content"] → p.has key → q.get? key.toList = p.get? key.toList
  content : ¬ needsGeneratedContent (givenContent p) goal → p.has "content" →
    q.get? "content".toList = p.get? "content".toList
  added : ∀ key : String, q.has key → p.has key ∨ key ∈ ["task_id", "content"]

/-- The tool that a `run_tool` is invoked under: its own, or the one for the draft of a write. -/
def OwnName (p : Fields) (tool : Text) : Prop :=
  tool = strip (textOr p "name") ∨
    textOr p "name" ∈ [writeTool, appendTool] ∧ tool ∈ [writeTool, appendTool]

/-- One pass of the node executes a plan: every selected tool is invoked, and every `run_tool` is come to
    and invoked with its own parameters. -/
structure Executed (u : Letters) (b : Backends σ) (o : Order) (x : NodeState) (s : Logged σ Event) :
    Prop where
  selected : ∀ t ∈ x.selectedTools, ∃ e ∈ added (toolExecutionNode b u o x) s, ∃ p, e = .invoked t p
  own : ∀ pre raw post p, x.plannedActions = pre ++ raw :: post → raw.action = .ok ⟨.runTool, p⟩ →
    ∃ s', executeActions b pre (Exec.start x s) = (s', .ok ()) ∧ ∃ tool q,
      .invoked tool q ∈ added (Exec.step b raw) s' ∧ OwnName p tool ∧ OwnParams s'.world.current.goal p q

/-- The tool that an action is carried out with. -/
def CarriedOutWith (b : Backends σ) (t : Text) (s : Logged (Exec σ) Event) (raw : Planned) : Prop :=
  ∃ a, raw.action = .ok a ∧
    match a.type with
    | .runTool => ∃ w tool q, runToolCall b s.world.current a.params s.world.world = some (w, tool, q) ∧
        strip tool = t
    | .runCode => ∃ e ∈ added (runEngineeringBounded b
        { s.world.current with toolResults := s.world.results }) (inner s), ∃ p, e = .invoked t p
    | .answer | .retrieve => False
    | _ => ∃ p, artifactCall b s.world.current a s.world.world = some (t, p)

/-- The tool that a staged tool is invoked as. -/
def InvokedAs (u : Letters) (b : Backends σ) (x : NodeState) (t : Text) (s : Logged σ Event)
    (tool : Text) : Prop :=
  ∃ w name p, stagedCall b u x tool s.world = some (w, name, p) ∧ strip name = t

/-- Every selected tool is the one that an action, or a tool of the stages, is carried out with; and no
    `run_tool` is kept from its call. -/
def CarriedOut (u : Letters) (b : Backends σ) (o : Order) (x : NodeState) (s : Logged σ Event) : Prop :=
  if hasPlannedActions x then
    (∀ t ∈ x.selectedTools,
      Attempt.Sometime (Exec.step b) (CarriedOutWith b t) (Exec.start x s) x.plannedActions) ∧
    ∀ pre raw post p, x.plannedActions = pre ++ raw :: post → raw.action = .ok ⟨.runTool, p⟩ →
      ∃ s', executeActions b pre (Exec.start x s) = (s', .ok ()) ∧
        (runToolCall b s'.world.current p s'.world.world).isSome
  else ∀ t ∈ x.selectedTools, Attempt.Sometime (stagedStep b u x) (InvokedAs u b x t) s
    (stagedOrder o (parseToolStages o x))

/-! ### The rounds -/

theorem invoked_mem_invoke_iff {reg : Registry σ} {tool t role : Text} {q : Fields} {s : Logged σ Event} :
    (∃ e ∈ added (invokeToolWithGuards reg tool q role) s, ∃ p, e = .invoked t p) ↔ strip tool = t := by
  constructor
  · rintro ⟨_, he, p, rfl⟩
    rcases mem_added_invoke he with h | ⟨q', h, -⟩
    · cases h
      rfl
    · cases h
  · rintro rfl
    refine ⟨_, ?_, q, rfl⟩
    rw [added_invokeToolWithGuards]
    exact List.mem_cons_self

theorem invoked_mem_directEvents_iff {call : Text × Fields} {t : Text} :
    (∃ e ∈ directEvents call, ∃ p, e = .invoked t p) ↔ call.1 = t := by
  simp [directEvents, eq_comm]

theorem invoked_mem_runTool_iff {b : Backends σ} {x : NodeState} {p : Fields} {t : Text} {s : Logged σ Event} :
    (∃ e ∈ added (executeRunTool b x p) s, ∃ q, e = .invoked t q) ↔
      ∃ w tool q, runToolCall b x p s.world = some (w, tool, q) ∧ strip tool = t := by
  rw [added_executeRunTool]
  cases runToolCall b x p s.world with
  | none => simp
  | some call =>
    obtain ⟨w, tool, q⟩ := call
    dsimp only
    rw [invoked_mem_invoke_iff]
    simp

theorem invoked_mem_artifact_iff {b : Backends σ} {x : NodeState} {a : Action} {t : Text} {s : Logged σ Event}
    (hty : a.type ∈ [.writeArtifact, .editArtifact, .readArtifact]) :
    (∃ e ∈ added (executeEntry b x a) s, ∃ q, e = .invoked t q) ↔
      ∃ p, artifactCall b x a s.world = some (t, p) := by
  rw [added_executeEntry_artifact b x s hty]
  cases artifactCall b x a s.world with
  | none => simp
  | some call =>
    obtain ⟨tool, q⟩ := call
    dsimp only
    rw [invoked_mem_directEvents_iff]
    simp

/-- ROUND: a tool is invoked exactly when the action is carried out with it. -/
theorem invoked_mem_step_iff {b : Backends σ} {t : Text} {s : Logged (Exec σ) Event} (raw : Planned) :
    (∃ e ∈ added (Exec.step b raw) s, ∃ p, e = .invoked t p) ↔ CarriedOutWith b t s raw := by
  rw [added_step, CarriedOutWith]
  cases hact : raw.action with
  | error e => simp
  | ok a =>
    simp only [Except.ok.injEq, exists_eq_left']
    rw [added_perform]
    cases hty : a.type with
    | answer | retrieve => simp
    | runCode => exact Iff.rfl
    | runTool =>
      have hentry : executeEntry b s.world.current a = executeRunTool b s.world.current a.params := by
        rw [executeEntry, hty]
      dsimp only
      rw [hentry]
      exact invoked_mem_runTool_iff (s := inner s)
    | writeArtifact | editArtifact | readArtifact =>
      exact invoked_mem_artifact_iff (s := inner s) (by rw [hty]; decide)

theorem invoked_mem_stagedStep_iff {u : Letters} {b : Backends σ} {x : NodeState} {t : Text}
    {s : Logged σ Event} (tool : Text) :
    (∃ e ∈ added (stagedStep b u x tool) s, ∃ p, e = .invoked t p) ↔ InvokedAs u b x t s tool := by
  rw [added_stagedStep, InvokedAs]
  cases stagedCall b u x tool s.world with
  | none => simp
  | some call =>
    obtain ⟨w, name, p⟩ := call
    dsimp only
    rw [invoked_mem_invoke_iff]
    simp

/-! ### The parameters of a `run_tool` -/

theorem givenContent_withTask (taskId : Text) (p : Fields) :
    givenContent (withTask taskId (p.pop "name")) = givenContent p := by
  have hcontent : (withTask taskId (p.pop "name")).field "content" = p.field "content" :=
    PyDict.field_congr ((get?_withTask_ne _ _ (by decide)).trans (PyDict.get?_pop_ne _ (by decide)))
  rw [givenContent, givenContent, hcontent]

/-- What is not drafted arrives as it was given, with the task as a default. -/
theorem ownParams_withTask (goal taskId : Text) (p : Fields) :
    OwnParams goal p (withTask taskId (p.pop "name")) where
  given key hkey hp := by
    simp only [List.mem_cons, List.not_mem_nil, or_false, not_or] at hkey
    by_cases htask : key = "task_id"
    · subst htask
      obtain ⟨v, hv⟩ := Option.isSome_iff_exists.1 hp
      rw [get?_withTask, PyDict.get?_pop_ne _ (by decide), hv, Option.some_or]
    · rw [get?_withTask_ne _ _ htask, PyDict.get?_pop_ne _ (Ne.symm hkey.1)]
  content _ _ := by rw [get?_withTask_ne _ _ (by decide), PyDict.get?_pop_ne _ (by decide)]
  added key hq := by
    by_cases htask : key = "task_id"
    · subst htask
      exact .inr (by decide)
    · rw [PyDict.has, get?_withTask_ne _ _ htask] at hq
      by_cases hname : key = "name"
      · subst hname
        rw [PyDict.pop, PyDict.get?_erase_self] at hq
        cases hq
      · rw [PyDict.get?_pop_ne _ (Ne.symm hname)] at hq
        exact .inl hq

/-- A drafted text takes the place of one that was missing. -/
theorem ownParams_content {goal : Text} {p q : Fields} (h : OwnParams goal p q)
    (hdraft : needsGeneratedContent (givenContent p) goal) (content : Text) :
    OwnParams goal p (withContent q content) where
  given key hkey hp := by
    have hne : "content" ≠ key := by
      rintro rfl
      exact hkey (by decide)
    rw [withContent, PyDict.get?_put_ne _ hne, h.given key hkey hp]
  content hkeep := absurd hdraft hkeep
  added key hq := by
    by_cases hcontent : key = "content"
    · subst hcontent
      exact .inr (by decide)
    · rw [PyDict.has, withContent, PyDict.get?_put_ne _ (Ne.symm hcontent)] at hq
      exact h.added key hq

theorem own_of_runToolCall {b : Backends σ} {x : NodeState} {p q : Fields} {tool : Text} {w w' : σ}
    (h : runToolCall b x p w = some (w', tool, q)) : OwnName p (strip tool) ∧ OwnParams x.goal p q := by
  have hown := ownParams_withTask x.goal x.taskId p
  rw [runToolCall] at h
  split_ifs at h
  obtain ⟨⟨hname, hneeds⟩, d, content, rfl, rfl⟩ | ⟨rfl, rfl⟩ := redirected h
  · rw [givenContent_withTask] at hneeds
    refine ⟨.inr ⟨by simpa using hname, ?_⟩, ownParams_content hown hneeds content⟩
    cases d <;> decide
  · exact ⟨.inl rfl, hown⟩

/-! ### The pass -/

/-- A plan with a `run_tool` takes the planned path. -/
theorem hasPlannedActions_of_runTool {x : NodeState} {raw : Planned} {p : Fields}
    (hmem : raw ∈ x.plannedActions) (hact : raw.action = .ok ⟨.runTool, p⟩) : hasPlannedActions x := by
  refine List.any_eq_true.2 ⟨raw, hmem, ?_⟩
  rw [Planned.action] at hact
  cases hdict : raw.isDict with
  | false =>
    rw [hdict] at hact
    cases hact
  | true =>
    rw [hdict] at hact
    simp only [if_true] at hact
    cases hbad : raw.malformed with
    | some e =>
      rw [hbad] at hact
      cases hact
    | none =>
      rw [hbad] at hact
      dsimp only at hact
      cases hfound : actionTypes.find? fun ty => ty.name = strip raw.type with
      | none =>
        rw [hfound] at hact
        cases hact
      | some ty =>
        rw [hfound] at hact
        cases hact
        have hfits := List.find?_some hfound
        have hname : ActionType.runTool.name = strip raw.type := of_decide_eq_true hfits
        have hdeferred : raw.type ∉ ["answer".toList, "retrieve".toList] := by
          intro hin
          simp only [List.mem_cons, List.not_mem_nil, or_false] at hin
          rcases hin with htype | htype <;> rw [htype] at hname <;> exact absurd hname (by decide)
        exact decide_eq_true hdeferred

/-- ROUND: a `run_tool` is invoked with its own parameters exactly when it comes to its call. -/
theorem own_step_iff {b : Backends σ} {s : Logged (Exec σ) Event} {raw : Planned} {p : Fields}
    (hact : raw.action = .ok ⟨.runTool, p⟩) :
    (∃ tool q, .invoked tool q ∈ added (Exec.step b raw) s ∧ OwnName p tool ∧
      OwnParams s.world.current.goal p q) ↔ (runToolCall b s.world.current p s.world.world).isSome := by
  have hadded : added (Exec.step b raw) s = added (executeRunTool b s.world.current p) (inner s) := by
    rw [added_step, hact]
    dsimp only
    rw [added_perform]
    rfl
  rw [hadded]
  constructor
  · rintro ⟨tool, q, hmem, -⟩
    obtain ⟨w, name, q', hcall, -⟩ := invoked_mem_runTool_iff.1 ⟨_, hmem, q, rfl⟩
    change runToolCall b s.world.current p s.world.world = _ at hcall
    rw [hcall]
    rfl
  · intro hsome
    obtain ⟨⟨w, tool, q⟩, hcall⟩ := Option.isSome_iff_exists.1 hsome
    have hown := own_of_runToolCall hcall
    refine ⟨strip tool, q, ?_, hown⟩
    rw [added_executeRunTool_some (s := inner s) hcall, added_invokeToolWithGuards]
    exact List.mem_cons_self

/-- One pass executes a plan exactly when every selected tool is one that an action, or a tool of the
    stages, is carried out with, and no `run_tool` is kept from its call. -/
theorem executed_iff_carriedOut (u : Letters) (b : Backends σ) (o : Order) (x : NodeState)
    (s : Logged σ Event) : Executed u b o x s ↔ CarriedOut u b o x s := by
  have hown : ∀ {pre raw post p}, x.plannedActions = pre ++ raw :: post → raw.action = .ok ⟨.runTool, p⟩ →
      hasPlannedActions x := by
    intro pre raw post p heq hact
    refine hasPlannedActions_of_runTool ?_ hact
    rw [heq]
    simp
  rw [CarriedOut]
  split_ifs with hplanned
  · have hselected : ∀ t, (∃ e ∈ added (toolExecutionNode b u o x) s, ∃ p, e = .invoked t p) ↔
        Attempt.Sometime (Exec.step b) (CarriedOutWith b t) (Exec.start x s) x.plannedActions := by
      intro t
      rw [added_toolExecutionNode, if_pos hplanned, executeActions, exists_added_forEach (grows_step b)]
      exact Attempt.sometime_congr fun s raw _ => invoked_mem_step_iff raw
    constructor
    · rintro ⟨hsel, howns⟩
      refine ⟨fun t ht => (hselected t).1 (hsel t ht), fun pre raw post p heq hact => ?_⟩
      obtain ⟨s', hrun, hround⟩ := howns pre raw post p heq hact
      exact ⟨s', hrun, (own_step_iff hact).1 hround⟩
    · rintro ⟨hsel, howns⟩
      refine ⟨fun t ht => (hselected t).2 (hsel t ht), fun pre raw post p heq hact => ?_⟩
      obtain ⟨s', hrun, hsome⟩ := howns pre raw post p heq hact
      exact ⟨s', hrun, (own_step_iff hact).2 hsome⟩
  · have hselected : ∀ t, (∃ e ∈ added (toolExecutionNode b u o x) s, ∃ p, e = .invoked t p) ↔
        Attempt.Sometime (stagedStep b u x) (InvokedAs u b x t) s (stagedOrder o (parseToolStages o x)) := by
      intro t
      rw [added_toolExecutionNode, if_neg hplanned, executeToolStages,
        exists_added_forEach (grows_stagedStep b u x)]
      exact Attempt.sometime_congr fun s tool _ => invoked_mem_stagedStep_iff tool
    refine ⟨fun h t ht => (hselected t).1 (h.selected t ht), fun h => ⟨fun t ht => (hselected t).2 (h t ht), ?_⟩⟩
    exact fun pre raw post p heq hact => absurd (hown heq hact) hplanned

/-! ### The plan of the planner -/

/-- An action that is not left to a node of its own. -/
def executable (a : Action) : Bool := a.type ∉ [.answer, .retrieve]

/-- An action comes back from its dictionary as it was. -/
theorem action_toDict (a : Action) : (toDict a).action = .ok a := by
  have hfind : actionTypes.find? (fun ty => ty.name = strip a.type.name) = some a.type := by
    cases a.type <;> decide
  rw [Planned.action, toDict]
  simp only [if_true, hfind]

/-- The node takes the planned path as soon as one action is executable. -/
theorem hasPlannedActions_transportPlan (u : Letters) (b : Backends σ) (x : NodeState) (w : σ)
    (result : PlanResult) :
    hasPlannedActions (transportPlan u b x w result) = result.actions.any executable := by
  have hname : ∀ ty : ActionType, decide (ty.name ∉ ["answer".toList, "retrieve".toList]) =
      decide (ty ∉ [.answer, .retrieve]) := by
    intro ty
    cases ty <;> decide
  rw [hasPlannedActions, transportPlan, List.any_map]
  exact congrArg (fun f => result.actions.any f) (funext fun a => hname a.type)

/-- What the planner comes to is executed in one pass exactly when its actions, or without one its stages,
    carry it out. -/
theorem planResult_executed_iff (u : Letters) (b : Backends σ) (o : Order) (x : NodeState) (w : σ)
    (result : PlanResult) (s : Logged σ Event) :
    Executed u b o (transportPlan u b x w result) s ↔
      if result.actions.any executable then
        (∀ t ∈ (transportPlan u b x w result).selectedTools, Attempt.Sometime (Exec.step b)
          (CarriedOutWith b t) (Exec.start (transportPlan u b x w result) s) (result.actions.map toDict)) ∧
        ∀ pre a post, result.actions = pre ++ a :: post → a.type = .runTool →
          ∃ s', executeActions b (pre.map toDict) (Exec.start (transportPlan u b x w result) s) = (s', .ok ()) ∧
            (runToolCall b s'.world.current a.params s'.world.world).isSome
      else ∀ t ∈ (transportPlan u b x w result).selectedTools,
        Attempt.Sometime (stagedStep b u (transportPlan u b x w result))
          (InvokedAs u b (transportPlan u b x w result) t) s
          (stagedOrder o (parseToolStages o (transportPlan u b x w result))) := by
  rw [executed_iff_carriedOut, CarriedOut, hasPlannedActions_transportPlan]
  split_ifs with hexec
  swap
  · exact Iff.rfl
  refine and_congr_right fun _ => ?_
  constructor
  · intro h pre a post heq hty
    refine h (pre.map toDict) (toDict a) (post.map toDict) a.params ?_ ?_
    · change result.actions.map toDict = _
      rw [heq, List.map_append, List.map_cons]
    · rw [action_toDict, ← hty]
  · intro h pre raw post p heq hact
    obtain ⟨pre', rest, hsplit, rfl, hrest⟩ := List.map_eq_append_iff.1 heq
    obtain ⟨a, post', rfl, rfl, rfl⟩ := List.map_eq_cons_iff.1 hrest
    rw [action_toDict] at hact
    cases hact
    exact h pre' _ post' hsplit rfl

/-- A plan that reads a file and selects a calculator beside it. -/
def readAndCount : PlanResult where
  actions := [⟨.readArtifact, PyDict.ofList [("filename".toList, .str "notes.md".toList)]⟩]
  selectedTools := ["calculator".toList]

def calculatorWorld : Backends Unit :=
  { bareWorld with
    registry := PyDict.ofList
      [("calculator".toList, { name := "calculator".toList, handler := fun _ => pure {} })] }

/-- The calculator is selected, and the pass reads the file alone. -/
theorem readAndCount_not_executed : ¬ Executed asciiLetters calculatorWorld .listed
    (transportPlan asciiLetters calculatorWorld { taskId := "t-1".toList } () readAndCount) ⟨(), []⟩ := by
  intro h
  have hadded : added (toolExecutionNode calculatorWorld asciiLetters .listed
      (transportPlan asciiLetters calculatorWorld { taskId := "t-1".toList } () readAndCount)) ⟨(), []⟩ =
        directEvents (readTool, PyDict.ofList [("filename".toList, .str "notes.md".toList),
          ("task_id".toList, .str "t-1".toList)]) := rfl
  have hcalculator := h.selected "calculator".toList (by decide)
  rw [hadded, invoked_mem_directEvents_iff] at hcalculator
  exact absurd hcalculator (by decide)

end AgentLangraph.Plan
