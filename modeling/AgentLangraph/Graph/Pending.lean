import AgentLangraph.Artifact.Steps
import AgentLangraph.Graph.Converge

/-! The plan of a turn at the gate: what `_pending_planned_actions` and `evaluate_convergence` make of the
    state that `execute_actions` leaves. The gate knows an action by the name of its tool; the executor
    may carry it out under another.

        write_artifact  ─▶ write_text_artifact   (append_text_artifact, on a body to continue)
        edit_artifact   ─▶ edit_text_artifact    (write_text_artifact, without a target)
        run_tool        ─▶ params.name           (the tool for the draft, a name without its spaces) -/

namespace AgentLangraph.Graph
open PyText Artifact

/-! ### The state that is left -/

/-- A row of `tool_results`, as the gate reads it. -/
def ofEntry (e : Entry) : ToolResult where
  tool := e.tool
  status := e.status
  error := decide (e.error ≠ [])
  result := e.result.map fun r => { status := r.status, replacements := r.replacements.getD 0 }
  nonRetryable := e.nonRetryable || e.errorCode = "artifact_not_found".toList

/-- `_basename` of `artifact_rename_intent`. -/
def pathBasename (name : Text) : Text :=
  ((splitSlash (slashed (strip name))).filter fun p => p ≠ [] ∧ p ≠ ".".toList).getLast?.getD []

/-- The names under which a `write_text_artifact` that went well has written (`wrote_ok`). -/
def wroteOk (rows : List Entry) : List Text :=
  ((rows.filter fun e => e.tool = writeTool ∧ (ofEntry e).ok).flatMap fun e =>
    let r := e.result.getD {}
    [(splitSlash (List.intercalate "/".toList r.path)).getLast?.getD [], pathBasename r.filename]).filter
      (· ≠ [])

/-- `rename_cleanup_obviated`. -/
def renameCleanupObviated (rows : List Entry) (p : Params) : Bool :=
  let rmPath := pathBasename (textOr p.fields "path")
  rmPath != [] && (wroteOk rows).any (· ≠ rmPath)

/-- An element of `planned_actions`, as the gate reads it beside the tool results. -/
def ofPlanned (rows : List Entry) (raw : Planned) : PlannedAction where
  type := raw.type
  name := textOr raw.params.fields "name"
  cleanupObviated := renameCleanupObviated rows raw.params

/-- The state that `execute_actions` leaves, with whatever else is in it. -/
def stateAfter (rest : GraphState) (steps : List Step) (out : Run) : GraphState :=
  { rest with
    toolResults := out.exec.toolResults.map ofEntry
    plannedActions := steps.map fun step => ofPlanned out.exec.toolResults step.planned
    editsAttempted := out.facts.editsAttempted.getD 0
    editsApplied := out.facts.editsApplied.getD 0 }

/-! ### What the gate should say -/

/-- A write, an edit or a `run_tool`, as the executor reads the type. -/
def Declared (raw : Planned) : Prop :=
  strip raw.type ∈ ([.writeArtifact, .editArtifact, .runTool] : List ActionType).map ActionType.name

/-- The entry that the action itself adds to the tool results. -/
def own (t : Tools) (r : Run) (step : Step) : Option Entry :=
  ((Run.step t step r).1.results.drop r.results.length).head?

/-- An entry whose result is no error. -/
def successful (e : Entry) : Bool :=
  (ofEntry e).ok && e.result.all fun r => r.status ≠ "error".toList

/-- The action itself has a successful result, under whatever tool. -/
def Succeeds (t : Tools) (r : Run) (step : Step) : Prop := ∃ e ∈ own t r step, successful e

instance (t : Tools) (r : Run) (step : Step) : Decidable (Succeeds t r step) :=
  decidable_of_iff ((own t r step).any successful = true) (Option.any_eq_true ..)

instance (raw : Planned) : Decidable (Declared raw) :=
  inferInstanceAs (Decidable (strip raw.type ∈
    ([.writeArtifact, .editArtifact, .runTool] : List ActionType).map ActionType.name))

/-- `_pending_planned_actions` counts the action. -/
def Counted (s : GraphState) (a : PlannedAction) : Prop :=
  pendingPlannedActions { s with plannedActions := [a] } ≠ []

/-- Exactly the actions without a successful result of their own are pending, and the turn is not done
    while there is one. -/
structure ConvergesHonestly (t : Tools) (steps : List Step) (before out : Run) (s : GraphState) : Prop where
  pending : Attempt.Along (Run.step t) (fun r step => Declared step.planned →
    (Counted s (ofPlanned out.exec.toolResults step.planned) ↔ ¬ Succeeds t r step)) before steps
  done : (evaluateConvergence s).done = true →
    Attempt.Along (Run.step t) (fun r step => Declared step.planned → Succeeds t r step) before steps

/-! ### When it does -/

/-- What the executor relies on: the engineering run gives the tool results back as they are, and the
    registry answers under the name of the tool. -/
structure Answers (step : Step) : Prop where
  code : ∀ s, (step.code s).1.1.toolResults = s.1.toolResults
  invoke : ∀ {name p ws ws' inv}, step.invoke name p ws = (ws', .ok inv) → inv.tool = strip name

/-- The action is carried out under the tool that its type stands for. -/
def Direct (t : Tools) (r : Run) (step : Step) (a : Action) : Prop :=
  match a.type with
  | .writeArtifact =>
    bodyDraftToolName t.codec (drafted t r step a).1 r.exec.turn.taskId
      (textOr (callParams r.exec.turn a.params).fields "filename") = .write
  | .editArtifact => editHasTarget a.params = true
  | .runTool => ∀ d name p,
    redirectRunTool t step.supply r.exec.turn (textOr a.params.fields "name")
        (callParams r.exec.turn { a.params with fields := a.params.fields.pop "name" })
        (r.exec.ws.at step.now).disk = (d, .ok (name, p)) →
      strip name = textOr a.params.fields "name"
  | _ => False

/-- Some call of the tool went well. -/
def Named (rows : List Entry) (tool : Text) : Prop := ∃ e ∈ rows, (ofEntry e).ok ∧ e.tool = tool

/-- The gate does not look for the action: it does not read its type or its tool, or takes the clean-up
    for unnecessary. -/
def PassedOver (a : PlannedAction) : Prop :=
  a.tool = [] ∨ a.tool = "rm_path".toList ∧ a.cleanupObviated

/-- The tool of the action tells how it went. One that went well is carried out under its own tool, or
    the gate finds another call of it or does not look; one that went wrong is looked for, and no call of
    its tool went well. -/
def Told (t : Tools) (rows : List Entry) (r : Run) (step : Step) : Prop :=
  let a := ofPlanned rows step.planned
  (Succeeds t r step → (∃ b, step.planned.action = .ok b ∧ Direct t r step b) ∨ Named rows a.tool ∨ PassedOver a) ∧
    (¬ Succeeds t r step → ¬ Named rows a.tool ∧ ¬ PassedOver a)

/-- The branch of `evaluate_convergence` that comes before the plan: as many edits applied as attempted. -/
def EditsApplied (s : GraphState) : Prop := (editCounts s).1 ≠ 0 ∧ (editCounts s).1 ≤ (editCounts s).2

/-! ### The pending actions -/

section
variable {rest : GraphState} {steps : List Step} {out : Run} {a : PlannedAction}

/-- An action is counted when it is not passed over and no call of its tool went well. -/
theorem counted_iff : Counted (stateAfter rest steps out) a ↔
    ¬ Named out.exec.toolResults a.tool ∧ ¬ PassedOver a := by
  have hnamed : a.tool ∈ (((out.exec.toolResults.map ofEntry).filter ToolResult.ok).map ToolResult.tool) ↔
      Named out.exec.toolResults a.tool := by
    simp only [List.mem_map, List.mem_filter, Named]
    constructor
    · rintro ⟨row, ⟨⟨e, he, rfl⟩, hok⟩, htool⟩
      exact ⟨e, he, hok, htool⟩
    · rintro ⟨e, he, hok, htool⟩
      exact ⟨ofEntry e, ⟨⟨e, he, rfl⟩, hok⟩, htool⟩
  rw [Counted, pendingPlannedActions, stateAfter, ← hnamed, PassedOver]
  simp only [ne_eq, List.map_eq_nil_iff, List.filter_eq_nil_iff, List.mem_singleton, forall_eq,
    decide_eq_true_eq]
  tauto

/-- Nothing is pending exactly when no action of the plan is counted. -/
theorem pending_eq_nil_iff {s : GraphState} :
    pendingPlannedActions s = [] ↔ ∀ a ∈ s.plannedActions, ¬ Counted s a := by
  simp only [Counted, pendingPlannedActions, ne_eq, List.map_eq_nil_iff, List.filter_eq_nil_iff,
    List.mem_singleton, forall_eq, not_not]

end

theorem done_of_editsApplied {s : GraphState} (h : EditsApplied s) : (evaluateConvergence s).done = true := by
  rw [evaluateConvergence]
  dsimp only
  rw [if_pos h.1, if_pos h.2]

/-- Nothing behind the first branch is done while an action is pending. -/
theorem not_done_of_pending {s : GraphState} (hpending : pendingPlannedActions s ≠ []) (h : ¬ EditsApplied s) :
    (evaluateConvergence s).done = false := by
  rw [evaluateConvergence]
  dsimp only
  by_cases hattempted : (editCounts s).1 ≠ 0
  · rw [if_pos hattempted, if_neg fun happlied => h ⟨hattempted, happlied⟩]
    split_ifs <;> rfl
  · rw [if_neg hattempted, if_pos hpending]
    split_ifs <;> rfl

/-! ### What an action adds -/

section
variable {t : Tools} {step : Step} {r r' : Run} {a : Action}

/-- An action that the executor carries out itself, and that returns, adds its entry. -/
theorem own_eq (hact : step.planned.action = .ok a) (hty : a.type.onArtifact = true ∨ a.type = .runTool)
    (h : Run.step t step r = (r', .ok ())) :
    ∃ ws e, executeEntry t step r.exec a (r.exec.ws.at step.now) = (ws, .ok e) ∧ own t r step = some e ∧
      r'.results = r.results ++ [e] := by
  obtain ⟨ws, e, hentry, rfl⟩ := step_ok hact hty h
  refine ⟨ws, e, hentry, ?_, rfl⟩
  rw [own, h]
  change ((r.results ++ [e]).drop r.results.length).head? = some e
  rw [List.drop_left]
  rfl

/-- What is recorded as an error is not successful. -/
theorem not_successful_of_error {e : Entry} (h : e.status = "error".toList) : ¬ successful e = true := by
  have hrow : (ofEntry e).ok = false := by
    change (decide (e.status = []) || decide (e.status = "ok".toList) ||
      decide (e.status = "cached".toList)) = false
    rw [h]
    decide +kernel
  rw [successful, hrow]
  exact Bool.false_ne_true

/-- STEP: an action keeps the tool results there are. -/
theorem results_step (hanswers : Answers step) :
    Attempt.Moves (fun r r' => r.results <+: r'.results) (Run.step t step) := by
  intro r
  cases hact : step.planned.action with
  | error e =>
    rw [Run.step, hact]
    exact List.prefix_append ..
  | ok a =>
    by_cases hown : a.type.onArtifact = true ∨ a.type = .runTool
    · rw [step_eq_execute hact hown]
      rcases hentry : executeEntry t step r.exec a (r.exec.ws.at step.now) with ⟨ws, e | e⟩
      · rw [execute_error hentry]
        exact List.prefix_rfl
      · rw [execute_ok hentry]
        exact List.prefix_append ..
    rw [Run.step, hact]
    cases hty : a.type with
    | answer | retrieve =>
      simp only [hty]
      exact List.prefix_rfl
    | runCode =>
      have hkeeps := hanswers.code ({ r.exec with toolResults := r.results }, r.facts)
      simp only [hty, Run.runCode]
      rcases hcode : step.code ({ r.exec with toolResults := r.results }, r.facts) with ⟨⟨x, facts⟩, e | status⟩
      · exact List.prefix_rfl
      · rw [hcode] at hkeeps
        exact ⟨[], (List.append_nil _).trans hkeeps.symm⟩
    | readArtifact | writeArtifact | editArtifact => exact absurd (Or.inl (by rw [hty]; rfl)) hown
    | runTool => exact absurd (Or.inr hty) hown

theorem successful_of_succeeds {e : Entry} (hown : own t r step = some e) (h : Succeeds t r step) :
    successful e = true := by
  obtain ⟨e', he', hsuccess⟩ := h
  rw [hown] at he'
  cases he'
  exact hsuccess

end

/-! ### The tool of an action -/

/-- The tool that the type of an action stands for. -/
def toolOf (a : Action) : Text :=
  match a.type with
  | .writeArtifact => writeTool
  | .editArtifact => editTool
  | .runTool => textOr a.params.fields "name"
  | _ => []

theorem action_of_name {raw : Planned} {y : ActionType} {a : Action} (hname : raw.type = y.name)
    (hact : raw.action = .ok a) : a = ⟨y, raw.params⟩ := by
  rw [Planned.action] at hact
  cases hmalformed : raw.malformed with
  | some e =>
    rw [hmalformed] at hact
    cases hact
  | none =>
    rw [hmalformed] at hact
    dsimp only at hact
    rw [hname, find_name] at hact
    cases hact
    rfl

/-- The gate reads the tool of an action off its type, unless there are spaces around it. -/
theorem tool_ofPlanned {raw : Planned} {a : Action} (hact : raw.action = .ok a) (rows : List Entry) :
    (ofPlanned rows raw).tool = [] ∨ (ofPlanned rows raw).tool = toolOf a := by
  rw [PlannedAction.tool]
  split_ifs with hwrite hedit hrun
  · cases action_of_name (y := .writeArtifact) hwrite hact
    exact Or.inr rfl
  · cases action_of_name (y := .editArtifact) hedit hact
    exact Or.inr rfl
  · cases action_of_name (y := .runTool) hrun hact
    exact Or.inr rfl
  · exact Or.inl rfl

section
variable {t : Tools} {step : Step} {r r' : Run} {a : Action}

theorem entryOf_cases {α : Type} {x : Ws α} {ok : α → Entry} {raised : Raise → Entry} {ws ws' : Workspace}
    {e : Entry} (h : entryOf x ok raised ws = (ws', .ok e)) :
    (∃ b, x ws = (ws', .ok b) ∧ e = ok b) ∨ ∃ err, e = raised err := by
  rcases hx : x ws with ⟨ws₁, err | b⟩
  · rw [entryOf_error hx] at h
    cases h
    exact Or.inr ⟨err, rfl⟩
  · rw [entryOf_ok hx] at h
    cases h
    exact Or.inl ⟨b, rfl, rfl⟩

/-- A tool that is called by a name, and goes well, is recorded under the name without its spaces. -/
theorem executeRunTool_tool (hanswers : Answers step) {x : Exec} {p : Params} {ws ws' : Workspace} {e : Entry}
    (h : executeRunTool t step x p ws = (ws', .ok e)) (hsuccess : successful e = true) :
    ∃ d name q, redirectRunTool t step.supply x.turn (textOr p.fields "name")
      (callParams x.turn { p with fields := p.fields.pop "name" }) ws.disk = (d, .ok (name, q)) ∧
        e.tool = strip name := by
  rw [executeRunTool] at h
  dsimp only at h
  split_ifs at h with hname
  · cases h
    exact absurd hsuccess (not_successful_of_error rfl)
  rcases hredirect : redirectRunTool t step.supply x.turn (textOr p.fields "name")
      (callParams x.turn { p with fields := p.fields.pop "name" }) ws.disk with ⟨d, err | ⟨name, q⟩⟩
  · rw [Attempt.bind_error (onDisk_eq hredirect)] at h
    cases h
  rw [Attempt.bind_ok (onDisk_eq hredirect)] at h
  refine ⟨d, name, q, rfl, ?_⟩
  obtain ⟨inv, hinv, rfl⟩ | ⟨err, rfl⟩ := entryOf_cases h
  · by_cases hstatus : (inv.result.getD {}).status = "error".toList
    · rw [if_pos hstatus] at hsuccess
      exact absurd hsuccess (not_successful_of_error rfl)
    · rw [if_neg hstatus]
      exact hanswers.invoke hinv
  · cases err <;> exact absurd hsuccess (not_successful_of_error rfl)

/-- An action that goes well under its own tool is recorded under it. -/
theorem entry_tool_of_direct (hanswers : Answers step) {ws : Workspace} {e : Entry}
    (hentry : executeEntry t step r.exec a (r.exec.ws.at step.now) = (ws, .ok e))
    (hsuccess : successful e = true) (hdirect : Direct t r step a) : e.tool = toolOf a := by
  rw [Direct] at hdirect
  rw [toolOf]
  cases hty : a.type with
  | writeArtifact =>
    rw [hty] at hdirect
    rw [executeEntry_write hty, executeWrite] at hentry
    rcases hdraft : drafted t r step a with ⟨d, err | content⟩
    · rw [Attempt.bind_error (onDisk_eq hdraft)] at hentry
      cases hentry
    · rw [Attempt.bind_ok (onDisk_eq hdraft), Attempt.ask_bind_apply] at hentry
      rw [hdraft] at hdirect
      dsimp only [id] at hentry hdirect
      rw [hdirect] at hentry
      obtain ⟨res, -, rfl⟩ | ⟨err, rfl⟩ := entryOf_cases hentry
      · rfl
      · exact raisedEntry_tool ..
  | editArtifact =>
    rw [hty] at hdirect
    rw [executeEntry_precise hty (by rw [editHasTarget_callParams]; exact hdirect), executePrecise] at hentry
    obtain ⟨res, -, rfl⟩ | ⟨err, rfl⟩ := entryOf_cases hentry
    · rfl
    · exact raisedEntry_tool ..
  | runTool =>
    rw [hty] at hdirect
    rw [executeEntry, hty] at hentry
    obtain ⟨d, name, q, hredirect, htool⟩ := executeRunTool_tool hanswers hentry hsuccess
    rw [htool]
    exact hdirect d name q hredirect
  | answer | retrieve | readArtifact | runCode =>
    rw [hty] at hdirect
    exact absurd hdirect id

/-- An action of the three types that is valid is one that the executor carries out itself. -/
theorem onArtifact_of_declared (hdeclared : Declared step.planned) (hact : step.planned.action = .ok a) :
    a.type.onArtifact = true ∨ a.type = .runTool := by
  have hname : a.type.name = strip step.planned.type := by
    rw [Planned.action] at hact
    cases hmalformed : step.planned.malformed with
    | some e =>
      rw [hmalformed] at hact
      cases hact
    | none =>
      rw [hmalformed] at hact
      dsimp only at hact
      cases hfind : actionTypes.find? fun ty => ty.name = strip step.planned.type with
      | none =>
        rw [hfind] at hact
        cases hact
      | some ty =>
        rw [hfind] at hact
        cases hact
        have hname := List.find?_some hfind
        exact of_decide_eq_true hname
  rw [Declared, ← hname] at hdeclared
  revert hdeclared
  cases a.type <;> decide +kernel

/-- STEP: the gate says of an action how it went exactly when its tool tells. -/
theorem told_iff {rest : GraphState} {steps : List Step} {out : Run} (hanswers : Answers step)
    (hdeclared : Declared step.planned) (h : Run.step t step r = (r', .ok ()))
    (hrows : r'.results <+: out.exec.toolResults) :
    (Counted (stateAfter rest steps out) (ofPlanned out.exec.toolResults step.planned) ↔
        ¬ Succeeds t r step) ↔
      Told t out.exec.toolResults r step := by
  have hdirect : Succeeds t r step → (∃ b, step.planned.action = .ok b ∧ Direct t r step b) →
      Named out.exec.toolResults (ofPlanned out.exec.toolResults step.planned).tool ∨
        PassedOver (ofPlanned out.exec.toolResults step.planned) := by
    rintro hsucceeds ⟨a, hact, hdirect⟩
    obtain ⟨ws, e, hentry, hown, hresults⟩ := own_eq hact (onArtifact_of_declared hdeclared hact) h
    have hsuccess := successful_of_succeeds hown hsucceeds
    have hmem : e ∈ out.exec.toolResults := hrows.subset (by rw [hresults]; simp)
    rcases tool_ofPlanned hact out.exec.toolResults with hnone | htool
    · exact Or.inr (Or.inl hnone)
    · refine Or.inl ⟨e, hmem, (Bool.and_eq_true_iff.1 hsuccess).1, ?_⟩
      rw [htool]
      exact entry_tool_of_direct hanswers hentry hsuccess hdirect
  rw [counted_iff, Told]
  by_cases hsucceeds : Succeeds t r step
  · simp only [hsucceeds, not_true_eq_false, iff_false, true_imp_iff, false_imp_iff, and_true, not_and_or,
      not_not]
    exact ⟨Or.inr, fun hor => hor.elim (hdirect hsucceeds) id⟩
  · simp only [hsucceeds, not_false_eq_true, iff_true, true_imp_iff, false_imp_iff, true_and]

end

/-! ### The turn -/

/-- The gate is honest about the plan exactly when the tool of every action tells how it went, and the
    edits are not all applied while an action of the plan went wrong. -/
theorem converge_honest_iff (t : Tools) (steps : List Step) (x : Exec) (facts : TurnFacts)
    (rest : GraphState) {out : Run} (hanswers : ∀ step ∈ steps, Answers step)
    (h : executeActions t steps (Run.begin x facts) = (out, .ok ())) :
    ConvergesHonestly t steps (Run.begin x facts) out (stateAfter rest steps out) ↔
      Attempt.Along (Run.step t) (fun r step => Declared step.planned → Told t out.exec.toolResults r step)
          (Run.begin x facts) steps ∧
        (EditsApplied (stateAfter rest steps out) →
          Attempt.Along (Run.step t) (fun r step => Declared step.planned → Succeeds t r step)
            (Run.begin x facts) steps) := by
  have hpending : Attempt.Along (Run.step t) (fun r step => Declared step.planned →
      (Counted (stateAfter rest steps out) (ofPlanned out.exec.toolResults step.planned) ↔
        ¬ Succeeds t r step)) (Run.begin x facts) steps ↔
      Attempt.Along (Run.step t) (fun r step => Declared step.planned → Told t out.exec.toolResults r step)
        (Run.begin x facts) steps := by
    rcases hrun : Run.steps t steps (Run.begin x facts) with ⟨last, e | u⟩
    · rw [executeActions_error hrun] at h
      cases h
    obtain ⟨out', hout, -, hresults⟩ := executeActions_ok hrun
    rw [h] at hout
    cases hout
    refine Attempt.along_congr_of_ok hrun fun step post hsuffix r r' hstep hpost => ?_
    have hkeeps : r'.results <+: (Run.steps t post r').1.results :=
      Attempt.forEach_moves (R := fun r r' => r.results <+: r'.results) (fun _ => List.prefix_rfl)
        (fun _ _ _ => List.IsPrefix.trans)
        (fun b hb => results_step (hanswers b (hsuffix.subset (.tail _ hb)))) r'
    rw [Run.steps, hpost, ← hresults] at hkeeps
    refine forall_congr' fun hdeclared => ?_
    exact told_iff (hanswers step (hsuffix.subset List.mem_cons_self)) hdeclared hstep hkeeps
  have hnone : pendingPlannedActions (stateAfter rest steps out) = [] →
      ∀ step ∈ steps, ¬ Counted (stateAfter rest steps out) (ofPlanned out.exec.toolResults step.planned) :=
    fun hnil step hstep => pending_eq_nil_iff.1 hnil _ (List.mem_map_of_mem hstep)
  constructor
  · rintro ⟨hhonest, hdone⟩
    exact ⟨hpending.1 hhonest, fun hedits => hdone (done_of_editsApplied hedits)⟩
  · rintro ⟨htold, hedits⟩
    have hhonest := hpending.2 htold
    refine ⟨hhonest, fun hdone => ?_⟩
    by_cases happlied : EditsApplied (stateAfter rest steps out)
    · exact hedits happlied
    · have hnil : pendingPlannedActions (stateAfter rest steps out) = [] := by
        by_contra hne
        rw [not_done_of_pending hne happlied] at hdone
        cases hdone
      refine Attempt.along_mono (fun r step hstep hcounted hdeclared => ?_) hhonest
      by_contra hwrong
      exact hnone hnil step hstep ((hcounted hdeclared).2 hwrong)

/-- A write of a file of the task. -/
def writeTo (filename : Text) : Step where
  planned :=
    { type := ActionType.writeArtifact.name,
      params :=
        { fields := PyDict.ofList
            [("filename".toList, .str filename), ("content".toList, .str "note".toList)] } }
  invoke := fun name _ => pure { tool := strip name }

theorem writeTo_action (filename : Text) :
    (writeTo filename).planned.action = .ok ⟨.writeArtifact, (writeTo filename).planned.params⟩ := by
  rw [Planned.action, writeTo]
  dsimp only
  rw [find_name]

theorem writeTo_answers (filename : Text) : Answers (writeTo filename) where
  code := fun _ => rfl
  invoke := fun h => by
    cases h
    rfl

def written : Run × Except Raise Unit :=
  executeActions plainTools [writeTo "a.md".toList] (Run.begin (oneFile "old".toList) {})

/-- The gate is honest about one write that goes well. -/
theorem converge_honest_iff_write : ConvergesHonestly plainTools [writeTo "a.md".toList]
    (Run.begin (oneFile "old".toList) {}) written.1
    (stateAfter { answer := "done".toList } [writeTo "a.md".toList] written.1) := by
  have hwrite : written.2 = .ok () ∧
      Succeeds plainTools (Run.begin (oneFile "old".toList) {}) (writeTo "a.md".toList) := by
    decide +kernel
  obtain ⟨hok, hsucceeds⟩ := hwrite
  have hrun : written = (written.1, .ok ()) := by rw [← hok]
  refine (converge_honest_iff plainTools [writeTo "a.md".toList] (oneFile "old".toList) {}
    { answer := "done".toList } ?_ hrun).2
    ⟨⟨fun _ => ⟨fun _ => ?_, fun hwrong => absurd hsucceeds hwrong⟩, fun _ _ => trivial⟩, fun _ =>
      ⟨fun _ => hsucceeds, fun _ _ => trivial⟩⟩
  · intro step hstep
    rw [List.mem_singleton.1 hstep]
    exact writeTo_answers _
  · refine Or.inl ⟨_, writeTo_action _, ?_⟩
    rw [Direct]
    decide +kernel

def twoWrites : List Step := [writeTo "a.md".toList, writeTo "b.exe".toList]

def firstWritten : Run × Except Raise Unit :=
  Run.step plainTools (writeTo "a.md".toList) (Run.begin (oneFile "old".toList) {})

def secondRefused : Run × Except Raise Unit :=
  executeActions plainTools twoWrites (Run.begin (oneFile "old".toList) {})

def answered : GraphState := stateAfter { answer := "done".toList } twoWrites secondRefused.1

/-- Of two writes the second is refused; it is not pending, and the turn is done. -/
theorem refused_write_converges : secondRefused.2 = .ok () ∧
    secondRefused.1.exec.toolResults.map Entry.status = ["ok".toList, "error".toList] ∧
    pendingPlannedActions answered = [] ∧
    evaluateConvergence answered = ⟨true, .proceed, "answer_ready".toList⟩ ∧
    ¬ ConvergesHonestly plainTools twoWrites (Run.begin (oneFile "old".toList) {}) secondRefused.1 answered := by
  have hleft : secondRefused.2 = .ok () ∧
      secondRefused.1.exec.toolResults.map Entry.status = ["ok".toList, "error".toList] ∧
      pendingPlannedActions answered = [] ∧
      evaluateConvergence answered = ⟨true, .proceed, "answer_ready".toList⟩ := by
    decide +kernel
  have hsecond : firstWritten.2 = .ok () ∧ Declared (writeTo "b.exe".toList).planned ∧
      ¬ Succeeds plainTools firstWritten.1 (writeTo "b.exe".toList) := by
    decide +kernel
  obtain ⟨hreturns, hstatus, hpending, hdone⟩ := hleft
  obtain ⟨hok, hdeclared, hwrong⟩ := hsecond
  refine ⟨hreturns, hstatus, hpending, hdone, fun h => ?_⟩
  have hfirst : firstWritten = (firstWritten.1, .ok ()) := by rw [← hok]
  exact hwrong (((h.done (by rw [hdone])).2 _ hfirst).1 hdeclared)

end AgentLangraph.Graph
