import AgentLangraph.Plan.Audit

/-! Whether the audit binds the execution. Where it strips the writing tools, the tool node still invokes
    one for an action or a stage that writes, since no correction looks at these copies of the plan. -/

namespace AgentLangraph.Plan
open PyText Logged AgentLangraph.Tool
open AgentLangraph.Artifact (Raise ActionType DraftTool textOr writeTool appendTool editTool readTool)

variable {σ : Type}

/-- An event that invokes no writing tool. -/
def NoWriting : Event → Prop
  | .invoked tool _ => tool ∉ writingToolNames
  | .handled _ _ => True

/-- An action that is carried out by a writing tool. -/
def ActionWrites (a : Action) : Prop :=
  match a.type with
  | .writeArtifact => True
  | .editArtifact => ¬ editHasTarget a.params
  | .runTool => strip (textOr a.params "name") ∈ writingToolNames
  | _ => False

/-- An action comes to its call: its text is there or can be drafted. -/
def comesToCall (b : Backends σ) (x : NodeState) (a : Action) (w : σ) : Bool :=
  match a.type with
  | .runTool => (runToolCall b x a.params w).isSome
  | _ => (artifactCall b x a w).isSome

/-- A staged tool that is carried out by a writing tool: one of them, or an edit without a target in a
    turn that may write. -/
def StagedWriter (x : NodeState) (tool : Text) : Prop :=
  strip tool ∈ writingToolNames ∨
    tool = editTool ∧ ¬ editHasTarget (editParams x [] (toolCfg x tool)) ∧ x.writingEnabled

/-- The tools that the node goes through for the stages of a plan and the selected tools that are left. -/
def toolsOf (o : Order) (x : NodeState) (left : List Text) : List Text :=
  stagedOrder o (parseToolStages o { x with selectedTools := left })

/-- No action of the plan and no tool of its stages that is come to writes. -/
def CopiesAgree (u : Letters) (b : Backends σ) (o : Order) (x y : NodeState) (s : Logged σ Event) : Prop :=
  if hasPlannedActions x then
    Attempt.Along (Exec.step b) (fun s raw => ∀ a, raw.action = .ok a → ActionWrites a →
      comesToCall b s.world.current a s.world.world = false) (Exec.start y s) x.plannedActions
  else Attempt.Along (stagedStep b u y) (fun s tool => StagedWriter y tool →
    stagedCall b u y tool s.world = none) s (toolsOf o x y.selectedTools)

/-! ### Which calls write -/

theorem draftTool_mem (d : DraftTool) : d.name ∈ writingToolNames := by
  cases d <;> decide

theorem editHasTarget_withTask (taskId : Text) (p : Fields) :
    editHasTarget (withTask taskId p) = editHasTarget p := by
  have hfield : ∀ key : String, key ≠ "task_id" → (withTask taskId p).field key = p.field key :=
    fun key hkey => PyDict.field_congr (get?_withTask_ne taskId p hkey)
  rw [editHasTarget, editHasTarget, textOr, textOr, hfield _ (by decide), hfield _ (by decide),
    hfield _ (by decide)]

theorem artifactCall_writes {b : Backends σ} {x : NodeState} {a : Action} {w : σ} {call : Text × Fields}
    (h : artifactCall b x a w = some call) : call.1 ∈ writingToolNames ↔ ActionWrites a := by
  rw [artifactCall] at h
  rw [ActionWrites]
  cases hty : a.type with
  | writeArtifact =>
    rw [hty] at h
    obtain ⟨content, -, rfl⟩ := Option.map_eq_some_iff.1 h
    exact iff_of_true (draftTool_mem _) trivial
  | editArtifact =>
    rw [hty] at h
    dsimp only at h ⊢
    rw [editHasTarget_withTask] at h
    split_ifs at h with htarget
    · cases h
      exact iff_of_false (show editTool ∉ writingToolNames by decide) (not_not.2 htarget)
    · obtain ⟨content, -, rfl⟩ := Option.map_eq_some_iff.1 h
      exact iff_of_true (show writeTool ∈ writingToolNames by decide) htarget
  | readArtifact =>
    rw [hty] at h
    dsimp only at h
    split_ifs at h
    cases h
    exact iff_of_false (show readTool ∉ writingToolNames by decide) not_false
  | runTool | runCode | answer | retrieve =>
    rw [hty] at h
    cases h

theorem strip_mem_writing {tool : Text} (h : tool ∈ writingToolNames) : strip tool ∈ writingToolNames := by
  simp only [writingToolNames, List.mem_cons, List.not_mem_nil, or_false] at h
  rcases h with rfl | rfl <;> decide

theorem runToolCall_writes {b : Backends σ} {x : NodeState} {p q : Fields} {tool : Text} {w w' : σ}
    (h : runToolCall b x p w = some (w', tool, q)) :
    strip tool ∈ writingToolNames ↔ strip (textOr p "name") ∈ writingToolNames := by
  rw [runToolCall] at h
  split_ifs at h
  obtain ⟨⟨hname, -⟩, d, content, rfl, -⟩ | ⟨rfl, -⟩ := redirected h
  · refine iff_of_true (strip_mem_writing (draftTool_mem d)) (strip_mem_writing ?_)
    simpa [writingToolNames] using hname
  · rfl

/-- The file of an edit is no part of its target. -/
theorem editHasTarget_editParams (x : NodeState) (filename : Text) (cfg : Fields) :
    editHasTarget (editParams x filename cfg) = editHasTarget (editParams x [] cfg) := by
  have hfield : ∀ key ∈ ["edits", "start_line", "old_text"],
      (editParams x filename cfg).field key = (editParams x [] cfg).field key := by
    intro key hkey
    simp only [List.mem_cons, List.not_mem_nil, or_false] at hkey
    refine PyDict.field_congr ?_
    rw [editParams, editParams, PyDict.get?_update, PyDict.get?_update]
    rcases hkey with rfl | rfl | rfl <;> rfl
  rw [editHasTarget, editHasTarget, textOr, textOr, hfield _ (by decide), hfield _ (by decide),
    hfield _ (by decide)]

theorem buildToolParams_edit {b : Backends σ} {x : NodeState} {q : Fields} {w w' : σ}
    (h : reached (buildToolParams b x editTool) w = some (w', q)) :
    ∃ filename, q = editParams x filename (toolCfg x editTool) := by
  have hedit : buildToolParams b x editTool = b.target x editTool (toolCfg x editTool) true >>=
      fun filename => pure (editParams x filename (toolCfg x editTool)) := rfl
  rw [hedit, reached_bind] at h
  obtain ⟨⟨w₁, filename⟩, -, h⟩ := Option.bind_eq_some_iff.1 h
  cases h
  exact ⟨filename, rfl⟩

/-- A staged call writes where its tool does; an edit without a target becomes a write. -/
theorem stagedCall_writes {u : Letters} {b : Backends σ} {x : NodeState} {tool name : Text} {p : Fields}
    {w w' : σ} (h : stagedCall b u x tool w = some (w', name, p)) :
    strip name ∈ writingToolNames ↔ StagedWriter x tool := by
  obtain ⟨w₁, w₂, q, hbuilt, hresolved⟩ := prepared_of_stagedCall h
  have htarget : tool = editTool → editHasTarget q = editHasTarget (editParams x [] (toolCfg x tool)) := by
    rintro rfl
    obtain ⟨filename, rfl⟩ := buildToolParams_edit hbuilt
    exact editHasTarget_editParams x filename _
  rw [StagedWriter]
  obtain ⟨hkeep, rfl, -⟩ | ⟨⟨hedit, hnone, hwriting⟩, rfl, -⟩ := resolved hresolved
  · refine ⟨.inl, ?_⟩
    rintro (hstrip | ⟨hedit, hnone, hwriting⟩)
    · exact hstrip
    · rw [← htarget hedit] at hnone
      rcases hkeep with hne | htarget | hoff
      · exact absurd hedit hne
      · exact absurd htarget hnone
      · exact absurd hwriting hoff
  · rw [htarget hedit] at hnone
    exact iff_of_true (by decide) (.inr ⟨hedit, hnone, hwriting⟩)

/-! ### The rounds -/

theorem noWriting_invoke_iff {reg : Registry σ} {tool role : Text} {p : Fields} {s : Logged σ Event} :
    (∀ e ∈ added (invokeToolWithGuards reg tool p role) s, NoWriting e) ↔ strip tool ∉ writingToolNames := by
  constructor
  · intro h
    refine h (.invoked (strip tool) p) ?_
    rw [added_invokeToolWithGuards]
    exact List.mem_cons_self
  · intro h e he
    rcases mem_added_invoke he with rfl | ⟨q, rfl, -⟩
    · exact h
    · trivial

theorem noWriting_directEvents {call : Text × Fields} :
    (∀ e ∈ directEvents call, NoWriting e) ↔ call.1 ∉ writingToolNames := by
  simp [directEvents, NoWriting]

theorem codeTool_not_mem (file : CodeTool) : file.name ∉ writingToolNames := by
  cases file <;> decide

theorem noWriting_runTool_iff {b : Backends σ} {x : NodeState} {p : Fields} {s : Logged σ Event} :
    (∀ e ∈ added (executeRunTool b x p) s, NoWriting e) ↔
      (strip (textOr p "name") ∈ writingToolNames → (runToolCall b x p s.world).isSome = false) := by
  rw [added_executeRunTool]
  cases hcall : runToolCall b x p s.world with
  | none => simp
  | some call =>
    obtain ⟨w, tool, q⟩ := call
    dsimp only
    rw [noWriting_invoke_iff, runToolCall_writes hcall]
    simp

theorem noWriting_artifact_iff {b : Backends σ} {x : NodeState} {a : Action} {s : Logged σ Event}
    (hty : a.type ∈ [.writeArtifact, .editArtifact, .readArtifact]) :
    (∀ e ∈ added (executeEntry b x a) s, NoWriting e) ↔
      (ActionWrites a → (artifactCall b x a s.world).isSome = false) := by
  rw [added_executeEntry_artifact b x s hty]
  cases hcall : artifactCall b x a s.world with
  | none => simp
  | some call =>
    dsimp only
    rw [noWriting_directEvents, artifactCall_writes hcall]
    simp

/-- ROUND: an action invokes no writing tool exactly when it does not write or comes to no call. -/
theorem noWriting_step_iff {b : Backends σ} {s : Logged (Exec σ) Event} (raw : Planned) :
    (∀ e ∈ added (Exec.step b raw) s, NoWriting e) ↔ ∀ a, raw.action = .ok a → ActionWrites a →
      comesToCall b s.world.current a s.world.world = false := by
  rw [added_step]
  cases hact : raw.action with
  | error e => exact iff_of_true (fun _ h => absurd h List.not_mem_nil) fun _ h => nomatch h
  | ok a =>
    have hone : (∀ a', Except.ok (ε := Raise) a = .ok a' → ActionWrites a' →
        comesToCall b s.world.current a' s.world.world = false) ↔
          (ActionWrites a → comesToCall b s.world.current a s.world.world = false) :=
      ⟨fun h => h a rfl, fun h _ heq => by cases heq; exact h⟩
    rw [hone]
    dsimp only
    rw [added_perform]
    cases hty : a.type with
    | answer | retrieve =>
      refine iff_of_true (fun _ h => absurd h List.not_mem_nil) fun h => absurd h ?_
      rw [ActionWrites, hty]
      exact not_false
    | runCode =>
      refine iff_of_true (forall_added_runEngineering b _ _ fun file => ?_) fun h => absurd h ?_
      · exact noWriting_directEvents.2 (codeTool_not_mem file.1)
      · rw [ActionWrites, hty]
        exact not_false
    | runTool =>
      have hentry : executeEntry b s.world.current a = executeRunTool b s.world.current a.params := by
        rw [executeEntry, hty]
      dsimp only
      rw [hentry, ActionWrites, comesToCall, hty]
      exact noWriting_runTool_iff (s := inner s)
    | writeArtifact | editArtifact | readArtifact =>
      have hcomes : comesToCall b s.world.current a s.world.world =
          (artifactCall b s.world.current a s.world.world).isSome := by
        rw [comesToCall, hty]
      dsimp only
      rw [hcomes]
      exact noWriting_artifact_iff (s := inner s) (by rw [hty]; decide)

theorem noWriting_stagedStep_iff {u : Letters} {b : Backends σ} {x : NodeState} {s : Logged σ Event}
    (tool : Text) : (∀ e ∈ added (stagedStep b u x tool) s, NoWriting e) ↔
      (StagedWriter x tool → stagedCall b u x tool s.world = none) := by
  rw [added_stagedStep]
  cases hcall : stagedCall b u x tool s.world with
  | none => simp
  | some call =>
    obtain ⟨w, name, p⟩ := call
    dsimp only
    rw [noWriting_invoke_iff, stagedCall_writes hcall]
    simp

/-! ### The audit and the node -/

/-- A correction that strips the writing tools binds the pass of the tool node after the audit. -/
def AuditBinds (cfg : Config) (judge : NodeState → Judgement) (resolve : NodeState → Resolution)
    (u : Letters) (b : Backends σ) (o : Order) (x : NodeState) (s : Logged σ Event) : Prop :=
  .stripWritingTools ∈ (auditPlannedRoute (judge x)).corrections →
    ∀ e ∈ added (toolExecutionNode b u o (runRouteAuditPipeline cfg judge resolve x)) s, NoWriting e

theorem selectedTools_correct {cfg : Config} {corrections : List Correction} {x : NodeState}
    (h : .stripWritingTools ∈ corrections) :
    (correct cfg corrections x).selectedTools = x.selectedTools.filter (· ∉ writingToolNames) := by
  rw [correct, if_pos h]
  split_ifs <;> rfl

/-- No mode but the one of engineering adds a tool to those selected. -/
theorem selectedTools_applyMode {cfg : Config} {mode : Text} {c : ModeContract} {x : NodeState}
    (hmode : mode ≠ "engineering_mode".toList) :
    ∀ t ∈ (applyMode cfg mode c x).tools, t ∈ x.selectedTools := by
  have hstrip : ∀ allowed, ∀ t ∈ stripToolsForMode x.selectedTools allowed, t ∈ x.selectedTools := by
    intro allowed t ht
    have ht := List.mem_of_mem_filter ht
    split_ifs at ht
    · exact ht
    · exact List.mem_of_mem_filter ht
  rw [applyMode, if_neg hmode, applyQaMode, applyManuscriptMode]
  split_ifs
  · exact hstrip _
  · exact fun t ht => List.mem_of_mem_filter ht
  · exact fun t ht => hstrip [] t (List.mem_of_mem_filter ht)
  · exact fun t ht => ht
  · exact hstrip _
  · exact fun t ht => ht

/-- The copy that the audit does bind: outside engineering, no writing tool is left among the selected. -/
theorem selectedTools_pipeline (cfg : Config) (judge : NodeState → Judgement)
    (resolve : NodeState → Resolution) {x : NodeState}
    (hstrip : .stripWritingTools ∈ (auditPlannedRoute (judge x)).corrections)
    (hmode : ∀ y, (resolve y).targetMode ≠ "engineering_mode".toList) :
    ∀ t ∈ (runRouteAuditPipeline cfg judge resolve x).selectedTools, t ∉ writingToolNames := by
  have hcorrected : ∀ t ∈ (applyRouteCorrections cfg (auditPlannedRoute (judge x))
      (withAudit (auditPlannedRoute (judge x)) x)).selectedTools, t ∉ writingToolNames := by
    rw [applyRouteCorrections, if_neg (not_or.2 ⟨issues_ne_nil hstrip, List.ne_nil_of_mem hstrip⟩)]
    intro t ht
    have ht' : t ∈ (correct cfg (auditPlannedRoute (judge x)).corrections
      (withAudit (auditPlannedRoute (judge x)) x)).selectedTools := ht
    rw [selectedTools_correct hstrip] at ht'
    exact of_decide_eq_true (List.mem_filter.1 ht').2
  have hbound : ∀ (r : Resolution) (y : NodeState), r.targetMode ≠ "engineering_mode".toList →
      (∀ t ∈ y.selectedTools, t ∉ writingToolNames) →
        ∀ t ∈ (applyModeContract cfg r y).selectedTools, t ∉ writingToolNames := by
    intro r y hr hy t ht
    rw [applyModeContract] at ht
    cases hc : r.contract with
    | none =>
      rw [hc] at ht
      exact hy t ht
    | some c =>
      rw [hc] at ht
      refine hy t ?_
      have hkept := selectedTools_applyMode hr t ht
      split_ifs at hkept <;> exact hkept
  intro t ht
  rw [runRouteAuditPipeline] at ht
  rw [if_neg (issues_ne_nil hstrip)] at ht
  exact hbound _ _ (hmode _) hcorrected t ht

/-- The corrections bind the node exactly when no other copy of the plan writes. -/
theorem auditBinds_iff (cfg : Config) (judge : NodeState → Judgement) (resolve : NodeState → Resolution)
    (u : Letters) (b : Backends σ) (o : Order) (x : NodeState) (s : Logged σ Event) :
    AuditBinds cfg judge resolve u b o x s ↔
      (.stripWritingTools ∈ (auditPlannedRoute (judge x)).corrections →
        CopiesAgree u b o x (runRouteAuditPipeline cfg judge resolve x) s) := by
  refine imp_congr_right fun _ => ?_
  have hsame := samePlan_pipeline cfg judge resolve x
  set y := runRouteAuditPipeline cfg judge resolve x
  have hplanned : hasPlannedActions y = hasPlannedActions x := by
    rw [hasPlannedActions, hasPlannedActions, hsame.plannedActions]
  have hstages : parseToolStages o y = parseToolStages o { x with selectedTools := y.selectedTools } := by
    rw [parseToolStages, parseToolStages, hsame.toolStages, hsame.toolDag]
  rw [added_toolExecutionNode, CopiesAgree, hplanned, hsame.plannedActions, toolsOf, ← hstages]
  split_ifs
  · rw [executeActions, forall_added_forEach (grows_step b)]
    exact Attempt.along_iff (I := fun _ => True) (fun s raw _ _ => noWriting_step_iff raw)
      (fun _ _ _ _ _ _ _ => trivial) trivial
  · rw [executeToolStages, forall_added_forEach (grows_stagedStep b u y)]
    exact Attempt.along_iff (I := fun _ => True) (fun s tool _ _ => noWriting_stagedStep_iff tool)
      (fun _ _ _ _ _ _ _ => trivial) trivial

/-- A plan that writes a chapter, with the tool for it selected. -/
def chapterPlan : NodeState where
  taskId := "t-1".toList
  plannedActions := [{ type := "write_artifact".toList,
                       params := PyDict.ofList [("filename".toList, .str "novel.txt".toList),
                         ("content".toList, .str "It was a dark night.".toList)] }]
  selectedTools := [writeTool]

/-- The audit of a retry that takes the route of writing. -/
def retryJudgement : Judgement where
  kind := "retry_recovery".toList
  plannedRoute := "writing_artifact".toList
  actions := ["disable_writing_force_reasoning".toList]

def plainConfig : Config where
  keepsName := fun _ => false
  codeName := fun _ => "main.cpp".toList

def qaResolution : Resolution where
  intentKind := "retry_recovery".toList
  targetMode := "qa_mode".toList
  contract := some { allowedTools := artifactTools }

/-- The audit strips the writing tools of a plan whose action is carried out by one. -/
theorem chapterPlan_not_bound : ¬ AuditBinds plainConfig (fun _ => retryJudgement) (fun _ => qaResolution)
    asciiLetters bareWorld .listed chapterPlan ⟨(), []⟩ := by
  intro h
  have hadded : ∃ p, added (toolExecutionNode bareWorld asciiLetters .listed (runRouteAuditPipeline plainConfig
      (fun _ => retryJudgement) (fun _ => qaResolution) chapterPlan)) ⟨(), []⟩ = directEvents (writeTool, p) :=
    ⟨_, rfl⟩
  obtain ⟨p, hadded⟩ := hadded
  have hall := h (by decide)
  rw [hadded, noWriting_directEvents] at hall
  exact hall (show writeTool ∈ writingToolNames by decide)

end AgentLangraph.Plan
