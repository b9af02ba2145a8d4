import AgentLangraph.Access.Turns
import AgentLangraph.Plan.Transport
import AgentLangraph.Tool.Confinement

/-! The role that the tools of a turn are checked under. The client may send it in the payload, where the
    role of the principal is only a default; a message goes by what is stored, and a skill by its own
    parameters.

        input_payload.user_role ── turn ── registry, guard, planner
                                    │
        params.user_role ───────────┴──── skill ── registry -/

namespace AgentLangraph.Access
open PyText Session Run Tool Logged
open AgentLangraph.Artifact (Raise ActionType DraftTool textOr writeTool appendTool editTool readTool)
open AgentLangraph.Plan (planningRole)

/-! ### The roles that are read -/

/-- Where a role stands in guest < user < admin; one that is none of them stands with the guests. -/
def rank (role : Text) : ℕ := (roleOrder role).getD 0

/-- The role that the guard goes by, for the one it is given. -/
def guardRole (role : Text) : Text := if role = [] then "user".toList else role

/-- The roles that the registry, the guard and the planner read off the state. -/
def toolRoles (x : NodeState) : List Text := [x.userRole, guardRole x.userRole, planningRole x]

/-- `str(params.get("user_role", "user"))`, the role that a skill is invoked under. -/
def skillRole (p : Fields) : Text := ((roleIn p).getD (.str "user".toList)).toText

/-- What is read where the payload has this for its role. -/
def readings (v : Option PyVal) : List Text :=
  let role := (v.getD (.str "user".toList)).toText
  [role, guardRole role, ((v.getD .none).orElse (.str "user".toList)).toText]

/-- No reading of the role ranks above the principal. -/
def Within (p : AuthPrincipal) (v : Option PyVal) : Prop := ∀ role ∈ readings v, rank role ≤ rank p.role

/-- The tools that hand their parameters on to a skill. -/
def skillTools (skills : List Text) : List Text := skills.map ("skill_".toList ++ ·)

/-- A skill is not invoked under a role that ranks above the principal. -/
def SkillBound (skills : List Text) (p : AuthPrincipal) (tool : Text) (q : Fields) : Prop :=
  tool ∈ skillTools skills → rank (skillRole q) ≤ rank p.role

theorem toolRoles_eq (x : NodeState) : toolRoles x = readings (roleIn x.payload) := rfl

/-- The level that the guard compares is the rank of the role that it goes by. -/
theorem actualLevel_eq (role : Text) : actualLevel role = rank (guardRole role) := rfl

/-- Every reading of a text is the text or what the guard makes of it. -/
theorem readings_str (role : Text) : readings (some (.str role)) = [role, guardRole role, guardRole role] := by
  cases role with
  | nil => rfl
  | cons c role => rfl

theorem within_str_iff {p : AuthPrincipal} {role : Text} :
    Within p (some (.str role)) ↔ rank role ≤ rank p.role ∧ rank (guardRole role) ≤ rank p.role := by
  rw [Within, readings_str]
  simp only [List.forall_mem_cons, List.not_mem_nil, false_imp_iff, implies_true, and_true, and_self]

/-- Without a role in the payload a user is assumed. -/
theorem within_none_iff {p : AuthPrincipal} : Within p none ↔ 1 ≤ rank p.role := by
  have hreadings : readings none = readings (some (.str "user".toList)) := rfl
  have huser : rank "user".toList = 1 := by decide
  rw [Within, hreadings]
  refine within_str_iff.trans ?_
  rw [guardRole, if_neg (by decide), and_self, huser]

/-- A principal has its own role, unless that is empty. -/
theorem within_own_iff {p : AuthPrincipal} : Within p (some (.str p.role)) ↔ p.role ≠ [] := by
  rw [within_str_iff, guardRole]
  split_ifs with h
  · have huser : ¬ rank "user".toList ≤ rank [] := by decide
    rw [h]
    exact iff_of_false (fun hranks => huser hranks.2) fun hne => hne rfl
  · exact iff_of_true ⟨le_rfl, le_rfl⟩ h

/-! ### One pass of the tool node -/

section
variable {σ : Type}

/-- The parameters carry no role that ranks above the principal. -/
def OwnRole (p : AuthPrincipal) (q : Fields) : Prop := rank (skillRole q) ≤ rank p.role

/-- An action of the planner that comes to a skill carries no such role. -/
def SkillAction (b : Backends σ) (skills : List Text) (p : AuthPrincipal) (s : Logged (Exec σ) Event)
    (raw : Planned) : Prop :=
  ∀ a, raw.action = .ok a → a.type = .runTool → ∀ w tool q spec,
    runToolCall b s.world.current a.params s.world.world = some (w, tool, q) →
      strip tool ∈ skillTools skills → Admits b.registry (strip tool) q s.world.current.userRole spec →
        OwnRole p a.params

/-- A tool of the stages that comes to a skill carries no such role. -/
def SkillTool (u : Letters) (b : Backends σ) (skills : List Text) (p : AuthPrincipal) (x : NodeState)
    (s : Logged σ Event) (tool : Text) : Prop :=
  ∀ w name q, stagedCall b u x tool s.world = some (w, name, q) → strip name ∈ skillTools skills →
    (∃ spec, Admits b.registry (strip name) q x.userRole spec) → OwnRole p (toolCfg x tool)

/-- Of the path that the node takes, no round that comes to a skill carries a role that ranks above the
    principal. -/
def SkillsWithin (u : Letters) (b : Backends σ) (o : Order) (skills : List Text) (p : AuthPrincipal)
    (x : NodeState) (s : Logged σ Event) : Prop :=
  if hasPlannedActions x then
    Attempt.Along (Exec.step b) (SkillAction b skills p) (Exec.start x s) x.plannedActions
  else Attempt.Along (stagedStep b u x) (SkillTool u b skills p x) s (stagedOrder o (parseToolStages o x))

variable {b : Backends σ} {skills : List Text} {p : AuthPrincipal}

theorem skillBound_alike {name : Text} {q q' : Fields} (h : Alike q q') :
    SkillBound skills p name q' ↔ SkillBound skills p name q := by
  rw [SkillBound, SkillBound, skillRole, skillRole, roleIn, h "user_role" (by decide), roleIn]

theorem prefix_of_mem_skillTools {tool : Text} (h : tool ∈ skillTools skills) :
    "skill_".toList <+: tool := by
  obtain ⟨skill, -, rfl⟩ := List.mem_map.1 h
  exact List.prefix_append _ _

/-- The tools that the executor calls itself are no skills. -/
theorem skillBound_fileTools {tool : Text} (h : tool ∈ fileTools) (q : Fields) : SkillBound skills p tool q := by
  have hplain : ∀ t ∈ fileTools, ¬ "skill_".toList <+: t := by decide
  exact fun hskill => absurd (prefix_of_mem_skillTools hskill) (hplain tool h)

theorem skillRole_runToolCall {x : NodeState} {tool : Text} {params q : Fields} {w w' : σ}
    (h : runToolCall b x params w = some (w', tool, q)) : skillRole q = skillRole params := by
  rw [runToolCall] at h
  split_ifs at h
  rw [skillRole, roleIn, get?_redirectRunTool (by decide) h, get?_withTask_ne _ _ (by decide),
    PyDict.get?_pop_ne _ (by decide), skillRole, roleIn]

/-- The tools of the stages whose parameters are not the ones they are configured with. -/
def shapedTools : List Text :=
  ["echo".toList, "summarize_text".toList, "calculator".toList, editTool, writeTool, appendTool, readTool,
    "verify_backend".toList]

theorem not_mem_shapedTools {tool : Text} (h : strip tool ∈ skillTools skills) : tool ∉ shapedTools := by
  have hplain : ∀ t ∈ shapedTools, ¬ "skill_".toList <+: strip t := by decide
  exact fun hmem => hplain tool hmem (prefix_of_mem_skillTools h)

theorem buildToolParams_plain {x : NodeState} {tool : Text} (h : tool ∉ shapedTools) :
    buildToolParams b x tool = pure (taskParams x (toolCfg x tool)) := by
  simp only [shapedTools, List.mem_cons, List.not_mem_nil, or_false, not_or] at h
  obtain ⟨hecho, hsummarize, hcalculator, hedit, hwrite, happend, hread, hverify⟩ := h
  rw [buildToolParams]
  dsimp only
  rw [if_neg hecho, if_neg hsummarize, if_neg hcalculator, if_neg hedit,
    if_neg (not_or.2 ⟨hwrite, not_or.2 ⟨happend, hread⟩⟩), if_neg hverify]

theorem skillRole_stagedCall {u : Letters} {x : NodeState} {tool name : Text} {q : Fields} {w w' : σ}
    (h : stagedCall b u x tool w = some (w', name, q)) (hskill : strip name ∈ skillTools skills) :
    skillRole q = skillRole (toolCfg x tool) := by
  obtain ⟨w₁, w₂, built, hbuilt, hsame, hname⟩ := built_of_stagedCall h
  have htool : tool ∉ shapedTools := by
    rcases hname with rfl | ⟨rfl, rfl⟩
    · exact not_mem_shapedTools hskill
    · exact absurd (by decide : writeTool ∈ shapedTools) (not_mem_shapedTools hskill)
  rw [buildToolParams_plain htool, reached_pure, Option.some.injEq, Prod.mk.injEq] at hbuilt
  rw [skillRole, roleIn, hsame "user_role" (by decide), ← hbuilt.2, taskParams, PyDict.get?_update]
  exact congrArg (fun v => (Option.getD v (PyVal.str "user".toList)).toText) Option.or_none

/-- ROUND: an action invokes no skill under a role that ranks too high exactly when it carries none where it
    comes to a skill. -/
theorem skillBound_step_iff {s : Logged (Exec σ) Event} (raw : Planned) :
    (∀ e ∈ added (Exec.step b raw) s, OnHandled (SkillBound skills p) e) ↔ SkillAction b skills p s raw := by
  rw [added_step, SkillAction]
  cases hact : raw.action with
  | error e => exact iff_of_true (fun _ h => absurd h List.not_mem_nil) fun _ h => nomatch h
  | ok a =>
    dsimp only
    rw [added_perform]
    cases hty : a.type with
    | answer | retrieve =>
      exact iff_of_true (fun _ h => absurd h List.not_mem_nil) fun a' heq hrun => by cases heq; cases hty ▸ hrun
    | runCode =>
      refine iff_of_true (forall_added_runEngineering b _ _ fun file => ?_)
        fun a' heq hrun => by cases heq; cases hty ▸ hrun
      refine onHandled_directEvents.2 (skillBound_fileTools ?_ _)
      cases file.1 <;> decide
    | runTool =>
      dsimp only
      have hentry : executeEntry b s.world.current a = executeRunTool b s.world.current a.params := by
        rw [executeEntry, hty]
      rw [hentry]
      cases hcall : runToolCall b s.world.current a.params s.world.world with
      | none =>
        rw [added_executeRunTool_none (s := inner s) hcall]
        refine iff_of_true (fun _ h => absurd h List.not_mem_nil) fun a' heq _ w tool q spec hcall' => ?_
        cases heq
        cases hcall.symm.trans hcall'
      | some call =>
        obtain ⟨w, tool, q⟩ := call
        rw [added_executeRunTool_some (s := inner s) hcall]
        rw [onHandled_invoke_iff (P := SkillBound skills p) skillBound_alike, SkillBound, skillRole_runToolCall hcall]
        constructor
        · rintro h a' heq - w' tool' q' spec hcall' hskill hadmits
          cases heq
          cases hcall.symm.trans hcall'
          exact h ⟨spec, hadmits⟩ hskill
        · rintro h ⟨spec, hadmits⟩ hskill
          exact h a rfl hty w tool q spec hcall hskill hadmits
    | writeArtifact | editArtifact | readArtifact =>
      refine iff_of_true ?_ fun a' heq hrun => by cases heq; cases hty ▸ hrun
      dsimp only
      rw [added_executeEntry_artifact b _ _ (by rw [hty]; decide)]
      cases hcall : artifactCall b s.world.current a (inner s).world with
      | none => exact fun _ h => absurd h List.not_mem_nil
      | some call =>
        refine onHandled_directEvents.2 (skillBound_fileTools ?_ _)
        exact (List.append_nil fileTools) ▸ mem_directoryTools_of_artifactCall [] hcall

/-- ROUND: the same of a staged tool. -/
theorem skillBound_stagedStep_iff {u : Letters} {x : NodeState} {s : Logged σ Event} (tool : Text) :
    (∀ e ∈ added (stagedStep b u x tool) s, OnHandled (SkillBound skills p) e) ↔
      SkillTool u b skills p x s tool := by
  rw [added_stagedStep, SkillTool]
  cases hcall : stagedCall b u x tool s.world with
  | none => exact iff_of_true (fun _ h => absurd h List.not_mem_nil) fun _ _ _ h => nomatch h
  | some call =>
    obtain ⟨w, name, q⟩ := call
    dsimp only
    rw [onHandled_invoke_iff (P := SkillBound skills p) skillBound_alike]
    constructor
    · rintro h w' name' q' heq hskill hadmits
      cases heq
      have hrank := h hadmits hskill
      rwa [skillRole_stagedCall hcall hskill] at hrank
    · rintro h hadmits hskill
      rw [skillRole_stagedCall hcall hskill]
      exact h w name q rfl hskill hadmits

/-- PASS: the node invokes no skill under a role that ranks too high exactly when, on the path that it takes,
    no round carries one to a skill. -/
theorem skillBound_node_iff (u : Letters) (b : Backends σ) (o : Order) (skills : List Text) (p : AuthPrincipal)
    (x : NodeState) (s : Logged σ Event) :
    (∀ e ∈ added (toolExecutionNode b u o x) s, OnHandled (SkillBound skills p) e) ↔
      SkillsWithin u b o skills p x s := by
  rw [added_toolExecutionNode, SkillsWithin]
  split_ifs
  · rw [executeActions, forall_added_forEach (grows_step b)]
    exact Attempt.along_iff (I := fun _ => True) (fun s raw _ _ => skillBound_step_iff raw)
      (fun _ _ _ _ _ _ _ => trivial) trivial
  · rw [executeToolStages, forall_added_forEach (grows_stagedStep b u x)]
    exact Attempt.along_iff (I := fun _ => True) (fun s tool _ _ => skillBound_stagedStep_iff tool)
      (fun _ _ _ _ _ _ _ => trivial) trivial

end

end AgentLangraph.Access
