import AgentLangraph.Skill.Definition
import AgentLangraph.Skill.Selection

/-! The tool policy of a skill, from its definition to the tools that a plan is offered
    (`skill_runtime_policy.py`, `skill_task_attach.py`). Each filter on the way takes an empty list for no
    restriction.

        allowed_tools ── known? ──▶ policy ── blocked? ──▶ allowlist ── pack ──▶ selection -/

namespace AgentLangraph.Skill
open PyText Ranked

/-- `SkillRuntimePolicy`, as far as the tools go. -/
structure SkillRuntimePolicy where
  skillId : Text
  version : Text
  resolvedDomain : Text
  resolvedExecutionModeHint : Text
  resolvedToolAllowlist : List Text
  resolvedToolBlocklist : List Text
  resolvedPluginHooks : List Text
  deriving DecidableEq

/-- `apply_trusted_hooks`; `hooks` is what the hooks that are registered make of a policy. -/
def applyTrustedHooks (hooks : SkillRuntimePolicy → SkillRuntimePolicy) (policy : SkillRuntimePolicy) :
    SkillRuntimePolicy :=
  if policy.resolvedPluginHooks = [] then policy else hooks policy

/-- `a or b`, of texts. -/
def textOr (a b : Text) : Text := if a = [] then b else a

/-- `build_runtime_policy`. -/
def buildRuntimePolicy (a : Alphabet) (hooks : SkillRuntimePolicy → SkillRuntimePolicy) (reg : ToolRegistry)
    (definition : SkillDefinition) (domainOverride : Option Text) : SkillRuntimePolicy :=
  let c := definition.content
  let allowlist := c.allowedTools
  applyTrustedHooks hooks
    { skillId := c.skillId
      version := definition.version
      resolvedDomain :=
        a.lower (textOr (textOr (domainOverride.getD []) c.baseDomain) "single_turn".toList)
      resolvedExecutionModeHint := textOr c.preferredExecutionMode "single".toList
      resolvedToolAllowlist := if allowlist = [] then [] else allowlist.filter (· ∈ reg.listTools)
      resolvedToolBlocklist := c.blockedTools
      resolvedPluginHooks := (c.pluginRef.filter (· ≠ [])).toList }

/-- `skill_tool_allowlist_from_state`, for the policy that the state holds. -/
def skillToolAllowlistFromState (policy : Option SkillRuntimePolicy) : Option (List Text) :=
  match policy with
  | none => none
  | some policy =>
    if policy.resolvedToolAllowlist = [] then none
    else
      let filtered := policy.resolvedToolAllowlist.filter (· ∉ policy.resolvedToolBlocklist)
      if filtered = [] then none else some filtered

/-- `merge_domain_pack_tools_with_skill`. -/
def mergeDomainPackToolsWithSkill (packTools skillTools : Option (List Text)) : Option (List Text) :=
  match skillTools.filter (· ≠ []), packTools.filter (· ≠ []) with
  | none, _ => packTools
  | some skill, none => some skill
  | some skill, some pack =>
    let merged := pack.filter (· ∈ skill)
    some (if merged = [] then skill else merged)

/-- The names of the tools that a plan is offered for a task with the skill. -/
def offeredTools (a : Alphabet) (F : Type) [PyFloat F] (planningToolTopK : ℕ) (reg : ToolRegistry)
    (policy : SkillRuntimePolicy) (pack : Option (List Text)) (goal domain riskLevel : Text)
    (toolTopK : Option ℕ) : List Text :=
  (buildRuntimeCapabilities a F planningToolTopK reg goal domain riskLevel toolTopK
    (mergeDomainPackToolsWithSkill pack (skillToolAllowlistFromState (some policy)))).registeredTools.map
    ShownTool.name

/-- The policy of the definition is not widened. -/
def PolicyKept (c : SkillContent) (offered : List Text) : Prop :=
  ∀ tool ∈ offered, (c.allowedTools ≠ [] → tool ∈ c.allowedTools) ∧ tool ∉ c.blockedTools

/-- The allowed tools that there are and that are not blocked. -/
def usableTools (reg : ToolRegistry) (c : SkillContent) : List Text :=
  c.allowedTools.filter fun tool => tool ∈ reg.listTools ∧ tool ∉ c.blockedTools

/-- What it takes that no filter leaves nothing: with tools to use, one of them suits the pack and the risk, or
    the first of the registry are such tools; with none to use, there is no list of allowed tools, and the
    blocked ones are left out for other reasons. -/
def FiltersLeaveSome (a : Alphabet) (F : Type) [PyFloat F] (reg : ToolRegistry) (c : SkillContent)
    (pack : Option (List Text)) (goal domain riskLevel : Text) (topK : ℕ) : Prop :=
  if usableTools reg c ≠ [] then
    candidates a reg riskLevel (mergeDomainPackToolsWithSkill pack (some (usableTools reg c))) ≠ [] ∨
      ∀ spec ∈ reg.tools, rank ToolSpec.name reg.tools spec < topK → spec.name ∈ usableTools reg c
  else if c.allowedTools ≠ [] then reg.tools = []
  else ∀ spec ∈ reg.tools, spec.name ∈ c.blockedTools → LeftOut a F reg goal domain riskLevel topK pack spec

/-! ### The filters -/

variable {a : Alphabet} {F : Type} [PyFloat F] {reg : ToolRegistry} {definition : SkillDefinition}
  {c : SkillContent}

/-- Without a hook, the policy has the allowed tools that are known, and the blocked ones. -/
theorem buildRuntimePolicy_tools (a : Alphabet) (reg : ToolRegistry)
    (hooks : SkillRuntimePolicy → SkillRuntimePolicy) (domainOverride : Option Text)
    (hhook : definition.content.pluginRef.getD [] = []) :
    (buildRuntimePolicy a hooks reg definition domainOverride).resolvedToolAllowlist =
        definition.content.allowedTools.filter (· ∈ reg.listTools) ∧
      (buildRuntimePolicy a hooks reg definition domainOverride).resolvedToolBlocklist =
        definition.content.blockedTools := by
  have hnone : (definition.content.pluginRef.filter (· ≠ [])).toList = [] := by
    cases hp : definition.content.pluginRef with
    | none => rfl
    | some ref =>
      rw [hp, Option.getD_some] at hhook
      simp [Option.filter, hhook]
  rw [buildRuntimePolicy, applyTrustedHooks, if_pos hnone]
  refine ⟨?_, rfl⟩
  by_cases h : definition.content.allowedTools = []
  · simp [h]
  · simp [h]

/-- The allowlist of the task is then the tools to use, or nothing. -/
theorem allowlist_of_definition (hooks : SkillRuntimePolicy → SkillRuntimePolicy)
    (domainOverride : Option Text) (hhook : definition.content.pluginRef.getD [] = []) :
    skillToolAllowlistFromState (some (buildRuntimePolicy a hooks reg definition domainOverride)) =
      if usableTools reg definition.content = [] then none
      else some (usableTools reg definition.content) := by
  obtain ⟨hallow, hblock⟩ := buildRuntimePolicy_tools a reg hooks domainOverride hhook
  have husable : usableTools reg definition.content =
      (definition.content.allowedTools.filter (· ∈ reg.listTools)).filter
        (· ∉ definition.content.blockedTools) := by
    rw [usableTools, List.filter_filter]
    simp [and_comm]
  simp only [skillToolAllowlistFromState, hallow, hblock, husable]
  by_cases h : definition.content.allowedTools.filter (· ∈ reg.listTools) = []
  · rw [if_pos h, h, List.filter_nil, if_pos rfl]
  · rw [if_neg h]

theorem merge_none (pack : Option (List Text)) : mergeDomainPackToolsWithSkill pack none = pack := rfl

/-- With tools to use, the pack only ever narrows them. -/
theorem merge_some (pack : Option (List Text)) {skill : List Text} (h : skill ≠ []) :
    ∃ l, mergeDomainPackToolsWithSkill pack (some skill) = some l ∧ l ≠ [] ∧ l ⊆ skill := by
  have hskill : (some skill).filter (· ≠ []) = some skill := by simp [Option.filter, h]
  rw [mergeDomainPackToolsWithSkill, hskill]
  cases pack.filter (· ≠ []) with
  | none => exact ⟨skill, rfl, h, List.Subset.refl _⟩
  | some p =>
    dsimp only
    split_ifs with hmerged
    · exact ⟨skill, rfl, h, List.Subset.refl _⟩
    · exact ⟨_, rfl, hmerged, fun t ht => by simpa using (List.mem_filter.1 ht).2⟩

theorem mem_usableTools {tool : Text} : tool ∈ usableTools reg c ↔
    tool ∈ c.allowedTools ∧ (∃ spec ∈ reg.tools, spec.name = tool) ∧ tool ∉ c.blockedTools := by
  simp [usableTools, mem_listTools]

/-! ### What is offered -/

theorem policyKept_iff_shown {planningToolTopK : ℕ} {policy : SkillRuntimePolicy}
    {pack : Option (List Text)} {goal domain riskLevel : Text} {toolTopK : Option ℕ} :
    PolicyKept c (offeredTools a F planningToolTopK reg policy pack goal domain riskLevel toolTopK) ↔
      ∀ spec ∈ shownTools a F reg goal domain riskLevel (toolTopK.getD planningToolTopK)
          (mergeDomainPackToolsWithSkill pack (skillToolAllowlistFromState (some policy))),
        (c.allowedTools ≠ [] → spec.name ∈ c.allowedTools) ∧ spec.name ∉ c.blockedTools := by
  simp [PolicyKept, offeredTools, buildRuntimeCapabilities, formatTool]

/-- A tool of the registry that the definition permits is one to use, if any tool is allowed by name. -/
theorem permitted_iff_usable (hallowed : c.allowedTools ≠ []) {spec : ToolSpec} (h : spec ∈ reg.tools) :
    ((c.allowedTools ≠ [] → spec.name ∈ c.allowedTools) ∧ spec.name ∉ c.blockedTools) ↔
      spec.name ∈ usableTools reg c := by
  have hknown : ∃ other ∈ reg.tools, other.name = spec.name := ⟨spec, h, rfl⟩
  simp [mem_usableTools, hallowed, hknown]

theorem allowed_ne_nil (h : usableTools reg c ≠ []) : c.allowedTools ≠ [] := by
  intro hnil
  rw [usableTools, hnil] at h
  exact h rfl

/-- With tools to use. -/
theorem kept_of_usable {goal domain riskLevel : Text} {topK : ℕ} {pack : Option (List Text)}
    (h : usableTools reg c ≠ []) :
    (∀ spec ∈ shownTools a F reg goal domain riskLevel topK
        (mergeDomainPackToolsWithSkill pack (some (usableTools reg c))),
      (c.allowedTools ≠ [] → spec.name ∈ c.allowedTools) ∧ spec.name ∉ c.blockedTools) ↔
    (candidates a reg riskLevel (mergeDomainPackToolsWithSkill pack (some (usableTools reg c))) ≠ [] ∨
      ∀ spec ∈ reg.tools, rank ToolSpec.name reg.tools spec < topK → spec.name ∈ usableTools reg c) := by
  obtain ⟨l, hl, hne, hsub⟩ := merge_some pack h
  have hnarrow : narrows goal domain (some l) = true := by simp [narrows, hne]
  rw [hl]
  by_cases hnone : candidates a reg riskLevel (some l) = []
  · rw [or_iff_right (not_not.2 hnone)]
    refine forall_congr' fun spec => ?_
    rw [mem_shownTools, LeftOut, if_pos hnone, hnarrow, and_imp]
    refine imp_congr_right fun hspec => ?_
    rw [permitted_iff_usable (allowed_ne_nil h) hspec]
    simp
  · refine iff_of_true (fun spec hspec => ?_) (Or.inl hnone)
    rw [mem_shownTools, LeftOut, if_neg hnone] at hspec
    obtain ⟨hmem, hshown⟩ := hspec
    rw [permitted_iff_usable (allowed_ne_nil h) hmem]
    have hcand : spec ∈ candidates a reg riskLevel (some l) := by
      by_contra hout
      exact hshown ⟨hnarrow, Or.inl hout⟩
    rcases (mem_candidates.1 hcand).2.1 with hnil | hin
    · exact absurd hnil hne
    · exact hsub hin

/-- Without tools to use, though some are allowed. -/
theorem kept_of_none_usable {goal domain riskLevel : Text} {topK : ℕ} {pack : Option (List Text)}
    (h : usableTools reg c = []) (hallowed : c.allowedTools ≠ []) (hk : 1 ≤ topK) :
    (∀ spec ∈ shownTools a F reg goal domain riskLevel topK pack,
      (c.allowedTools ≠ [] → spec.name ∈ c.allowedTools) ∧ spec.name ∉ c.blockedTools) ↔ reg.tools = [] := by
  have hnil : shownTools a F reg goal domain riskLevel topK pack = [] ↔ reg.tools = [] :=
    shownTools_eq_nil_iff hk
  rw [← hnil, List.eq_nil_iff_forall_not_mem]
  refine forall₂_congr fun spec hspec => ?_
  rw [permitted_iff_usable hallowed (mem_shownTools.1 hspec).1, h]
  simp

/-- NOT CORRECT: a filter that leaves nothing lets every tool through again, and the blocklist is not passed on
    where there is no list of allowed tools. The policy of a skill is kept exactly when neither happens, or when
    the tools that are offered then happen to be permitted. -/
theorem policy_kept_iff (a : Alphabet) (F : Type) [PyFloat F]
    (hooks : SkillRuntimePolicy → SkillRuntimePolicy) (planningToolTopK : ℕ) (reg : ToolRegistry)
    (definition : SkillDefinition) (domainOverride : Option Text) (pack : Option (List Text))
    (goal domain riskLevel : Text) (toolTopK : Option ℕ)
    (hhook : definition.content.pluginRef.getD [] = []) (hk : 1 ≤ toolTopK.getD planningToolTopK) :
    PolicyKept definition.content (offeredTools a F planningToolTopK reg
        (buildRuntimePolicy a hooks reg definition domainOverride) pack goal domain riskLevel toolTopK) ↔
      FiltersLeaveSome a F reg definition.content pack goal domain riskLevel
        (toolTopK.getD planningToolTopK) := by
  rw [policyKept_iff_shown, allowlist_of_definition hooks domainOverride hhook, FiltersLeaveSome]
  by_cases husable : usableTools reg definition.content = []
  · rw [if_pos husable, if_neg (not_not.2 husable), merge_none]
    by_cases hallowed : definition.content.allowedTools = []
    · rw [if_neg (not_not.2 hallowed)]
      refine forall_congr' fun spec => ?_
      rw [mem_shownTools, and_imp]
      refine imp_congr_right fun _ => ?_
      simp only [hallowed, ne_eq, not_true_eq_false, false_imp_iff, true_and]
      exact not_imp_not
    · rw [if_pos hallowed]
      exact kept_of_none_usable husable hallowed hk
  · rw [if_neg husable, if_pos husable]
    exact kept_of_usable husable

def asciiAlphabet : Alphabet where
  isToken c := c.isAlphanum || c == '_'
  lower t := t.map Char.toLower
  upper t := t.map Char.toUpper

/-- Two of the tools. -/
def smallRegistry : ToolRegistry where
  tools := [⟨"calculator".toList, "Evaluate an arithmetic expression".toList, "LOW".toList⟩,
    ⟨"http_get".toList, "Fetch a page".toList, "MEDIUM".toList⟩]
  names_nodup := by decide +kernel

/-- A skill for letters, with its allowed and its blocked tools. -/
def letters (allowedTools blockedTools : List Text) : SkillDefinition where
  content :=
    { skillId := "letters".toList, name := "Letters".toList, allowedTools := allowedTools
      blockedTools := blockedTools }

/-- A tool that the skill blocks is offered. -/
theorem blocked_tool_offered :
    ¬ PolicyKept (letters [] ["calculator".toList]).content (offeredTools asciiAlphabet ℚ 10 smallRegistry
      (buildRuntimePolicy asciiAlphabet id smallRegistry (letters [] ["calculator".toList]) none) none
      "Write a letter".toList [] "LOW".toList none) := by
  intro h
  exact (h "calculator".toList (by decide +kernel)).2 (.head _)

/-- A skill with an allowed tool that suits the risk is offered that one. -/
theorem allowed_tool_kept :
    PolicyKept (letters ["http_get".toList] []).content (offeredTools asciiAlphabet ℚ 10 smallRegistry
      (buildRuntimePolicy asciiAlphabet id smallRegistry (letters ["http_get".toList] []) none) none
      "Write a letter".toList [] "LOW".toList none) := by
  refine (policy_kept_iff asciiAlphabet ℚ id 10 smallRegistry (letters ["http_get".toList] []) none none
    "Write a letter".toList [] "LOW".toList none rfl (by decide)).2 ?_
  rw [FiltersLeaveSome, if_pos (by decide +kernel)]
  exact Or.inl (by decide +kernel)

end AgentLangraph.Skill
