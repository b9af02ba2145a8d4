import AgentLangraph.Tool.Registry

/-! The guard of the staged pipeline (`tool_intent_guard.py`). It collects what is wrong with a call: a
    role that ranks too low, a tool of high risk, a marker of an injected prompt, a path that leads out
    of the directory of the task. A call is safe where nothing is. -/

namespace AgentLangraph.Tool
open PyText Logged
open AgentLangraph.Artifact (Raise Entry textOr)

/-- `str.lower` and `str.upper`. -/
structure Letters where
  lower : Text → Text
  upper : Text → Text

/-- The letters of ASCII. -/
def asciiLetters : Letters := ⟨List.map Char.toLower, List.map Char.toUpper⟩

/-- `INJECTION_MARKERS`. -/
def injectionMarkers : List Text :=
  ["ignore previous instructions".toList, "忽略之前的指令".toList, "system prompt".toList,
    "你是一个".toList, "assistant:".toList, "<|im_start|>".toList, "disregard all".toList,
    "forget your instructions".toList]

/-- `_HIGH_RISK_TOOLS`. -/
def highRiskTools : List Text := ["rm_path".toList]

variable {σ : Type} (u : Letters)

/-- `_ROLE_ORDER.get(str(spec.required_role or "user"), 1)`. -/
def requiredLevel (spec : ToolSpec σ) : ℕ :=
  (roleOrder (if spec.requiredRole = [] then "user".toList else spec.requiredRole)).getD 1

/-- `_ROLE_ORDER.get(str(user_role or "user"), 0)`. -/
def actualLevel (role : Text) : ℕ := (roleOrder (if role = [] then "user".toList else role)).getD 0

def permissionIssues (tool : Text) (spec : ToolSpec σ) (role : Text) : List Text :=
  if actualLevel role < requiredLevel spec then
    ["permission_denied: role '".toList ++ role ++ "' cannot invoke '".toList ++ tool ++
      "' (requires ".toList ++ spec.requiredRole ++ ")".toList]
  else []

/-- `tool_risk in ("HIGH", "CRITICAL")`. -/
def highRisk (spec : ToolSpec σ) : Bool :=
  u.upper (if spec.riskLevel = [] then "LOW".toList else spec.riskLevel) ∈
    ["HIGH".toList, "CRITICAL".toList]

def riskIssues (tool : Text) (spec : ToolSpec σ) (role : Text) : List Text :=
  if highRisk u spec ∧ actualLevel role < 2 then
    ["high_risk_tool: '".toList ++ tool ++ "' requires admin or human review".toList]
  else []

/-- The markers in a text that is in lower case. -/
def markersIn (text : Text) : List Text := injectionMarkers.filter fun m => contains text (u.lower m)

def goalIssues (tool goal : Text) : List Text :=
  if tool ∈ highRiskTools then
    (markersIn u (u.lower goal)).map fun m =>
      "injection_marker_in_goal_for_".toList ++ tool ++ ": ".toList ++ m
  else []

/-- The key of a parameter names a path or a file. -/
def namesPath (key : Text) : Bool :=
  contains (u.lower key) "path".toList || contains (u.lower key) "file".toList

/-- Where a path leads out of the directory of the task: up, or to an absolute place beside `/tmp`. -/
def pathIssues (tool key raw : Text) : List Text :=
  if contains raw "..".toList then
    ["path_escape_in_".toList ++ tool ++ ".".toList ++ key ++ ": ".toList ++ raw]
  else if startswith raw "/".toList ∧ ¬ startswith raw "/tmp".toList then
    ["absolute_path_in_".toList ++ tool ++ ".".toList ++ key ++ ": ".toList ++ raw]
  else []

def paramIssues (tool key : Text) (value : PyVal) : List Text :=
  (markersIn u (u.lower value.toText)).map (fun m =>
    "injection_marker_in_".toList ++ tool ++ ".".toList ++ key ++ ": ".toList ++ m) ++
  if namesPath u key then pathIssues tool key value.toText else []

/-- `check_tool_params_safe`, the list of issues. -/
def checkToolParamsSafe (tool : Text) (params : Fields) (spec : ToolSpec σ) (goal role : Text) :
    List Text :=
  permissionIssues tool spec role ++ riskIssues u tool spec role ++ goalIssues u tool goal ++
    params.entries.flatMap fun kv => paramIssues u tool kv.1 kv.2

/-- Nothing but the role is asked for: the risk of the tool, its goal and its parameters are in order. -/
structure Harmless (tool : Text) (params : Fields) (spec : ToolSpec σ) (goal role : Text) : Prop where
  /-- A tool of high risk is used by an admin. -/
  risk : highRisk u spec → 2 ≤ actualLevel role
  goal : tool ∈ highRiskTools → ∀ m ∈ injectionMarkers, ¬ contains (u.lower goal) (u.lower m)
  markers : ∀ kv ∈ params.entries, ∀ m ∈ injectionMarkers, ¬ contains (u.lower kv.2.toText) (u.lower m)
  paths : ∀ kv ∈ params.entries, namesPath u kv.1 → ¬ contains kv.2.toText "..".toList ∧
    (startswith kv.2.toText "/".toList → startswith kv.2.toText "/tmp".toList)

variable {u}

theorem markersIn_eq_nil_iff {text : Text} :
    markersIn u text = [] ↔ ∀ m ∈ injectionMarkers, ¬ contains text (u.lower m) :=
  List.filter_eq_nil_iff

theorem pathIssues_eq_nil_iff {tool key raw : Text} : pathIssues tool key raw = [] ↔
    ¬ contains raw "..".toList ∧ (startswith raw "/".toList → startswith raw "/tmp".toList) := by
  rw [pathIssues]
  split_ifs with hup habs
  · exact iff_of_false not_false fun h => h.1 hup
  · exact iff_of_false not_false fun h => habs.2 (h.2 habs.1)
  · exact iff_of_true rfl ⟨hup, fun hroot => not_not.1 fun htmp => habs ⟨hroot, htmp⟩⟩

theorem paramIssues_eq_nil_iff {tool key : Text} {value : PyVal} : paramIssues u tool key value = [] ↔
    (∀ m ∈ injectionMarkers, ¬ contains (u.lower value.toText) (u.lower m)) ∧
      (namesPath u key → ¬ contains value.toText "..".toList ∧
        (startswith value.toText "/".toList → startswith value.toText "/tmp".toList)) := by
  rw [paramIssues, List.append_eq_nil_iff, List.map_eq_nil_iff, markersIn_eq_nil_iff]
  refine and_congr_right fun _ => ?_
  split_ifs with hpath
  · rw [pathIssues_eq_nil_iff]
    simp [hpath]
  · simp [hpath]

/-- A call is safe where the role is high enough and nothing else is wrong with it. -/
theorem safe_iff {tool goal role : Text} {params : Fields} {spec : ToolSpec σ} :
    checkToolParamsSafe u tool params spec goal role = [] ↔
      requiredLevel spec ≤ actualLevel role ∧ Harmless u tool params spec goal role := by
  have hperm : permissionIssues tool spec role = [] ↔ requiredLevel spec ≤ actualLevel role := by
    rw [permissionIssues]
    split_ifs with h
    · exact iff_of_false not_false (not_le.2 h)
    · exact iff_of_true rfl (not_lt.1 h)
  have hrisk : riskIssues u tool spec role = [] ↔ (highRisk u spec → 2 ≤ actualLevel role) := by
    rw [riskIssues]
    split_ifs with h
    · exact iff_of_false not_false fun himp => absurd (himp h.1) (not_le.2 h.2)
    · exact iff_of_true rfl fun hhigh => not_lt.1 fun hlow => h ⟨hhigh, hlow⟩
  have hgoal : goalIssues u tool goal = [] ↔
      (tool ∈ highRiskTools → ∀ m ∈ injectionMarkers, ¬ contains (u.lower goal) (u.lower m)) := by
    rw [goalIssues]
    split_ifs with h
    · rw [List.map_eq_nil_iff, markersIn_eq_nil_iff]
      exact ⟨fun hm _ => hm, fun hm => hm h⟩
    · simp [h]
  simp only [checkToolParamsSafe, List.append_eq_nil_iff, hperm, hrisk, hgoal, List.flatMap_eq_nil_iff,
    paramIssues_eq_nil_iff]
  constructor
  · rintro ⟨⟨⟨hp, hr⟩, hg⟩, hall⟩
    exact ⟨hp, hr, hg, fun kv hkv => (hall kv hkv).1, fun kv hkv => (hall kv hkv).2⟩
  · rintro ⟨hp, hr, hg, hmarkers, hpaths⟩
    exact ⟨⟨⟨hp, hr⟩, hg⟩, fun kv hkv => ⟨hmarkers kv hkv, hpaths kv hkv⟩⟩

/-- The registry never lets through a role that ranks too low for the guard. -/
theorem requiredLevel_le_of_checkPermission {spec : ToolSpec σ} {role : Text}
    (h : checkPermission spec role) : requiredLevel spec ≤ actualLevel role := by
  have hreg : (roleOrder spec.requiredRole).getD 1 ≤ (roleOrder role).getD 0 := of_decide_eq_true h
  have hrequired : requiredLevel spec = (roleOrder spec.requiredRole).getD 1 := by
    rw [requiredLevel]
    split_ifs with hnil
    · rw [hnil]
      rfl
    · rfl
  have hactual : (roleOrder role).getD 0 ≤ actualLevel role := by
    rw [actualLevel]
    split_ifs with hnil
    · rw [hnil]
      decide
    · exact le_rfl
  rw [hrequired]
  exact hreg.trans hactual

end AgentLangraph.Tool
