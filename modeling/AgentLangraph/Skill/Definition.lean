import AgentLangraph.Lib.PyVal

/-! Skill definitions (`skill_models.py`) and what is checked of them before they are published
    (`skill_validator.py`). -/

namespace AgentLangraph.Skill
open PyText

inductive SkillStatus
  | draft | published | disabled | deprecated | archived
  deriving DecidableEq

/-- What a definition says, apart from its version and its state; `others` holds the fields that nothing
    here reads. -/
structure SkillContent where
  skillId : Text
  name : Text
  baseDomain : Text := "single_turn".toList
  preferredExecutionMode : Text := "single".toList
  allowedTools : List Text := []
  blockedTools : List Text := []
  planningOverlay : Text := []
  reasoningOverlay : Text := []
  reflectionOverlay : Text := []
  pluginRef : Option Text := none
  others : Fields := PyDict.empty
  deriving DecidableEq

/-- `SkillDefinition`. -/
structure SkillDefinition where
  content : SkillContent
  version : Text := "1.0.0".toList
  status : SkillStatus := .published
  enabled : Bool := true
  deriving DecidableEq

/-- `_MAX_OVERLAY_CHARS`. -/
def maxOverlayChars : ℕ := 16000

def requiredIssue (fieldName : String) (text : Text) : List Text :=
  if strip text = [] then [fieldName.toList ++ " is required".toList] else []

def overlayIssue (fieldName : String) (text : Text) : List Text :=
  if maxOverlayChars < text.length then
    [fieldName.toList ++ " exceeds ".toList ++ (toString maxOverlayChars).toList ++ " characters".toList]
  else []

def unknownToolIssues (fieldName : String) (known tools : List Text) : List Text :=
  (tools.filter (· ∉ known)).map fun tool =>
    fieldName.toList ++ ": unknown tool '".toList ++ tool ++ "'".toList

/-- `validate_skill_definition`, for an output contract that is an object, as the schema wants it. -/
def validateSkillDefinition (knownTools : List Text) (c : SkillContent) : List Text :=
  requiredIssue "skill_id" c.skillId ++ requiredIssue "name" c.name ++
    overlayIssue "planning_overlay" c.planningOverlay ++
    overlayIssue "reasoning_overlay" c.reasoningOverlay ++
    overlayIssue "reflection_overlay" c.reflectionOverlay ++
    unknownToolIssues "allowed_tools" knownTools c.allowedTools ++
    unknownToolIssues "blocked_tools" knownTools c.blockedTools

end AgentLangraph.Skill
