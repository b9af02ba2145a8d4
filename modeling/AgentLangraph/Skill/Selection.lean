import AgentLangraph.Lib.PyFloat
import AgentLangraph.Lib.PyText
import AgentLangraph.Lib.Ranked
import Mathlib.Data.Char
import Mathlib.Data.List.Lex
import Mathlib.Data.List.Dedup
import Mathlib.Data.Prod.Lex

/-! The tools that a plan is offered (`tool_selection.py`, `runtime_capabilities.py`). Tools are filtered by
    name and by risk, scored against the goal, and cut to the best; where the filters leave none, the first of
    the whole registry are offered.

        registry ── blocked? allowed? risk? ──▶ scored ── sort, cut ──▶ offered
            └────────────── none left ── cut ─────────────────────────────▲ -/

namespace AgentLangraph.Skill
open PyText Ranked

/-- What the interpreter knows of characters. -/
structure Alphabet where
  /-- A character of `_TOKEN_RE`, in either case. -/
  isToken : Char → Bool
  lower : Text → Text
  upper : Text → Text

/-- What is read of a `ToolSpec` here. -/
structure ToolSpec where
  name : Text
  description : Text := []
  riskLevel : Text := "LOW".toList
  deriving DecidableEq

/-- `ToolRegistry`, which holds its tools by their names. -/
structure ToolRegistry where
  tools : List ToolSpec
  names_nodup : (tools.map ToolSpec.name).Nodup

/-- The tools in the order of `list_tools`. -/
def ToolRegistry.listed (reg : ToolRegistry) : List ToolSpec := sortBy ToolSpec.name reg.tools

def ToolRegistry.listTools (reg : ToolRegistry) : List Text := reg.listed.map ToolSpec.name

/-! ### Scores and risks -/

variable (a : Alphabet)

/-- `_tokenize`. -/
def tokenize (text : Text) : List Text :=
  (((text.splitOnP (!a.isToken ·)).filter (2 ≤ ·.length)).map a.lower).dedup

def overlapCount (x y : List Text) : ℕ := (x.filter (· ∈ y)).length

/-- `_relevance_score`. -/
def relevanceScore (F : Type) [PyFloat F] (goal : Text) (spec : ToolSpec) (domain : Text) : F :=
  let goalTokens := tokenize a goal
  let descTokens := tokenize a (spec.name ++ [' '] ++ spec.description)
  let domainTokens := tokenize a domain
  if goalTokens = [] ∧ domainTokens = [] then 0.1
  else
    let overlap := overlapCount goalTokens descTokens
    let domainOverlap :=
      overlapCount domainTokens descTokens ||| overlapCount domainTokens (tokenize a spec.name)
    let nameBonus : F := if goalTokens.any (contains (a.lower spec.name)) then 0.3 else 0
    (overlap : F) * 0.25 + (domainOverlap : F) * 0.15 + nameBonus + 0.05

/-- `_RISK_ORDER.get(…, 0)`. -/
def riskOrder (risk : Text) : ℕ :=
  if risk = "MEDIUM".toList then 1
  else if risk = "HIGH".toList then 2
  else if risk = "CRITICAL".toList then 3
  else 0

/-- `spec.risk_level or "LOW"`. -/
def riskOrLow (risk : Text) : Text := if risk = [] then "LOW".toList else risk

/-- `_risk_compatible`. -/
def riskCompatible (taskRisk toolRisk : Text) : Bool :=
  let taskLevel := riskOrder (a.upper (riskOrLow taskRisk))
  let toolLevel := riskOrder (a.upper (riskOrLow toolRisk))
  if taskLevel ≤ 1 then decide (toolLevel ≤ 2) else true

/-! ### Selection -/

/-- A tool that `retrieve_relevant_tools` scores; no names of `pack_tools` mean no restriction. -/
def admits (riskLevel : Text) (packTools skillBlocklist : List Text) (spec : ToolSpec) : Bool :=
  spec.name ∉ skillBlocklist && (packTools = [] || spec.name ∈ packTools) &&
    riskCompatible a riskLevel spec.riskLevel

/-- The key of the sort: the best score first, and names in their order among equals. -/
def relevanceKey (F : Type) [PyFloat F] (goal domain : Text) (spec : ToolSpec) : Lex (Fᵒᵈ × Text) :=
  toLex (OrderDual.toDual (relevanceScore a F goal spec domain), spec.name)

/-- `retrieve_relevant_tools`. -/
def retrieveRelevantTools (F : Type) [PyFloat F] (goal domain riskLevel : Text) (reg : ToolRegistry)
    (topK : ℕ) (packTools skillBlocklist : Option (List Text)) : List ToolSpec :=
  let scored := reg.listed.filter (admits a riskLevel (packTools.getD []) (skillBlocklist.getD []))
  if scored = [] then reg.listed.take topK
  else (sortBy (relevanceKey a F goal domain) scored).take topK

/-- An entry of `registered_tools`. -/
structure ShownTool where
  name : Text
  description : Text
  riskLevel : Text
  deriving DecidableEq

/-- `format_tools_for_prompt`, for one tool. -/
def formatTool (spec : ToolSpec) : ShownTool :=
  ⟨spec.name, spec.description.take 240, riskOrLow spec.riskLevel⟩

/-- `tool_selection` of the capabilities. -/
inductive SelectionMeta
  | retrievalTopK (topK totalAvailable shown : ℕ)
  | fullRegistry (shown : ℕ)
  deriving DecidableEq

/-- The entries of the capabilities that are computed. -/
structure RuntimeCapabilities where
  registeredTools : List ShownTool
  toolSelection : SelectionMeta
  deriving DecidableEq

/-- `goal or domain or pack_tools`. -/
def narrows (goal domain : Text) (packTools : Option (List Text)) : Bool :=
  goal != [] || domain != [] || packTools.getD [] != []

/-- The tools that `build_runtime_capabilities` shows. -/
def shownTools (F : Type) [PyFloat F] (reg : ToolRegistry) (goal domain riskLevel : Text) (topK : ℕ)
    (packTools : Option (List Text)) : List ToolSpec :=
  if narrows goal domain packTools then
    retrieveRelevantTools a F goal domain riskLevel reg topK packTools none
  else reg.listed

/-- `build_runtime_capabilities`; `planningToolTopK` is the setting. -/
def buildRuntimeCapabilities (F : Type) [PyFloat F] (planningToolTopK : ℕ) (reg : ToolRegistry)
    (goal domain riskLevel : Text) (toolTopK : Option ℕ) (packTools : Option (List Text)) :
    RuntimeCapabilities :=
  let topK := toolTopK.getD planningToolTopK
  let tools := (shownTools a F reg goal domain riskLevel topK packTools).map formatTool
  { registeredTools := tools
    toolSelection :=
      if narrows goal domain packTools then .retrievalTopK topK reg.listTools.length tools.length
      else .fullRegistry tools.length }

/-! ### What is shown -/

variable {a : Alphabet} {F : Type} [PyFloat F] {reg : ToolRegistry} {goal domain riskLevel : Text} {topK : ℕ}
  {packTools : Option (List Text)}

@[simp] theorem mem_listed {spec : ToolSpec} : spec ∈ reg.listed ↔ spec ∈ reg.tools := mem_sortBy

theorem mem_listTools {name : Text} : name ∈ reg.listTools ↔ ∃ spec ∈ reg.tools, spec.name = name := by
  simp [ToolRegistry.listTools]

/-- The tools of the registry that the filters leave. -/
def candidates (a : Alphabet) (reg : ToolRegistry) (riskLevel : Text) (packTools : Option (List Text)) :
    List ToolSpec :=
  reg.tools.filter (admits a riskLevel (packTools.getD []) [])

theorem mem_candidates {spec : ToolSpec} : spec ∈ candidates a reg riskLevel packTools ↔
    spec ∈ reg.tools ∧ (packTools.getD [] = [] ∨ spec.name ∈ packTools.getD []) ∧
      riskCompatible a riskLevel spec.riskLevel = true := by
  simp [candidates, admits]

/-- Different tools have different keys. -/
theorem relevanceKey_nodup {l : List ToolSpec} (h : (l.map ToolSpec.name).Nodup) :
    (l.map (relevanceKey a F goal domain)).Nodup := by
  refine List.Nodup.of_map (fun key => (ofLex key).2) ?_
  rw [List.map_map]
  exact h

/-- The tools are narrowed down, and this one is not shown: `topK` others come before it by name where the
    filters leave nothing, or else the filters drop it or `topK` of those that are left come before it by
    score. -/
def LeftOut (a : Alphabet) (F : Type) [PyFloat F] (reg : ToolRegistry) (goal domain riskLevel : Text)
    (topK : ℕ) (packTools : Option (List Text)) (spec : ToolSpec) : Prop :=
  narrows goal domain packTools = true ∧
    if candidates a reg riskLevel packTools = [] then
      topK ≤ rank ToolSpec.name reg.tools spec
    else spec ∉ candidates a reg riskLevel packTools ∨
      topK ≤ rank (relevanceKey a F goal domain) (candidates a reg riskLevel packTools) spec

theorem mem_shownTools {spec : ToolSpec} :
    spec ∈ shownTools a F reg goal domain riskLevel topK packTools ↔
      spec ∈ reg.tools ∧ ¬ LeftOut a F reg goal domain riskLevel topK packTools spec := by
  rw [shownTools, LeftOut]
  by_cases hnarrow : narrows goal domain packTools = true
  · have hperm : (reg.listed.filter (admits a riskLevel (packTools.getD []) [])).Perm
        (candidates a reg riskLevel packTools) := (perm_sortBy _ _).filter _
    rw [if_pos hnarrow, retrieveRelevantTools]
    dsimp only [Option.getD_none]
    by_cases hnone : candidates a reg riskLevel packTools = []
    · rw [hnone] at hperm
      rw [if_pos hperm.eq_nil, if_pos hnone, ToolRegistry.listed, mem_take_sortBy_iff reg.names_nodup]
      simp [hnarrow]
    · have hscored : reg.listed.filter (admits a riskLevel (packTools.getD []) []) ≠ [] := by
        intro hnil
        rw [hnil] at hperm
        exact hnone hperm.symm.eq_nil
      have hnodup : ((reg.listed.filter (admits a riskLevel (packTools.getD []) [])).map
          ToolSpec.name).Nodup :=
        ((List.filter_sublist.map _).nodup (((perm_sortBy _ _).map _).nodup_iff.2 reg.names_nodup))
      rw [if_neg hscored, if_neg hnone, mem_take_sortBy_iff (relevanceKey_nodup hnodup), rank_perm hperm,
        hperm.mem_iff]
      simp only [hnarrow, true_and, not_or, not_not, not_le]
      refine ⟨fun h => ⟨(mem_candidates.1 h.1).1, h⟩, fun h => h.2⟩
  · simp [hnarrow]

/-- Where there is a tool, one is shown. -/
theorem shownTools_eq_nil_iff (hk : 1 ≤ topK) :
    shownTools a F reg goal domain riskLevel topK packTools = [] ↔ reg.tools = [] := by
  have htake : ∀ l : List ToolSpec, l.take topK = [] ↔ l = [] := by
    intro l
    simp [List.take_eq_nil_iff, Nat.ne_of_gt hk]
  rw [shownTools]
  split_ifs
  · rw [retrieveRelevantTools]
    split_ifs with hscored
    · rw [htake, ToolRegistry.listed, sortBy_eq_nil]
    · rw [htake, sortBy_eq_nil]
      refine iff_of_false hscored fun hnil => hscored ?_
      simp [ToolRegistry.listed, hnil, sortBy]
  · exact sortBy_eq_nil

end AgentLangraph.Skill
