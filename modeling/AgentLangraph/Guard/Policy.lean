import AgentLangraph.Lib.PyTree
import Mathlib.Algebra.Order.Ring.Rat
import Mathlib.Order.WithBot
import Mathlib.Tactic.NormNum

/-! The policy engine (`policy_engine.py`): a cascade of rules of which the first that applies decides. A rule that
    a riskier input calls up can stand before the one that decided until then, and be milder:

        review flag ▸ level ▸ parser recovery ▸ failed verification ▸ confidence ▸ guest ▸ CONTINUE
           REVIEW    REJECT      CONTINUE      CONTINUE | REVIEW      REVIEW     REJECT -/

namespace AgentLangraph.Guard.Policy
open PyText PyTree

/-! ### Decisions -/

inductive Result where
  | continue
  | review
  | escalate
  | reject
  deriving DecidableEq

/-- CONTINUE < REVIEW, ESCALATE < REJECT. -/
def Result.rank : Result → ℕ
  | .continue => 0
  | .review | .escalate => 1
  | .reject => 2

structure PolicyDecision where
  result : Result
  reason : Text
  riskLevel : Text
  metadata : Option PyRecord := none

/-- A float: not a number (`none`), or a number, perhaps infinite. -/
abbrev PyNumber := Option (WithBot (WithTop ℚ))

/-- `a < b`. -/
def below : PyNumber → PyNumber → Bool
  | some a, some b => a < b
  | _, _ => false

def number (q : ℚ) : PyNumber := some ((q : WithTop ℚ) : WithBot (WithTop ℚ))

/-- `confidence < 0.5`. -/
def low (confidence : PyNumber) : Bool := below confidence (number (1 / 2))

/-- The settings, and `str.upper`, `str`, `float` (`none` where it raises) and the text of a float. -/
structure Settings where
  autoRejectRiskLevel : Text
  requireReviewRiskLevel : Text
  upper : Text → Text
  str : PyTree → Text
  float : PyTree → Option PyNumber
  repr : PyNumber → Text

/-- The arguments of `evaluate`. -/
structure Args where
  reasoningResult : Option PyRecord := none
  toolResults : Option (List PyRecord) := none
  riskLevel : Option Text := none
  userRole : Text := "user".toList
  reviewRequired : Bool := false

section
variable (cfg : Settings)

/-- `d.get(key)`. -/
def value (d : PyRecord) (key : String) : PyTree := d.getD key.toList nil

/-- `if d:` of a dictionary. -/
def filled (d : PyRecord) : Bool := !d.entries.isEmpty

/-- `str(item.get("risk_level", "")).upper()`. -/
def toolRisk (item : PyRecord) : Text :=
  cfg.upper (((item.get? "risk_level".toList).map cfg.str).getD [])

def elevated (item : PyRecord) : Bool :=
  toolRisk cfg item = "HIGH".toList || toolRisk cfg item = "CRITICAL".toList

def inferRisk (reasoningResult : Option PyRecord) (toolResults : Option (List PyRecord)) : Text :=
  match reasoningResult.bind fun r => if (value r "risk_level").truthy then some (value r "risk_level") else none with
  | some level => cfg.upper (cfg.str level)
  | none =>
    match (toolResults.getD []).find? (elevated cfg) with
    | some item => toolRisk cfg item
    | none => "LOW".toList

def hasHighRiskTools (toolResults : Option (List PyRecord)) : Bool := (toolResults.getD []).any (elevated cfg)

/-- `(risk_level or _infer_risk(...)).upper()`. -/
def inferredRisk (x : Args) : Text :=
  cfg.upper (match x.riskLevel with
    | none | some [] => inferRisk cfg x.reasoningResult x.toolResults
    | some level => level)

def isParserFormatRecovery (reasoningResult : PyRecord) : Bool :=
  let structured := (value reasoningResult "structured").orElse (dict [])
  structured.isDict && ((structured.get "parser_fallback").truthy || (structured.get "parser_repaired").truthy)

def structuredOf (reasoningResult : PyRecord) : PyTree := (value reasoningResult "structured").orEmpty

/-- The code failed verification. -/
def verifyFailed (r : PyRecord) : Bool :=
  ((structuredOf r).get "code_verify_failed").truthy &&
    match (structuredOf r).get "code_verify_ok" with
    | leaf (.bool true) => false
    | _ => true

def verifyDegraded (r : PyRecord) : Bool := ((structuredOf r).get "code_verify_degraded").truthy

/-- The confidence, or `none` where `float` raises. -/
def confidenceOf (r : PyRecord) : Option PyNumber :=
  if filled r then
    match r.get? "confidence".toList with
    | none => some (number (4 / 5))
    | some v => cfg.float v
  else some (number 1)

def flag (key : String) : Text × PyTree := entry key (leaf (.bool true))

/-- `PolicyEngine.evaluate`; `none` where it raises. -/
def evaluate (x : Args) : Option PolicyDecision :=
  let risk := inferredRisk cfg x
  if x.reviewRequired then some ⟨.review, "Explicit review flag set".toList, risk, none⟩
  else if risk = cfg.autoRejectRiskLevel then
    some ⟨.reject, "Risk level ".toList ++ risk ++ " triggers auto reject".toList, risk, none⟩
  else if risk = "UNKNOWN".toList then some ⟨.escalate, "Unknown risk requires escalation".toList, risk, none⟩
  else if risk = cfg.requireReviewRiskLevel then
    some ⟨.review, "Risk level ".toList ++ risk ++ " requires human review".toList, risk, none⟩
  else if x.reasoningResult.any fun r => filled r && isParserFormatRecovery r then
    some ⟨.continue, "Parser-format recovery (non-epistemic confidence)".toList, risk,
      some (.ofList [flag "parser_format_recovery"])⟩
  else
    match x.reasoningResult with
    | none => none
    | some r =>
      if verifyFailed r then
        if verifyDegraded r then
          some ⟨.continue, "Source code failed verification but low-risk degraded delivery is allowed".toList, risk,
            some (.ofList [flag "code_verify_failed", flag "code_verify_degraded"])⟩
        else
          some ⟨.review, "Source code failed compile verification".toList, risk,
            some (.ofList [flag "code_verify_failed"])⟩
      else
        match confidenceOf cfg r with
        | none => none
        | some confidence =>
          if low confidence then
            some ⟨.review, "Low confidence (".toList ++ cfg.repr confidence ++ ")".toList, risk,
              some (.ofList [entry "confidence" (leaf (.other (cfg.repr confidence) (confidence ≠ number 0)))])⟩
          else if x.userRole = "guest".toList ∧ hasHighRiskTools cfg x.toolResults then
            some ⟨.reject, "Guest cannot run elevated-risk tools".toList, risk, none⟩
          else some ⟨.continue, "Policy checks passed".toList, risk, none⟩

/-! ### Rules -/

/-- The rules of the risk level. -/
def levelVerdict (level : Text) : Option Result :=
  if level = cfg.autoRejectRiskLevel then some .reject
  else if level = "UNKNOWN".toList then some .escalate
  else if level = cfg.requireReviewRiskLevel then some .review
  else none

def recovers (x : Args) : Bool := x.reasoningResult.any fun r => filled r && isParserFormatRecovery r

/-- A guest with a tool result of an elevated risk. -/
def GuestElevated (x : Args) : Prop := x.userRole = "guest".toList ∧ hasHighRiskTools cfg x.toolResults = true

instance (x : Args) : Decidable (GuestElevated cfg x) := inferInstanceAs (Decidable (_ ∧ _))

/-- The rules behind those of the level. -/
def checks (x : Args) : Option Result :=
  if recovers x then some .continue
  else x.reasoningResult.bind fun r =>
    if verifyFailed r then some (if verifyDegraded r then .continue else .review)
    else (confidenceOf cfg r).map fun c =>
      if low c then .review else if GuestElevated cfg x then .reject else .continue

/-- A rule in front of the parser's recovery decides. -/
def Settled (x : Args) : Prop := x.reviewRequired = true ∨ levelVerdict cfg (inferredRisk cfg x) ≠ none

/-- There is a decision: the rules come to nothing that they cannot read. -/
def Answers (x : Args) : Prop :=
  Settled cfg x ∨ recovers x = true ∨
    ∃ r ∈ x.reasoningResult, verifyFailed r = true ∨ (confidenceOf cfg r).isSome

/-- The guest's rule is reached and applies. -/
def GuestRejected (x : Args) : Prop :=
  recovers x = false ∧ GuestElevated cfg x ∧
    ∃ r ∈ x.reasoningResult, verifyFailed r = false ∧ ∃ c ∈ confidenceOf cfg r, low c = false

/-- Verification that failed or a low confidence asks for a review. -/
def Reviewed (x : Args) : Prop :=
  recovers x = false ∧ ∃ r ∈ x.reasoningResult,
    verifyFailed r = true ∧ verifyDegraded r = false ∨
      verifyFailed r = false ∧ ∃ c ∈ confidenceOf cfg r, low c = true

/-! ### Changes that add risk -/

inductive Change where
  | giveRisk (level : Text)
  | reportRisk (level : PyTree)
  | addTool (place : ℕ) (item : PyRecord)
  | lowerConfidence (v : PyTree)
  | setReview
  | markFailed

/-- The result of a verification that failed. -/
def failedCode (r : PyRecord) : PyTree :=
  ((structuredOf r).withField "code_verify_failed" (leaf (.bool true))).withField "code_verify_ok" (leaf (.bool false))

def Change.apply (x : Args) : Change → Args
  | .giveRisk level => { x with riskLevel := some level }
  | .reportRisk level => { x with reasoningResult := x.reasoningResult.map fun r => r.set "risk_level".toList level }
  | .addTool place item =>
    { x with toolResults := some ((x.toolResults.getD []).take place ++ item :: (x.toolResults.getD []).drop place) }
  | .lowerConfidence v => { x with reasoningResult := x.reasoningResult.map fun r => r.set "confidence".toList v }
  | .setReview => { x with reviewRequired := true }
  | .markFailed =>
    { x with reasoningResult := x.reasoningResult.map fun r => r.set "structured".toList (failedCode r) }

/-- A level stands below another one. -/
def Milder (a b : Text) : Prop :=
  [a, b].Sublist ["LOW".toList, "MEDIUM".toList, "HIGH".toList, "CRITICAL".toList]

/-- The change raises the level that was given or reported (LOW, if none was), adds a result of an elevated risk,
    lowers the confidence, sets the flag or marks a failed verification. -/
def Change.AddsRisk (x : Args) : Change → Prop
  | .giveRisk level =>
    Milder (cfg.upper ((x.riskLevel.filter (· ≠ [])).getD "LOW".toList)) (cfg.upper level)
  | .reportRisk level => ∃ r ∈ x.reasoningResult, level.truthy = true ∧
      Milder (cfg.upper (cfg.str ((value r "risk_level").orElse (leaf (.str "LOW".toList)))))
        (cfg.upper (cfg.str level))
  | .addTool _ item => elevated cfg item = true
  | .lowerConfidence v => ∃ r ∈ x.reasoningResult, ∃ c ∈ confidenceOf cfg r, ∃ c' ∈ cfg.float v, below c' c = true
  | .setReview => True
  | .markFailed => True

/-- Where there was a decision there is one, and it is not more permissive. -/
def NeverEases (x y : Args) : Prop :=
  ∀ d, evaluate cfg x = some d → ∃ d', evaluate cfg y = some d' ∧ d.result.rank ≤ d'.result.rank

/-- The rules of the level do not take from the one input what the other one has. -/
def LevelSteady (x y : Args) : Prop :=
  x.reviewRequired = true ∨
    match levelVerdict cfg (inferredRisk cfg x), levelVerdict cfg (inferredRisk cfg y) with
    | none, none => True
    | none, some v => v = .reject ∨ ¬ GuestRejected cfg x
    | some v, none => GuestRejected cfg y ∨ v ≠ .reject ∧ Reviewed cfg y
    | some v, some v' => v = .reject → v' = .reject

/-- The change leaves the decision as strict as it was. -/
def Change.Keeps (x : Args) : Change → Prop
  | .setReview => x.reviewRequired = true ∨
      levelVerdict cfg (inferredRisk cfg x) ≠ some .reject ∧
        ¬ (levelVerdict cfg (inferredRisk cfg x) = none ∧ GuestRejected cfg x)
  | .lowerConfidence v => Settled cfg x ∨ ¬ GuestRejected cfg x ∨ ∀ c ∈ cfg.float v, low c = false
  | .markFailed => Settled cfg x ∨
      ¬ GuestRejected cfg x ∧ ¬ (Reviewed cfg x ∧ ∃ r ∈ x.reasoningResult, verifyDegraded r = true)
  | c => LevelSteady cfg x (c.apply x)

/-! ### The cascade in two parts -/

variable {cfg} {x y : Args}

/-- How the checks end. -/
inductive Checked (cfg : Settings) (x : Args) : Option Result → Prop
  | recovers : recovers x = true → Checked cfg x (some .continue)
  | missing : recovers x = false → x.reasoningResult = none → Checked cfg x none
  | degraded (r : PyRecord) : recovers x = false → x.reasoningResult = some r → verifyFailed r = true →
      verifyDegraded r = true → Checked cfg x (some .continue)
  | failed (r : PyRecord) : recovers x = false → x.reasoningResult = some r → verifyFailed r = true →
      verifyDegraded r = false → Checked cfg x (some .review)
  | unread (r : PyRecord) : recovers x = false → x.reasoningResult = some r → verifyFailed r = false →
      confidenceOf cfg r = none → Checked cfg x none
  | unsure (r : PyRecord) (c : PyNumber) : recovers x = false → x.reasoningResult = some r → verifyFailed r = false →
      confidenceOf cfg r = some c → low c = true → Checked cfg x (some .review)
  | guest (r : PyRecord) (c : PyNumber) : recovers x = false → x.reasoningResult = some r → verifyFailed r = false →
      confidenceOf cfg r = some c → low c = false → GuestElevated cfg x → Checked cfg x (some .reject)
  | passed (r : PyRecord) (c : PyNumber) : recovers x = false → x.reasoningResult = some r → verifyFailed r = false →
      confidenceOf cfg r = some c → low c = false → ¬ GuestElevated cfg x → Checked cfg x (some .continue)

theorem checked (cfg : Settings) (x : Args) : Checked cfg x (checks cfg x) := by
  rw [checks]
  by_cases hrecovers : recovers x
  · rw [if_pos hrecovers]
    exact .recovers hrecovers
  rw [if_neg hrecovers]
  have hno : recovers x = false := Bool.eq_false_iff.2 hrecovers
  cases hr : x.reasoningResult with
  | none => exact .missing hno hr
  | some r =>
    rw [Option.bind_some]
    by_cases hfailed : verifyFailed r
    · rw [if_pos hfailed]
      by_cases hdegraded : verifyDegraded r
      · rw [if_pos hdegraded]
        exact .degraded r hno hr hfailed hdegraded
      · rw [if_neg hdegraded]
        exact .failed r hno hr hfailed (Bool.eq_false_iff.2 hdegraded)
    · rw [if_neg hfailed]
      have hfine : verifyFailed r = false := Bool.eq_false_iff.2 hfailed
      cases hc : confidenceOf cfg r with
      | none => exact .unread r hno hr hfine hc
      | some c =>
        rw [Option.map_some]
        by_cases hlow : low c
        · rw [if_pos hlow]
          exact .unsure r c hno hr hfine hc hlow
        · rw [if_neg hlow]
          have hsure : low c = false := Bool.eq_false_iff.2 hlow
          by_cases hguest : GuestElevated cfg x
          · rw [if_pos hguest]
            exact .guest r c hno hr hfine hc hsure hguest
          · rw [if_neg hguest]
            exact .passed r c hno hr hfine hc hsure hguest

/-- The cascade in two parts. -/
theorem result_eq (x : Args) : (evaluate cfg x).map PolicyDecision.result =
    if x.reviewRequired then some .review else (levelVerdict cfg (inferredRisk cfg x)).or (checks cfg x) := by
  rw [evaluate, levelVerdict]
  by_cases hreview : x.reviewRequired
  · rw [if_pos hreview, if_pos hreview]
    rfl
  rw [if_neg hreview, if_neg hreview]
  by_cases hreject : inferredRisk cfg x = cfg.autoRejectRiskLevel
  · rw [if_pos hreject, if_pos hreject]
    rfl
  rw [if_neg hreject, if_neg hreject]
  by_cases hunknown : inferredRisk cfg x = "UNKNOWN".toList
  · rw [if_pos hunknown, if_pos hunknown]
    rfl
  rw [if_neg hunknown, if_neg hunknown]
  by_cases hrequire : inferredRisk cfg x = cfg.requireReviewRiskLevel
  · rw [if_pos hrequire, if_pos hrequire]
    rfl
  rw [if_neg hrequire, if_neg hrequire, Option.none_or]
  change Option.map _ (if recovers x = true then _ else _) = _
  have hchecked := checked cfg x
  revert hchecked
  generalize checks cfg x = v
  intro hchecked
  cases hchecked with
  | recovers h => rw [if_pos h]; rfl
  | missing h hr => rw [if_neg (by simp [h]), hr]; rfl
  | degraded r h hr hfailed hdegraded => simp [h, hr, hfailed, hdegraded]
  | failed r h hr hfailed hdegraded => simp [h, hr, hfailed, hdegraded]
  | unread r h hr hfailed hc => simp [h, hr, hfailed, hc]
  | unsure r c h hr hfailed hc hlow => simp [h, hr, hfailed, hc, hlow]
  | guest r c h hr hfailed hc hlow hguest =>
    rw [GuestElevated] at hguest
    simp [h, hr, hfailed, hc, hlow, hguest]
  | passed r c h hr hfailed hc hlow hguest =>
    rw [GuestElevated] at hguest
    simp only [h, hr, hfailed, hc, hlow, if_neg hguest]
    rfl

theorem isSome_evaluate_iff (x : Args) : (evaluate cfg x).isSome ↔ Answers cfg x := by
  have hchecked := checked cfg x
  rw [← Option.isSome_map, result_eq, Answers, Settled]
  by_cases hreview : x.reviewRequired
  · simp [hreview]
  rw [if_neg hreview, Option.isSome_or, Bool.or_eq_true, Option.isSome_iff_ne_none, or_iff_right hreview]
  refine or_congr_right ?_
  revert hchecked
  generalize checks cfg x = v
  intro hchecked
  cases hchecked <;> simp [*]

theorem checks_eq_reject_iff : checks cfg x = some .reject ↔ GuestRejected cfg x := by
  have hchecked := checked cfg x
  rw [GuestRejected]
  revert hchecked
  generalize checks cfg x = v
  intro hchecked
  cases hchecked <;> simp [*]

theorem checks_eq_review_iff : checks cfg x = some .review ↔ Reviewed cfg x := by
  have hchecked := checked cfg x
  rw [Reviewed]
  revert hchecked
  generalize checks cfg x = v
  intro hchecked
  cases hchecked <;> simp [*]

/-- The checks never escalate. -/
theorem checks_ne_escalate (x : Args) : checks cfg x ≠ some .escalate := by
  have hchecked := checked cfg x
  revert hchecked
  generalize checks cfg x = v
  intro hchecked
  cases hchecked <;> simp

/-- The decision on the one is not stricter than that on the other. -/
def NotAbove (a b : Option Result) : Prop := ∀ v ∈ a, ∃ v' ∈ b, v.rank ≤ v'.rank

theorem notAbove_refl (a : Option Result) : NotAbove a a := fun v hv => ⟨v, hv, le_rfl⟩

theorem neverEases_iff : NeverEases cfg x y ↔
    NotAbove ((evaluate cfg x).map PolicyDecision.result) ((evaluate cfg y).map PolicyDecision.result) := by
  constructor
  · intro h v hv
    obtain ⟨d, hd, rfl⟩ := Option.map_eq_some_iff.1 hv
    obtain ⟨d', hd', hle⟩ := h d hd
    exact ⟨d'.result, Option.map_eq_some_iff.2 ⟨d', hd', rfl⟩, hle⟩
  · intro h d hd
    obtain ⟨v', hv', hle⟩ := h d.result (Option.map_eq_some_iff.2 ⟨d, hd, rfl⟩)
    obtain ⟨d', hd', rfl⟩ := Option.map_eq_some_iff.1 hv'
    exact ⟨d', hd', hle⟩

theorem rank_reject_le {v : Result} : Result.reject.rank ≤ v.rank ↔ v = .reject := by
  cases v <;> decide

theorem rank_le_reject (v : Result) : v.rank ≤ Result.reject.rank := by
  cases v <;> decide

theorem notAbove_some_iff {v v' : Result} : NotAbove (some v) (some v') ↔ v.rank ≤ v'.rank := by
  simp [NotAbove]

/-- The rules of the level never let pass. -/
theorem rank_levelVerdict {level : Text} {v : Result} (h : levelVerdict cfg level = some v) : 1 ≤ v.rank := by
  rw [levelVerdict] at h
  split_ifs at h <;> rw [← Option.some.inj h] <;> decide

/-- The same rules behind the level, or stricter ones: what counts is the level. -/
theorem neverEases_iff_steady (hreview : y.reviewRequired = x.reviewRequired)
    (hchecks : NotAbove (checks cfg x) (checks cfg y)) : NeverEases cfg x y ↔ LevelSteady cfg x y := by
  rw [neverEases_iff, result_eq, result_eq, hreview, LevelSteady]
  by_cases hset : x.reviewRequired
  · rw [if_pos hset, if_pos hset]
    exact iff_of_true (notAbove_refl _) (Or.inl hset)
  rw [if_neg hset, if_neg hset, or_iff_right hset]
  cases hx : levelVerdict cfg (inferredRisk cfg x) with
  | none =>
    cases hy : levelVerdict cfg (inferredRisk cfg y) with
    | none => exact iff_of_true hchecks trivial
    | some v =>
      have hv := rank_levelVerdict hy
      rw [Option.none_or, Option.some_or, ← checks_eq_reject_iff]
      dsimp only
      cases hc : checks cfg x with
      | none => exact iff_of_true (fun _ h => nomatch h) (Or.inr (by simp))
      | some u =>
        rw [notAbove_some_iff]
        cases u with
        | «continue» => exact iff_of_true (Nat.zero_le _) (Or.inr (by simp))
        | review => exact iff_of_true hv (Or.inr (by simp))
        | escalate => exact absurd hc (checks_ne_escalate x)
        | reject => simp [rank_reject_le]
  | some v =>
    have hv := rank_levelVerdict hx
    cases hy : levelVerdict cfg (inferredRisk cfg y) with
    | none =>
      dsimp only
      rw [Option.none_or, Option.some_or, ← checks_eq_reject_iff, ← checks_eq_review_iff]
      cases hc : checks cfg y with
      | none => simp [NotAbove]
      | some u =>
        rw [notAbove_some_iff]
        cases u with
        | «continue» =>
          refine iff_of_false (fun h => ?_) (by simp)
          have hzero : Result.continue.rank = 0 := rfl
          omega
        | review => cases v <;> simp_all [Result.rank]
        | escalate => exact absurd hc (checks_ne_escalate y)
        | reject => exact iff_of_true (rank_le_reject v) (Or.inl rfl)
    | some v' =>
      have hv' := rank_levelVerdict hy
      rw [Option.some_or, Option.some_or, notAbove_some_iff]
      dsimp only
      cases v <;> cases v' <;> simp_all [Result.rank]

/-! ### The six changes -/

theorem value_set_ne (r : PyRecord) {key key' : String} (h : key ≠ key') (v : PyTree) :
    value (r.set key.toList v) key' = value r key' := by
  rw [value, value, PyDict.getD, PyDict.getD, PyDict.get?_set_ne _ fun he => h (String.toList_inj.1 he)]

theorem value_set_self (r : PyRecord) (key : String) (v : PyTree) : value (r.set key.toList v) key = v := by
  rw [value, PyDict.getD, PyDict.get?_set_self, Option.getD_some]

theorem filled_set (r : PyRecord) (key : Text) (v : PyTree) : filled (r.set key v) = true := by
  have hget := PyDict.get?_set_self r key v
  rw [filled, Bool.not_eq_true']
  refine Bool.eq_false_iff.2 fun hempty => ?_
  rw [PyDict.get?, List.isEmpty_iff.1 hempty] at hget
  cases hget

/-- What the parser has recovered, as the other rules read `structured`. -/
theorem isParserFormatRecovery_eq (r : PyRecord) : isParserFormatRecovery r =
    (((structuredOf r).get "parser_fallback").truthy || ((structuredOf r).get "parser_repaired").truthy) := by
  rw [isParserFormatRecovery, structuredOf]
  cases value r "structured" with
  | leaf v =>
    cases hv : v.truthy with
    | false =>
      rw [orElse_of_not (by simp [truthy, hv])]
      rfl
    | true =>
      rw [orElse_of_truthy (by simp [truthy, hv])]
      rfl
  | list vs => cases vs <;> rfl
  | dict es => cases es <;> rfl

/-- An empty result has nothing that was recovered. -/
theorem recovery_of_empty {r : PyRecord} (h : filled r = false) : isParserFormatRecovery r = false := by
  rw [filled, Bool.not_eq_false', List.isEmpty_iff] at h
  rw [isParserFormatRecovery_eq, structuredOf, value, PyDict.getD, PyDict.get?, h]
  rfl

theorem recovers_some {r : PyRecord} (hr : x.reasoningResult = some r) : recovers x = isParserFormatRecovery r := by
  rw [recovers, hr, Option.any_some]
  cases hfilled : filled r with
  | false => rw [recovery_of_empty hfilled, Bool.and_false]
  | true => rw [Bool.true_and]

theorem neverEases_giveRisk (level : Text) :
    NeverEases cfg x ((Change.giveRisk level).apply x) ↔ (Change.giveRisk level).Keeps cfg x :=
  neverEases_iff_steady rfl (notAbove_refl _)

/-- One more result of an elevated risk. -/
theorem neverEases_addTool (place : ℕ) {item : PyRecord} (hitem : elevated cfg item = true) :
    NeverEases cfg x ((Change.addTool place item).apply x) ↔ (Change.addTool place item).Keeps cfg x := by
  refine neverEases_iff_steady rfl ?_
  have htools : hasHighRiskTools cfg ((Change.addTool place item).apply x).toolResults = true := by
    rw [hasHighRiskTools, Change.apply]
    simp [hitem]
  have hguest (h : GuestElevated cfg x) : GuestElevated cfg ((Change.addTool place item).apply x) := ⟨h.1, htools⟩
  rw [checks, checks]
  change NotAbove _ (if recovers x then _ else x.reasoningResult.bind _)
  by_cases hrecovers : recovers x
  · rw [if_pos hrecovers, if_pos hrecovers]
    exact notAbove_refl _
  rw [if_neg hrecovers, if_neg hrecovers]
  cases x.reasoningResult with
  | none => exact notAbove_refl _
  | some r =>
    rw [Option.bind_some, Option.bind_some]
    by_cases hfailed : verifyFailed r
    · rw [if_pos hfailed, if_pos hfailed]
      exact notAbove_refl _
    rw [if_neg hfailed, if_neg hfailed]
    cases confidenceOf cfg r with
    | none => exact notAbove_refl _
    | some c =>
      rw [Option.map_some, Option.map_some, notAbove_some_iff]
      by_cases hlow : low c
      · rw [if_pos hlow, if_pos hlow]
      rw [if_neg hlow, if_neg hlow]
      by_cases hbefore : GuestElevated cfg x
      · rw [if_pos hbefore, if_pos (hguest hbefore)]
      · rw [if_neg hbefore]
        exact Nat.zero_le _

/-- The level is not read from what another key holds. -/
theorem inferredRisk_set {r : PyRecord} (hr : x.reasoningResult = some r) {key : String} (h : key ≠ "risk_level")
    (v : PyTree) : inferredRisk cfg { x with reasoningResult := some (r.set key.toList v) } = inferredRisk cfg x := by
  rw [inferredRisk, inferredRisk, inferRisk, inferRisk, hr, Option.bind_some, Option.bind_some, value_set_ne r h]

theorem reads_set (r : PyRecord) {key : String} (h : key ≠ "structured") (v : PyTree) :
    isParserFormatRecovery (r.set key.toList v) = isParserFormatRecovery r ∧
      verifyFailed (r.set key.toList v) = verifyFailed r ∧ verifyDegraded (r.set key.toList v) = verifyDegraded r := by
  have hstructured : structuredOf (r.set key.toList v) = structuredOf r := by
    rw [structuredOf, structuredOf, value_set_ne r h]
  rw [isParserFormatRecovery_eq, isParserFormatRecovery_eq, verifyFailed, verifyFailed, verifyDegraded, verifyDegraded,
    hstructured]
  exact ⟨rfl, rfl, rfl⟩

/-- The checks for a result. -/
theorem checks_some {r : PyRecord} (hr : x.reasoningResult = some r) : checks cfg x =
    if isParserFormatRecovery r then some .continue
    else if verifyFailed r then some (if verifyDegraded r then .continue else .review)
    else ((confidenceOf cfg r).map low).map fun isLow =>
      if isLow then .review else if GuestElevated cfg x then .reject else .continue := by
  rw [checks, recovers_some hr, hr, Option.bind_some, Option.map_map]
  rfl

theorem below_some_iff {a b : WithBot (WithTop ℚ)} : below (some a) (some b) = true ↔ a < b := decide_eq_true_iff

theorem low_number {q : ℚ} (h : 1 / 2 ≤ q) : low (number q) = false := by
  refine Bool.eq_false_iff.2 fun hlow => ?_
  rw [low, number, number, below_some_iff, WithBot.coe_lt_coe, WithTop.coe_lt_coe] at hlow
  exact absurd hlow (not_lt.2 h)

/-- Reporting a level does not change what the confidence comes to. -/
theorem map_low_report (r : PyRecord) (level : PyTree) :
    (confidenceOf cfg (r.set "risk_level".toList level)).map low = (confidenceOf cfg r).map low := by
  rw [confidenceOf, confidenceOf, if_pos (filled_set r _ level), PyDict.get?_set_ne _ (by decide)]
  cases hfilled : filled r with
  | true => rw [if_pos rfl]
  | false =>
    rw [filled, Bool.not_eq_false', List.isEmpty_iff] at hfilled
    rw [PyDict.get?, hfilled, if_neg Bool.false_ne_true]
    change some (low _) = some (low _)
    rw [low_number (by norm_num), low_number (by norm_num)]

theorem neverEases_reportRisk (level : PyTree) :
    NeverEases cfg x ((Change.reportRisk level).apply x) ↔ (Change.reportRisk level).Keeps cfg x := by
  refine neverEases_iff_steady rfl ?_
  cases hr : x.reasoningResult with
  | none =>
    have hsame : (Change.reportRisk level).apply x = x := by
      rw [Change.apply, hr, Option.map_none, ← hr]
    rw [hsame]
    exact notAbove_refl _
  | some r =>
    obtain ⟨hrecovery, hfailed, hdegraded⟩ := reads_set r (by decide : "risk_level" ≠ "structured") level
    have hset : ((Change.reportRisk level).apply x).reasoningResult = some (r.set "risk_level".toList level) := by
      rw [Change.apply, hr, Option.map_some]
    rw [checks_some hr, checks_some hset, hrecovery, hfailed, hdegraded, map_low_report]
    exact notAbove_refl _

theorem neverEases_setReview : NeverEases cfg x (Change.setReview.apply x) ↔ Change.setReview.Keeps cfg x := by
  rw [neverEases_iff, result_eq, result_eq, Change.Keeps, ← checks_eq_reject_iff]
  by_cases hset : x.reviewRequired
  · rw [if_pos hset]
    exact iff_of_true (notAbove_refl _) (Or.inl hset)
  rw [if_neg hset, or_iff_right hset, Change.apply, if_pos rfl]
  cases hx : levelVerdict cfg (inferredRisk cfg x) with
  | some v =>
    rw [Option.some_or, notAbove_some_iff]
    cases v <;> simp [Result.rank]
  | none =>
    rw [Option.none_or]
    cases checks cfg x with
    | none => simp [NotAbove]
    | some v =>
      rw [notAbove_some_iff]
      cases v <;> simp [Result.rank]

/-- A number below one that is low is low. -/
theorem low_of_below {a b : PyNumber} (hab : below a b = true) (hb : low b = true) : low a = true := by
  cases a with
  | none => cases hab
  | some a =>
    cases b with
    | none => cases hb
    | some b =>
      rw [low, number, below_some_iff] at hb ⊢
      exact (below_some_iff.1 hab).trans hb

/-- What changes behind the rules of the level, where these stay as they are. -/
theorem neverEases_iff_checks (hreview : y.reviewRequired = x.reviewRequired)
    (hlevel : inferredRisk cfg y = inferredRisk cfg x) :
    NeverEases cfg x y ↔ Settled cfg x ∨ NotAbove (checks cfg x) (checks cfg y) := by
  rw [neverEases_iff, result_eq, result_eq, hreview, hlevel, Settled]
  by_cases hset : x.reviewRequired
  · rw [if_pos hset, if_pos hset]
    exact iff_of_true (notAbove_refl _) (Or.inl (Or.inl hset))
  rw [if_neg hset, if_neg hset, or_iff_right hset]
  cases levelVerdict cfg (inferredRisk cfg x) with
  | none => simp
  | some v => exact iff_of_true (notAbove_refl _) (Or.inl (Option.some_ne_none v))

theorem neverEases_lowerConfidence {v : PyTree} (h : (Change.lowerConfidence v).AddsRisk cfg x) :
    NeverEases cfg x ((Change.lowerConfidence v).apply x) ↔ (Change.lowerConfidence v).Keeps cfg x := by
  obtain ⟨r, hr, c, hc, c', hc', hbelow⟩ := h
  obtain ⟨hrecovery, hfailed, hdegraded⟩ := reads_set r (by decide : "confidence" ≠ "structured") v
  have hset : (Change.lowerConfidence v).apply x =
      { x with reasoningResult := some (r.set "confidence".toList v) } := by
    rw [Change.apply, hr, Option.map_some]
  have hconfidence : confidenceOf cfg (r.set "confidence".toList v) = some c' := by
    rw [confidenceOf, if_pos (filled_set r _ v), PyDict.get?_set_self]
    exact hc'
  rw [@neverEases_iff_checks cfg x ((Change.lowerConfidence v).apply x) rfl
    (by rw [hset, inferredRisk_set hr (by decide)]), Change.Keeps]
  refine or_congr_right ?_
  have hrejected : GuestRejected cfg x ↔ isParserFormatRecovery r = false ∧ GuestElevated cfg x ∧
      verifyFailed r = false ∧ low c = false := by
    rw [GuestRejected, recovers_some hr, hr]
    simp [Option.mem_def.1 hc]
  rw [hset, checks_some hr, checks_some rfl, hrecovery, hfailed, hdegraded, hconfidence, Option.mem_def.1 hc,
    Option.mem_def.1 hc', hrejected]
  change NotAbove _ (if _ then _ else if _ then _ else
    some (if low c' then _ else if GuestElevated cfg x then _ else _)) ↔ _
  cases isParserFormatRecovery r with
  | true => exact iff_of_true (notAbove_refl _) (Or.inl (by simp))
  | false =>
    cases verifyFailed r with
    | true => exact iff_of_true (notAbove_refl _) (Or.inl (by simp))
    | false =>
      rw [if_neg Bool.false_ne_true, if_neg Bool.false_ne_true, if_neg Bool.false_ne_true, if_neg Bool.false_ne_true,
        Option.map_some, Option.map_some, notAbove_some_iff]
      cases hlow : low c with
      | true => simp [low_of_below hbelow hlow]
      | false =>
        by_cases hguest : GuestElevated cfg x
        · cases hlow' : low c' <;> simp [hguest, hlow', Result.rank]
        · simp [hguest, Result.rank]

/-- The code's verification has failed: it is looked at, or passed on where it is degraded. -/
theorem checks_markFailed {r : PyRecord} (hr : x.reasoningResult = some r) :
    checks cfg (Change.markFailed.apply x) =
      if isParserFormatRecovery r then some .continue
      else some (if verifyDegraded r then .continue else .review) := by
  have hset : (Change.markFailed.apply x).reasoningResult = some (r.set "structured".toList (failedCode r)) := by
    rw [Change.apply, hr, Option.map_some]
  have hdict : (structuredOf r).isDict = true := by
    rw [structuredOf, orEmpty]
    split_ifs with h
    · exact h
    · rfl
  have hstructured : structuredOf (r.set "structured".toList (failedCode r)) = failedCode r := by
    rw [structuredOf, value_set_self, orEmpty, failedCode,
      if_pos (by rw [isDict_withField, isDict_withField]; exact hdict)]
  have hget (key : String) (hfail : "code_verify_failed" ≠ key) (hok : "code_verify_ok" ≠ key) :
      (failedCode r).get key = (structuredOf r).get key := by
    rw [failedCode, get_eq, get_eq, get?_withField_ne _ hok, get?_withField_ne _ hfail]
  have hfailed : verifyFailed (r.set "structured".toList (failedCode r)) = true := by
    rw [verifyFailed, hstructured, failedCode, get_withField_self (by rw [isDict_withField]; exact hdict), get_eq,
      get?_withField_ne _ (by decide), ← get_eq, get_withField_self hdict]
    rfl
  rw [checks_some hset, isParserFormatRecovery_eq, verifyDegraded, hstructured, hget _ (by decide) (by decide),
    hget _ (by decide) (by decide), hget _ (by decide) (by decide), ← isParserFormatRecovery_eq, hfailed, if_pos rfl,
    verifyDegraded]

theorem neverEases_markFailed : NeverEases cfg x (Change.markFailed.apply x) ↔ Change.markFailed.Keeps cfg x := by
  cases hr : x.reasoningResult with
  | none =>
    have hsame : Change.markFailed.apply x = x := by
      rw [Change.apply, hr, Option.map_none, ← hr]
    rw [hsame, Change.Keeps, neverEases_iff, GuestRejected, Reviewed, hr]
    exact iff_of_true (notAbove_refl _) (Or.inr (by simp))
  | some r =>
    have hset : Change.markFailed.apply x =
        { x with reasoningResult := some (r.set "structured".toList (failedCode r)) } := by
      rw [Change.apply, hr, Option.map_some]
    rw [@neverEases_iff_checks cfg x (Change.markFailed.apply x) rfl (by rw [hset, inferredRisk_set hr (by decide)]),
      Change.Keeps, checks_markFailed hr, ← checks_eq_reject_iff, ← checks_eq_review_iff, hr, checks_some hr]
    refine or_congr_right ?_
    simp only [Option.mem_some_iff, exists_eq_left']
    cases isParserFormatRecovery r with
    | true => exact iff_of_true (notAbove_refl _) (by simp)
    | false =>
      cases verifyFailed r with
      | true => cases verifyDegraded r <;> exact iff_of_true (notAbove_refl _) (by simp)
      | false =>
        cases confidenceOf cfg r with
        | none => exact iff_of_true (fun _ h => nomatch h) (by simp)
        | some c =>
          rw [Option.map_some]
          cases low c <;> by_cases hguest : GuestElevated cfg x <;> cases verifyDegraded r <;>
            simp [hguest, notAbove_some_iff, Result.rank]

/-- What a guest gets with a result of an elevated risk. -/
theorem guest_never_continues_iff (h : GuestElevated cfg x) :
    (∀ d, evaluate cfg x = some d → d.result ≠ .continue) ↔
      Settled cfg x ∨ recovers x = false ∧
        ∀ r ∈ x.reasoningResult, ¬ (verifyFailed r = true ∧ verifyDegraded r = true) := by
  have hresult : (∀ d, evaluate cfg x = some d → d.result ≠ .continue) ↔
      (evaluate cfg x).map PolicyDecision.result ≠ some .continue := by
    rw [ne_eq, Option.map_eq_some_iff]
    push Not
    exact Iff.rfl
  rw [hresult, result_eq, Settled]
  by_cases hset : x.reviewRequired
  · simp [hset]
  rw [if_neg hset, or_iff_right hset]
  cases hlevel : levelVerdict cfg (inferredRisk cfg x) with
  | some v =>
    have hv := rank_levelVerdict hlevel
    cases v <;> simp_all [Result.rank]
  | none =>
    rw [Option.none_or, or_iff_right (not_not_intro rfl)]
    have hchecked := checked cfg x
    revert hchecked
    generalize checks cfg x = v
    intro hchecked
    cases hchecked <;> simp_all

end

/-- The engine answers, no change that adds risk makes the decision more permissive, and a guest with a result of an
    elevated risk does not get CONTINUE, each just where the rules in front do not take the decision first. -/
theorem policy_monotone_iff (cfg : Settings) (x : Args) :
    ((evaluate cfg x).isSome ↔ Answers cfg x) ∧
    (∀ c : Change, c.AddsRisk cfg x → (NeverEases cfg x (c.apply x) ↔ c.Keeps cfg x)) ∧
    (GuestElevated cfg x → ((∀ d, evaluate cfg x = some d → d.result ≠ .continue) ↔
      Settled cfg x ∨ recovers x = false ∧
        ∀ r ∈ x.reasoningResult, ¬ (verifyFailed r = true ∧ verifyDegraded r = true))) := by
  refine ⟨isSome_evaluate_iff x, fun c hc => ?_, guest_never_continues_iff⟩
  cases c with
  | giveRisk level => exact neverEases_giveRisk level
  | reportRisk level => exact neverEases_reportRisk level
  | addTool place item => exact neverEases_addTool place hc
  | lowerConfidence v => exact neverEases_lowerConfidence hc
  | setReview => exact neverEases_setReview
  | markFailed => exact neverEases_markFailed

/-- The settings of the repository. -/
def shipped : Settings where
  autoRejectRiskLevel := "CRITICAL".toList
  requireReviewRiskLevel := "HIGH".toList
  upper := List.map Char.toUpper
  str := fun v =>
    match v with
    | leaf v => v.toText
    | _ => []
  float := fun v =>
    match v with
    | leaf (.int n) => some (number n)
    | _ => none
  repr := fun _ => []

/-- A tool result of the risk HIGH. -/
def highTool : PyRecord := .ofList [entry "risk_level" (leaf (.str "HIGH".toList))]

/-- A result of the risk LOW that the parser has repaired. -/
def repaired : PyRecord := .ofList [entry "risk_level" (leaf (.str "LOW".toList)),
  entry "structured" (dict [flag "parser_repaired"])]

/-- No arguments: an error. A critical risk and the review flag: REVIEW in place of REJECT. A guest with a result of
    the risk HIGH: CONTINUE. -/
theorem policy_gaps :
    (¬ ∀ x, (evaluate shipped x).isSome) ∧
    (¬ ∀ (x : Args) (c : Change), c.AddsRisk shipped x → NeverEases shipped x (c.apply x)) ∧
    ¬ ∀ x, GuestElevated shipped x → ∀ d, evaluate shipped x = some d → d.result ≠ .continue := by
  refine ⟨fun h => ?_, fun h => ?_, fun h => ?_⟩
  · exact absurd (h {}) (by decide)
  · have heases := neverEases_iff.1 (h { riskLevel := some "CRITICAL".toList } .setReview trivial) .reject (by decide)
    revert heases
    decide
  · exact h { reasoningResult := some repaired, toolResults := some [highTool], userRole := "guest".toList }
      (by decide) _ rfl rfl

end AgentLangraph.Guard.Policy
