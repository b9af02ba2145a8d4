import AgentLangraph.Lib.PyText
import Mathlib.Algebra.Order.Field.Rat
import Mathlib.Tactic.SplitIfs

/-! The token and cost budget of a task (`resource_budget.py`): what a node reads from the state of
    the task, what it counts for each call of the model, and what goes back to the state. Amounts of
    money are rationals. -/

namespace AgentLangraph.Budget
open PyText

structure Settings where
  defaultTokenBudget : ℤ
  defaultCostBudget : ℚ
  downgradeRatio : ℚ
  costPer1kTokens : ℚ
  /-- `round(cost, 6)`. -/
  round6 : ℚ → ℚ

/-- `token_budget` of the state. -/
structure TokenBudget where
  limit : ℤ := 0
  used : ℕ := 0
  usedEstimate : ℕ := 0
  usedBilled : ℕ := 0
  exhausted : Bool := false
  modelDowngrade : Bool := false
  deriving DecidableEq

/-- `cost_budget` of the state. -/
structure CostBudget where
  limit : ℚ := 0
  used : ℚ := 0
  exhausted : Bool := false
  deriving DecidableEq

/-- The state of a task, as far as its budget goes. -/
structure TaskState where
  /-- `input_payload.token_budget`; a task without one has 0. -/
  payloadTokenBudget : ℤ := 0
  payloadCostBudget : ℚ := 0
  tokenBudget : Option TokenBudget := none
  costBudget : Option CostBudget := none
  deriving DecidableEq

/-- `BudgetContext`. -/
structure BudgetContext where
  tokenLimit : ℤ := 0
  costLimit : ℚ := 0
  tokensUsed : ℕ := 0
  tokensUsedEstimate : ℕ := 0
  tokensUsedBilled : ℕ := 0
  costUsed : ℚ := 0
  exhausted : Bool := false
  modelDowngrade : Bool := false
  deriving DecidableEq

/-- A call of the model; `billed` is what the provider reports, if it does. -/
structure Call where
  system : Text
  user : Text
  response : Text
  billed : Option ℤ := none
  deriving DecidableEq

variable (cfg : Settings)

/-- `_estimate_tokens`: about four characters a token. -/
def estimateTokens (t : Text) : ℕ := max 1 (t.length / 4)

theorem estimateTokens_pos (t : Text) : 0 < estimateTokens t := by
  rw [estimateTokens]
  omega

namespace BudgetContext

/-- `BudgetContext.from_state`. -/
def fromState (s : TaskState) : BudgetContext :=
  let raw := s.tokenBudget.getD {}
  let costRaw := s.costBudget.getD {}
  { tokenLimit := raw.limit
    costLimit := costRaw.limit
    tokensUsed := raw.used
    tokensUsedEstimate := if raw.usedEstimate ≠ 0 then raw.usedEstimate else raw.used
    tokensUsedBilled := raw.usedBilled
    costUsed := costRaw.used
    exhausted := raw.exhausted
    modelDowngrade := raw.modelDowngrade }

/-- `apply_to_state`. -/
def applyToState (ctx : BudgetContext) (s : TaskState) : TaskState :=
  { s with
    tokenBudget := some {
      limit := ctx.tokenLimit
      used := if ctx.tokensUsedBilled ≠ 0 then ctx.tokensUsedBilled else ctx.tokensUsed
      usedEstimate := ctx.tokensUsedEstimate
      usedBilled := ctx.tokensUsedBilled
      exhausted := ctx.exhausted
      modelDowngrade := ctx.modelDowngrade }
    costBudget := some {
      limit := ctx.costLimit
      used := cfg.round6 ctx.costUsed
      exhausted := ctx.exhausted } }

/-- The error that `before_invoke` raises, if it does. -/
def refusal (ctx : BudgetContext) (c : Call) : Option Text :=
  let projected := ctx.tokensUsed + estimateTokens (c.system ++ c.user)
  if ctx.exhausted then some "Task budget already exhausted".toList
  else if 0 < ctx.tokenLimit ∧ ctx.tokenLimit < projected then
    some ("Token budget exceeded (".toList ++ (toString projected).toList ++ " > ".toList ++
      (toString ctx.tokenLimit).toList ++ ")".toList)
  else none

/-- What `before_invoke` leaves in the context, whether it raises or not. -/
def beforeInvoke (ctx : BudgetContext) (c : Call) : BudgetContext :=
  let projected := ctx.tokensUsed + estimateTokens (c.system ++ c.user)
  if ctx.exhausted then ctx
  else if 0 < ctx.tokenLimit ∧ ctx.tokenLimit < projected then { ctx with exhausted := true }
  else if 0 < ctx.tokenLimit ∧ (ctx.tokenLimit : ℚ) * cfg.downgradeRatio ≤ projected then
    { ctx with modelDowngrade := true }
  else ctx

/-- What `after_invoke` adds to the cost. -/
def costOf (c : Call) : ℚ :=
  let estimated := estimateTokens (c.system ++ c.user ++ c.response)
  if 0 < cfg.costPer1kTokens then (c.billed.getD estimated : ℚ) / 1000 * cfg.costPer1kTokens else 0

/-- `after_invoke`. -/
def afterInvoke (ctx : BudgetContext) (c : Call) : BudgetContext :=
  let estimated := estimateTokens (c.system ++ c.user ++ c.response)
  let billed := (c.billed.getD 0).toNat
  let tokensUsed := ctx.tokensUsed + if 0 < billed then billed else estimated
  let costUsed := ctx.costUsed + costOf cfg c
  { ctx with
    tokensUsed := tokensUsed
    tokensUsedEstimate := ctx.tokensUsedEstimate + estimated
    tokensUsedBilled := ctx.tokensUsedBilled + billed
    costUsed := costUsed
    exhausted := ctx.exhausted || (0 < ctx.tokenLimit && ctx.tokenLimit ≤ tokensUsed) ||
      (0 < ctx.costLimit && ctx.costLimit ≤ costUsed) }

variable {cfg}

@[simp] theorem tokensUsed_beforeInvoke (ctx : BudgetContext) (c : Call) :
    (ctx.beforeInvoke cfg c).tokensUsed = ctx.tokensUsed := by
  rw [beforeInvoke]
  split_ifs <;> rfl

@[simp] theorem tokensUsedBilled_beforeInvoke (ctx : BudgetContext) (c : Call) :
    (ctx.beforeInvoke cfg c).tokensUsedBilled = ctx.tokensUsedBilled := by
  rw [beforeInvoke]
  split_ifs <;> rfl

@[simp] theorem tokenLimit_beforeInvoke (ctx : BudgetContext) (c : Call) :
    (ctx.beforeInvoke cfg c).tokenLimit = ctx.tokenLimit := by
  rw [beforeInvoke]
  split_ifs <;> rfl

@[simp] theorem tokenLimit_afterInvoke (ctx : BudgetContext) (c : Call) :
    (ctx.afterInvoke cfg c).tokenLimit = ctx.tokenLimit := rfl

/-- A context that has used up its limit lets nothing through. -/
theorem isSome_refusal {ctx : BudgetContext} (hlimit : 0 < ctx.tokenLimit)
    (h : ctx.tokenLimit ≤ ctx.tokensUsed) (c : Call) : (ctx.refusal c).isSome := by
  have hestimate := estimateTokens_pos (c.system ++ c.user)
  rw [refusal]
  by_cases hexhausted : ctx.exhausted
  · rw [if_pos hexhausted]
    rfl
  · have hover : ctx.tokenLimit < ↑(ctx.tokensUsed + estimateTokens (c.system ++ c.user)) := by
      omega
    rw [if_neg hexhausted, if_pos ⟨hlimit, hover⟩]
    rfl

end BudgetContext

/-- `init_task_budget`. -/
def initTaskBudget (s : TaskState) : TaskState :=
  let tokenLimit :=
    if s.payloadTokenBudget ≠ 0 then s.payloadTokenBudget else cfg.defaultTokenBudget
  let costLimit := if s.payloadCostBudget ≠ 0 then s.payloadCostBudget else cfg.defaultCostBudget
  let ctx : BudgetContext := { tokenLimit := tokenLimit, costLimit := costLimit }
  ctx.applyToState cfg s

/-- `record_session_token_usage`: with the context of the call, or with one of its own. -/
def recordSessionTokenUsage (s : TaskState) (c : Call) (budgetCtx : Option BudgetContext) :
    TaskState :=
  let ctx := budgetCtx.getD ((BudgetContext.fromState s).afterInvoke cfg c)
  { s with
    tokenBudget := some {
      limit := ctx.tokenLimit
      used := ctx.tokensUsedBilled
      usedEstimate := ctx.tokensUsedEstimate
      usedBilled := ctx.tokensUsedBilled
      exhausted := ctx.exhausted
      modelDowngrade := ctx.modelDowngrade } }

end AgentLangraph.Budget
