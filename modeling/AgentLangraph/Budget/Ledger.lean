import AgentLangraph.Budget.Context
import AgentLangraph.Lib.Trace
import Mathlib.Algebra.Order.BigOperators.Group.List

/-! Whether the figure that the state of a task keeps is the sum of what its calls cost. A node holds
    a context that it read from the state, so a call may be known to the context and not to the
    state, or the other way; the books below keep, beside both, the calls that each of them knows.
    A write is right exactly when the writer knows every call and does not drop the estimates. -/

namespace AgentLangraph.Budget
open Trace

/-! ### What calls cost -/

namespace Call

/-- What the provider billed. -/
def billedTokens (c : Call) : ℕ := (c.billed.getD 0).toNat

def isBilled (c : Call) : Bool := 0 < c.billedTokens

/-- The charge for a call: what was billed, else the estimate. -/
def charge (c : Call) : ℕ :=
  if c.isBilled then c.billedTokens else estimateTokens (c.system ++ c.user ++ c.response)

theorem charge_of_isBilled {c : Call} (h : c.isBilled) : c.charge = c.billedTokens := if_pos h

theorem billedTokens_of_not_isBilled {c : Call} (h : ¬ c.isBilled) : c.billedTokens = 0 := by
  simpa [isBilled] using h

theorem charge_pos (c : Call) : 0 < c.charge := by
  rw [charge]
  split_ifs with h
  · simpa [isBilled] using h
  · exact estimateTokens_pos _

theorem billedTokens_lt_charge {c : Call} (h : ¬ c.isBilled) : c.billedTokens < c.charge := by
  rw [billedTokens_of_not_isBilled h]
  exact charge_pos c

theorem billedTokens_le_charge (c : Call) : c.billedTokens ≤ c.charge := by
  by_cases h : c.isBilled
  · rw [charge_of_isBilled h]
  · exact (billedTokens_lt_charge h).le

end Call

def total (calls : List Call) : ℕ := (calls.map Call.charge).sum

def totalBilled (calls : List Call) : ℕ := (calls.map Call.billedTokens).sum

@[simp] theorem total_nil : total [] = 0 := rfl

@[simp] theorem totalBilled_nil : totalBilled [] = 0 := rfl

@[simp] theorem total_cons (c : Call) (calls : List Call) :
    total (c :: calls) = c.charge + total calls := rfl

@[simp] theorem totalBilled_cons (c : Call) (calls : List Call) :
    totalBilled (c :: calls) = c.billedTokens + totalBilled calls := rfl

@[simp] theorem total_concat (calls : List Call) (c : Call) :
    total (calls ++ [c]) = total calls + c.charge := by
  simp [total]

@[simp] theorem totalBilled_concat (calls : List Call) (c : Call) :
    totalBilled (calls ++ [c]) = totalBilled calls + c.billedTokens := by
  simp [totalBilled]

theorem totalBilled_le_total : ∀ calls : List Call, totalBilled calls ≤ total calls
  | [] => le_rfl
  | c :: calls => by
      have hc := c.billedTokens_le_charge
      have ih := totalBilled_le_total calls
      rw [total_cons, totalBilled_cons]
      omega

theorem total_le_of_sublist {some all : List Call} (h : some.Sublist all) :
    total some ≤ total all := by
  induction h with
  | slnil => exact le_rfl
  | cons c _ ih => rw [total_cons]; omega
  | cons_cons c _ ih => rw [total_cons, total_cons]; omega

/-- Every call costs something, so who knows the whole cost knows every call. -/
theorem eq_of_total_eq {some all : List Call} (h : some.Sublist all)
    (htotal : total some = total all) : some = all := by
  induction h with
  | slnil => rfl
  | cons c h _ =>
    have hc := c.charge_pos
    have hle := total_le_of_sublist h
    rw [total_cons] at htotal
    omega
  | cons_cons c _ ih =>
    rw [total_cons, total_cons] at htotal
    rw [ih (by omega)]

theorem totalBilled_eq_total_iff : ∀ {calls : List Call},
    totalBilled calls = total calls ↔ ∀ c ∈ calls, c.isBilled
  | [] => by simp
  | c :: calls => by
      have ih : totalBilled calls = total calls ↔ ∀ c ∈ calls, c.isBilled := totalBilled_eq_total_iff
      have hle := totalBilled_le_total calls
      rw [List.forall_mem_cons, ← ih, total_cons, totalBilled_cons]
      by_cases hc : c.isBilled
      · rw [Call.charge_of_isBilled hc]
        simp [hc]
      · have hlt := Call.billedTokens_lt_charge hc
        constructor
        · intro heq
          omega
        · rintro ⟨hbilled, -⟩
          exact absurd hbilled hc

theorem totalBilled_eq_zero_iff {calls : List Call} :
    totalBilled calls = 0 ↔ ∀ c ∈ calls, ¬ c.isBilled := by
  simp [totalBilled, List.sum_eq_zero_iff, Call.isBilled]

/-- Who only knows what was billed knows the whole cost exactly when it knows every call and every
    call was billed. -/
theorem totalBilled_eq_iff {some all : List Call} (h : some.Sublist all) :
    totalBilled some = total all ↔ some = all ∧ ∀ c ∈ all, c.isBilled := by
  constructor
  · intro heq
    have hsome : some = all := by
      have hle := totalBilled_le_total some
      have hle' := total_le_of_sublist h
      exact eq_of_total_eq h (by omega)
    rw [hsome] at heq
    exact ⟨hsome, totalBilled_eq_total_iff.1 heq⟩
  · rintro ⟨rfl, hbilled⟩
    exact totalBilled_eq_total_iff.2 hbilled

/-! ### The books of a task -/

/-- A task, the context that a node holds, and the calls made, known to the context, and known to
    the state. -/
structure Books where
  task : TaskState
  ctx : BudgetContext
  made : List Call := []
  held : List Call := []
  kept : List Call := []

inductive Op
  /-- A call with the context in hand; `traced` when it is made on the state of the task. -/
  | invoke (c : Call) (traced : Bool)
  /-- A call without one, recorded on the state. -/
  | session (c : Call)
  | applyToState
  | fromState
  /-- What planning starts with. -/
  | replan

variable (cfg : Settings)

def Books.refuses (s : Books) (c : Call) : Bool := (s.ctx.refusal c).isSome

/-- A call that was let through. -/
def Books.invoke (s : Books) (c : Call) (traced : Bool) : Books :=
  let ctx := (s.ctx.beforeInvoke cfg c).afterInvoke cfg c
  let s := { s with ctx := ctx, made := s.made ++ [c], held := s.held ++ [c] }
  if traced then { s with task := recordSessionTokenUsage cfg s.task c (some ctx), kept := s.held }
  else s

def step (s : Books) : Op → Books
  | .invoke c traced =>
    if s.refuses c then { s with ctx := s.ctx.beforeInvoke cfg c } else s.invoke cfg c traced
  | .session c =>
    { s with
      task := recordSessionTokenUsage cfg s.task c none
      made := s.made ++ [c]
      kept := s.kept ++ [c] }
  | .applyToState => { s with task := s.ctx.applyToState cfg s.task, kept := s.held }
  | .fromState => { s with ctx := .fromState s.task, held := s.kept }
  | .replan =>
    let task := initTaskBudget cfg s.task
    { s with task := task, ctx := .fromState task, held := [], kept := [] }

/-- The books of a new task with the budgets of its payload. -/
def newTask (tokenBudget : ℤ) (costBudget : ℚ) : Books :=
  { task := { payloadTokenBudget := tokenBudget, payloadCostBudget := costBudget }, ctx := {} }

/-- The used tokens that the state keeps. -/
def TaskState.figure (s : TaskState) : ℕ := (s.tokenBudget.getD {}).used

def TaskState.limit (s : TaskState) : ℤ := (s.tokenBudget.getD {}).limit

def TaskState.limitReached (s : TaskState) : Prop := 0 < s.limit ∧ s.limit ≤ s.figure

instance (s : TaskState) : Decidable s.limitReached :=
  inferInstanceAs (Decidable (0 < s.limit ∧ s.limit ≤ s.figure))

/-- The step writes the budget of the task. -/
def Op.writes (s : Books) : Op → Bool
  | .invoke c traced => !s.refuses c && traced
  | .fromState => false
  | _ => true

/-- What is written is the sum of the charges so far, the figure does not fall, and a call that
    comes when it has reached the limit is refused. -/
structure Accounted (s : Books) (op : Op) : Prop where
  written : op.writes s → (step cfg s op).task.figure = total (step cfg s op).made
  grows : s.task.figure ≤ (step cfg s op).task.figure
  refused : ∀ c traced, op = .invoke c traced → s.task.limitReached → s.refuses c

/-- The writer knows every call so far, and none of the figures it leaves out was estimated. -/
def Meets (s : Books) : Op → Prop
  | .invoke c traced =>
    s.refuses c ∨ (s.task.limitReached → s.held = s.made) ∧
      (traced → s.held = s.made ∧ ∀ d ∈ s.made ++ [c], d.isBilled)
  | .session c => s.kept = s.made ∧ ∀ d ∈ s.made ++ [c], d.isBilled
  | .applyToState =>
    s.held = s.made ∧ ((∀ d ∈ s.made, d.isBilled) ∨ ∀ d ∈ s.made, ¬ d.isBilled)
  | .fromState => True
  | .replan => s.made = []

/-- The counters say what the calls cost that their holder knows. -/
structure Balanced (s : Books) : Prop where
  held_sublist : s.held.Sublist s.made
  kept_sublist : s.kept.Sublist s.made
  limit : s.ctx.tokenLimit = s.task.limit
  ctx_used : s.ctx.tokensUsed = total s.held
  ctx_billed : s.ctx.tokensUsedBilled = totalBilled s.held
  figure : s.task.figure = total s.kept
  task_billed : (s.task.tokenBudget.getD {}).usedBilled = totalBilled s.kept

theorem balanced_newTask (tokenBudget : ℤ) (costBudget : ℚ) :
    Balanced (newTask tokenBudget costBudget) where
  held_sublist := .slnil
  kept_sublist := .slnil
  limit := rfl
  ctx_used := rfl
  ctx_billed := rfl
  figure := rfl
  task_billed := rfl

variable {cfg}

theorem tokensUsed_afterInvoke (ctx : BudgetContext) (c : Call) :
    (ctx.afterInvoke cfg c).tokensUsed = ctx.tokensUsed + c.charge := by
  simp [BudgetContext.afterInvoke, Call.charge, Call.isBilled, Call.billedTokens]

theorem tokensUsedBilled_afterInvoke (ctx : BudgetContext) (c : Call) :
    (ctx.afterInvoke cfg c).tokensUsedBilled = ctx.tokensUsedBilled + c.billedTokens := rfl

/-! ### What a step writes -/

section Steps

variable {s : Books} (h : Balanced s)
include h

/-- What the context writes on `apply_to_state`. -/
theorem figure_applyToState :
    (s.ctx.applyToState cfg s.task).figure =
      if totalBilled s.held = 0 then total s.held else totalBilled s.held := by
  rw [TaskState.figure, BudgetContext.applyToState, ← h.ctx_used, ← h.ctx_billed]
  by_cases hzero : s.ctx.tokensUsedBilled = 0 <;> simp [hzero]

/-- What a call on the state of the task writes. -/
theorem figure_invoke (c : Call) :
    (s.invoke cfg c true).task.figure = totalBilled (s.held ++ [c]) := by
  rw [totalBilled_concat, ← h.ctx_billed]
  simp [Books.invoke, TaskState.figure, recordSessionTokenUsage, tokensUsedBilled_afterInvoke]

/-- What a call without a context writes. -/
theorem figure_session (c : Call) :
    (step cfg s (.session c)).task.figure = totalBilled (s.kept ++ [c]) := by
  rw [totalBilled_concat, ← h.task_billed]
  rfl

theorem figure_le_total : s.task.figure ≤ total s.made := by
  rw [h.figure]
  exact total_le_of_sublist h.kept_sublist

/-- With a context that knows every call, a limit that is reached is a limit that refuses. -/
theorem refuses_of_limitReached (hcurrent : s.held = s.made) (hreached : s.task.limitReached)
    (c : Call) : s.refuses c := by
  have hused := figure_le_total h
  rw [← hcurrent, ← h.ctx_used] at hused
  obtain ⟨hpos, hle⟩ := hreached
  rw [← h.limit] at hpos hle
  exact BudgetContext.isSome_refusal hpos (by omega) c

end Steps

/-! ### Which steps are accounted for -/

section Accounting

variable {s : Books} (h : Balanced s)
include h

/-- A write that is no call is accounted for exactly when it writes the sum. -/
theorem accounted_iff_written {op : Op} (hwrites : op.writes s)
    (hmade : total s.made ≤ total (step cfg s op).made)
    (hcall : ∀ c traced, op ≠ .invoke c traced) :
    Accounted cfg s op ↔ (step cfg s op).task.figure = total (step cfg s op).made := by
  constructor
  · intro haccounted
    exact haccounted.written hwrites
  · intro hsum
    have hfigure := figure_le_total h
    refine ⟨fun _ => hsum, by omega, fun c traced heq => ?_⟩
    exact absurd heq (hcall c traced)

theorem accounted_session_iff (c : Call) :
    Accounted cfg s (.session c) ↔ Meets s (.session c) := by
  have hmade : (step cfg s (.session c)).made = s.made ++ [c] := rfl
  rw [accounted_iff_written h rfl (by rw [hmade, total_concat]; omega) (by simp), figure_session h,
    hmade, totalBilled_eq_iff (h.kept_sublist.append_right [c]), List.append_cancel_right_eq]
  rfl

theorem accounted_applyToState_iff :
    Accounted cfg s .applyToState ↔ Meets s .applyToState := by
  rw [accounted_iff_written h rfl le_rfl (by simp), Meets,
    show (step cfg s .applyToState).task = s.ctx.applyToState cfg s.task from rfl,
    show (step cfg s .applyToState).made = s.made from rfl, figure_applyToState h]
  by_cases hzero : totalBilled s.held = 0
  · rw [if_pos hzero]
    constructor
    · intro hsum
      have hcurrent := eq_of_total_eq h.held_sublist hsum
      rw [hcurrent] at hzero
      exact ⟨hcurrent, Or.inr (totalBilled_eq_zero_iff.1 hzero)⟩
    · rintro ⟨hcurrent, -⟩
      rw [hcurrent]
  · rw [if_neg hzero, totalBilled_eq_iff h.held_sublist]
    refine and_congr_right fun hcurrent => (or_iff_left fun hnone => hzero ?_).symm
    rw [hcurrent]
    exact totalBilled_eq_zero_iff.2 hnone

omit h in
theorem accounted_fromState : Accounted cfg s .fromState := by
  refine ⟨fun hwrites => ?_, le_rfl, ?_⟩
  · cases hwrites
  · rintro c traced ⟨⟩

/-- A new budget says zero. -/
theorem accounted_replan_iff : Accounted cfg s .replan ↔ Meets s .replan := by
  rw [accounted_iff_written h rfl le_rfl (by simp), Meets,
    show (step cfg s .replan).task.figure = total [] from rfl,
    show (step cfg s .replan).made = s.made from rfl]
  constructor
  · intro hsum
    exact (eq_of_total_eq (List.nil_sublist s.made) hsum).symm
  · intro hmade
    rw [hmade]

omit h in
theorem accounted_refused {c : Call} (traced : Bool) (hrefuses : s.refuses c) :
    Accounted cfg s (.invoke c traced) := by
  have hstep : (step cfg s (.invoke c traced)).task = s.task := by simp [step, hrefuses]
  refine ⟨fun hwrites => ?_, by rw [hstep], fun d _ heq _ => ?_⟩
  · simp [Op.writes, hrefuses] at hwrites
  · rw [Op.invoke.injEq] at heq
    exact heq.1 ▸ hrefuses

/-- That a call was let through at the limit says that its context was behind. -/
theorem refused_iff {c : Call} (traced : Bool) (hrefuses : ¬ s.refuses c) :
    (∀ d t, Op.invoke c traced = .invoke d t → s.task.limitReached → s.refuses d) ↔
      (s.task.limitReached → s.held = s.made) := by
  constructor
  · intro hrefused hreached
    exact absurd (hrefused c traced rfl hreached) hrefuses
  · intro hcurrent d t heq hreached
    rw [Op.invoke.injEq] at heq
    exact heq.1 ▸ refuses_of_limitReached h (hcurrent hreached) hreached c

variable (cfg) in
theorem written_invoke_iff (c : Call) :
    (s.invoke cfg c true).task.figure = total (s.invoke cfg c true).made ↔
      s.held = s.made ∧ ∀ d ∈ s.made ++ [c], d.isBilled := by
  rw [figure_invoke h, show (s.invoke cfg c true).made = s.made ++ [c] from rfl,
    totalBilled_eq_iff (h.held_sublist.append_right [c]), List.append_cancel_right_eq]

theorem accounted_invoke_iff (c : Call) (traced : Bool) :
    Accounted cfg s (.invoke c traced) ↔ Meets s (.invoke c traced) := by
  rw [Meets]
  by_cases hrefuses : s.refuses c
  · simp only [hrefuses, true_or, iff_true]
    exact accounted_refused traced hrefuses
  have hstep : step cfg s (.invoke c traced) = s.invoke cfg c traced := by simp [step, hrefuses]
  simp only [hrefuses, false_or, Bool.false_eq_true, ← refused_iff h traced hrefuses]
  cases traced with
  | false =>
    simp only [Bool.false_eq_true, false_implies, and_true]
    refine ⟨fun haccounted => haccounted.refused, fun hrefused => ⟨?_, ?_, hrefused⟩⟩
    · intro hwrites
      simp [Op.writes] at hwrites
    · rw [hstep]
      exact le_rfl
  | true =>
    simp only [forall_const, ← written_invoke_iff cfg h]
    constructor
    · intro haccounted
      have hsum := haccounted.written (by simp [Op.writes, hrefuses])
      rw [hstep] at hsum
      exact ⟨haccounted.refused, hsum⟩
    · rintro ⟨hrefused, hsum⟩
      have hfigure := figure_le_total h
      refine ⟨fun _ => by rwa [hstep], ?_, hrefused⟩
      rw [hstep, hsum, show (s.invoke cfg c true).made = s.made ++ [c] from rfl, total_concat]
      omega

/-- A step is accounted for exactly when it meets the condition. -/
theorem accounted_iff_meets (op : Op) : Accounted cfg s op ↔ Meets s op := by
  cases op with
  | invoke c traced => exact accounted_invoke_iff h c traced
  | session c => exact accounted_session_iff h c
  | applyToState => exact accounted_applyToState_iff h
  | fromState => exact iff_of_true accounted_fromState trivial
  | replan => exact accounted_replan_iff h

end Accounting

/-! ### The books stay balanced -/

section Balance

variable {s : Books} (h : Balanced s)
include h

theorem Balanced.invoke {c : Call} {traced : Bool}
    (hmeets : traced → s.held = s.made ∧ ∀ d ∈ s.made ++ [c], d.isBilled) :
    Balanced (s.invoke cfg c traced) := by
  have hheld : (s.held ++ [c]).Sublist (s.made ++ [c]) := h.held_sublist.append_right [c]
  have hused : ((s.ctx.beforeInvoke cfg c).afterInvoke cfg c).tokensUsed =
      total (s.held ++ [c]) := by
    rw [tokensUsed_afterInvoke, BudgetContext.tokensUsed_beforeInvoke, h.ctx_used, total_concat]
  have hbilled : ((s.ctx.beforeInvoke cfg c).afterInvoke cfg c).tokensUsedBilled =
      totalBilled (s.held ++ [c]) := by
    rw [tokensUsedBilled_afterInvoke, BudgetContext.tokensUsedBilled_beforeInvoke, h.ctx_billed,
      totalBilled_concat]
  have hlimit : ((s.ctx.beforeInvoke cfg c).afterInvoke cfg c).tokenLimit = s.task.limit := by
    rw [BudgetContext.tokenLimit_afterInvoke, BudgetContext.tokenLimit_beforeInvoke, h.limit]
  cases traced with
  | false =>
    exact ⟨hheld, h.kept_sublist.trans (List.sublist_append_left _ _), hlimit, hused, hbilled,
      h.figure, h.task_billed⟩
  | true =>
    obtain ⟨hcurrent, hall⟩ := hmeets rfl
    refine ⟨hheld, hheld, rfl, hused, hbilled, ?_, hbilled⟩
    -- What is written is what was billed, and that is everything.
    rw [figure_invoke h, hcurrent, totalBilled_eq_total_iff.2 hall]
    exact congrArg (fun calls => total (calls ++ [c])) hcurrent.symm

theorem balanced_step {op : Op} (hmeets : Meets s op) : Balanced (step cfg s op) := by
  cases op with
  | invoke c traced =>
    by_cases hrefuses : s.refuses c
    · have hstep : step cfg s (.invoke c traced) =
          { s with ctx := s.ctx.beforeInvoke cfg c } := by simp [step, hrefuses]
      rw [hstep]
      refine ⟨h.held_sublist, h.kept_sublist, ?_, ?_, ?_, h.figure, h.task_billed⟩
      · rw [BudgetContext.tokenLimit_beforeInvoke, h.limit]
      · rw [BudgetContext.tokensUsed_beforeInvoke, h.ctx_used]
      · rw [BudgetContext.tokensUsedBilled_beforeInvoke, h.ctx_billed]
    · have hstep : step cfg s (.invoke c traced) = s.invoke cfg c traced := by
        simp [step, hrefuses]
      rw [hstep]
      exact h.invoke (hmeets.resolve_left hrefuses).2
  | session c =>
    obtain ⟨hcurrent, hall⟩ := hmeets
    have hkept : (step cfg s (.session c)).kept = s.kept ++ [c] := rfl
    refine ⟨h.held_sublist.trans (List.sublist_append_left _ _), h.kept_sublist.append_right [c],
      h.limit, h.ctx_used, h.ctx_billed, ?_, ?_⟩
    · rw [figure_session h, hkept, totalBilled_eq_total_iff]
      rwa [hcurrent]
    · rw [hkept, totalBilled_concat, ← h.task_billed]
      rfl
  | applyToState =>
    obtain ⟨hcurrent, hkind⟩ := hmeets
    refine ⟨h.held_sublist, h.held_sublist, rfl, h.ctx_used, h.ctx_billed, ?_, h.ctx_billed⟩
    rw [show (step cfg s .applyToState).task = s.ctx.applyToState cfg s.task from rfl,
      figure_applyToState h, show (step cfg s .applyToState).kept = s.held from rfl]
    by_cases hzero : totalBilled s.held = 0
    · rw [if_pos hzero]
    · rw [if_neg hzero, totalBilled_eq_total_iff, hcurrent]
      refine hkind.resolve_right fun hnone => hzero ?_
      rw [hcurrent]
      exact totalBilled_eq_zero_iff.2 hnone
  | fromState =>
    exact ⟨h.kept_sublist, h.kept_sublist, rfl, h.figure, h.task_billed, h.figure, h.task_billed⟩
  | replan =>
    exact ⟨List.nil_sublist _, List.nil_sublist _, rfl, rfl, rfl, rfl, rfl⟩

end Balance

/-! ### Whole tasks -/

/-- A task that plans once and whose calls are all made on its state and billed. -/
def Op.Plain : Op → Prop
  | .invoke c traced => traced ∧ c.isBilled
  | .applyToState | .fromState => True
  | .session _ | .replan => False

/-- Context and state know every call, and all were billed. -/
structure Plain (s : Books) : Prop where
  held : s.held = s.made
  kept : s.kept = s.made
  billed : ∀ d ∈ s.made, d.isBilled

theorem meets_of_plain {s : Books} (h : Plain s) {op : Op} (hop : op.Plain) : Meets s op := by
  cases op with
  | invoke c traced =>
    refine Or.inr ⟨fun _ => h.held, fun _ => ⟨h.held, ?_⟩⟩
    rw [List.forall_mem_append]
    exact ⟨h.billed, by simpa using hop.2⟩
  | applyToState => exact ⟨h.held, Or.inl h.billed⟩
  | fromState => trivial
  | session c => cases hop
  | replan => cases hop

theorem Plain.step {s : Books} (h : Plain s) {op : Op} (hop : op.Plain) :
    Plain (step cfg s op) := by
  cases op with
  | invoke c traced =>
    obtain ⟨htraced, hbilled⟩ := hop
    by_cases hrefuses : s.refuses c
    · have hstep : Budget.step cfg s (.invoke c traced) =
          { s with ctx := s.ctx.beforeInvoke cfg c } := by simp [Budget.step, hrefuses]
      rw [hstep]
      exact ⟨h.held, h.kept, h.billed⟩
    · have hstep : Budget.step cfg s (.invoke c traced) = s.invoke cfg c true := by
        simp [Budget.step, hrefuses, htraced]
      have hheld : s.held ++ [c] = s.made ++ [c] := by rw [h.held]
      rw [hstep]
      refine ⟨hheld, hheld, List.forall_mem_append.2 ⟨h.billed, by simpa using hbilled⟩⟩
  | applyToState => exact ⟨h.held, h.held, h.billed⟩
  | fromState => exact ⟨h.kept, h.kept, h.billed⟩
  | session c => cases hop
  | replan => cases hop

/-- CORRECT for what the budget was made for: one plan, and every call billed. -/
theorem accounted_of_plain : ∀ (ops : List Op) (s : Books), Balanced s → Plain s →
    (∀ op ∈ ops, op.Plain) → Along (step cfg) (Accounted cfg) s ops
  | [], _, _, _, _ => trivial
  | op :: ops, s, h, hplain, hops => by
      obtain ⟨hop, hops⟩ := List.forall_mem_cons.1 hops
      have hmeets := meets_of_plain hplain hop
      exact ⟨(accounted_iff_meets h op).2 hmeets,
        accounted_of_plain ops _ (balanced_step h hmeets) (hplain.step hop) hops⟩

/-- A task accounts for its calls exactly when each write comes from who knows every call so far,
    and leaves no estimate out. -/
theorem accounted_iff (cfg : Settings) (tokenBudget : ℤ) (costBudget : ℚ) (ops : List Op) :
    Along (step cfg) (Accounted cfg) (newTask tokenBudget costBudget) ops ↔
      Along (step cfg) Meets (newTask tokenBudget costBudget) ops :=
  along_iff (fun _ op h => accounted_iff_meets h op) (fun _ _ h hmeets => balanced_step h hmeets)
    ops _ (balanced_newTask tokenBudget costBudget)

def noCosts : Settings :=
  { defaultTokenBudget := 0, defaultCostBudget := 0, downgradeRatio := 4 / 5, costPer1kTokens := 0,
    round6 := id }

def callOf (billed : ℤ) : Call :=
  { system := "plan".toList, user := "goal".toList, response := "steps".toList, billed := billed }

/-- A task of 100 tokens uses them up, is planned again and goes on. -/
def replanned : List Op :=
  [.replan, .invoke (callOf 100) true, .applyToState, .replan, .invoke (callOf 60) true]

/-- Planning again starts the figure from zero. -/
theorem replan_forgets_charges :
    ¬ Along (step noCosts) (Accounted noCosts) (newTask 100 0) replanned := by
  rintro ⟨-, -, -, hreplan, -⟩
  exact absurd hreplan.grows (by decide +kernel)

end AgentLangraph.Budget
