import AgentLangraph.Lib.PyDict
import AgentLangraph.Lib.PyText
import AgentLangraph.Lib.Trace
import Mathlib.Tactic.SplitIfs

/-! The usage of the tenants (`tenant_quota.py`, the in-memory backend). A tenant has one record,
    for one day: whoever looks at it on another day finds a new one. The tasks that still run are
    counted in the record, so they are forgotten with it. -/

namespace AgentLangraph.Quota
open PyText Trace

structure TenantQuotaLimits where
  maxTasksPerDay : ℤ := 0
  maxTokensPerDay : ℤ := 0
  maxConcurrentTasks : ℤ := 0
  deriving DecidableEq

/-- `_TenantUsage`. -/
structure TenantUsage where
  tasksToday : ℕ := 0
  tokensToday : ℕ := 0
  activeTasks : ℕ := 0
  dayKey : Text
  deriving DecidableEq

inductive Resource
  | tasks | tokens | other
  deriving DecidableEq

/-- `MemoryQuotaBackend._usage`. -/
abbrev Backend := PyDict Text TenantUsage

/-- `tenant_id or "default"`. -/
def tenantKey (tenant : Text) : Text := if tenant = [] then "default".toList else tenant

namespace Backend

/-- `_get`: the record of the tenant if it is of the day, else a new one. -/
def get (b : Backend) (tenant day : Text) : TenantUsage :=
  match b.get? (tenantKey tenant) with
  | none => { dayKey := day }
  | some usage => if usage.dayKey = day then usage else { dayKey := day }

/-- Every method looks the record up, which may store a new one, and then changes it. -/
def touch (b : Backend) (tenant day : Text) (change : TenantUsage → TenantUsage) : Backend :=
  b.set (tenantKey tenant) (change (b.get tenant day))

/-- `snapshot`, the active tasks of it. -/
def active (b : Backend) (tenant day : Text) : ℕ := (b.get tenant day).activeTasks

end Backend

/-- What `check_quota` answers from the record it looks up. -/
def TenantUsage.allows (usage : TenantUsage) (r : Resource) (amount : ℤ) (lim : TenantQuotaLimits) :
    Bool :=
  match r with
  | .tasks =>
    !(decide (0 < lim.maxTasksPerDay ∧ lim.maxTasksPerDay < usage.tasksToday + amount)) &&
      !(decide (0 < lim.maxConcurrentTasks ∧ lim.maxConcurrentTasks < usage.activeTasks + amount))
  | .tokens => !(decide (0 < lim.maxTokensPerDay ∧ lim.maxTokensPerDay < usage.tokensToday + amount))
  | .other => true

/-- The methods of the backend; `check_quota` and `snapshot` look up only. -/
inductive Method
  | look
  | recordUsage (r : Resource) (amount : ℤ)
  | taskStarted
  | taskFinished
  deriving DecidableEq

/-- What the method does to the record. -/
def Method.change : Method → TenantUsage → TenantUsage
  | .look, usage => usage
  | .recordUsage .tasks amount, usage =>
    { usage with tasksToday := usage.tasksToday + amount.toNat }
  | .recordUsage .tokens amount, usage =>
    { usage with tokensToday := usage.tokensToday + amount.toNat }
  | .recordUsage .other _, usage => usage
  | .taskStarted, usage =>
    { usage with activeTasks := usage.activeTasks + 1, tasksToday := usage.tasksToday + 1 }
  | .taskFinished, usage => { usage with activeTasks := usage.activeTasks - 1 }

/-- A call of the backend for a tenant, on a day. -/
structure Visit where
  tenant : Text
  day : Text
  method : Method
  deriving DecidableEq

/-- `record_usage` of nothing does not even look. -/
def Backend.visit (b : Backend) (v : Visit) : Backend :=
  match v.method with
  | .recordUsage _ amount => if amount ≤ 0 then b else b.touch v.tenant v.day v.method.change
  | method => b.touch v.tenant v.day method.change

/-! ### How many tasks run -/

/-- The backend, and how many tasks of each tenant were started and have not finished. -/
structure Desk where
  backend : Backend := .empty
  running : Text → ℕ := fun _ => 0

/-- A finish is the finish of one of the tasks that run. -/
def Method.count : Method → ℕ → ℕ
  | .taskStarted, n => n + 1
  | .taskFinished, n => n - 1
  | _, n => n

def step (s : Desk) (v : Visit) : Desk :=
  { backend := s.backend.visit v
    running := fun t =>
      if t = tenantKey v.tenant then v.method.count (s.running t) else s.running t }

/-- Who asks right after the call, on its day, is told how many tasks of the tenant run. -/
def Reported (s : Desk) (v : Visit) : Prop :=
  (step s v).backend.active v.tenant v.day = (step s v).running (tenantKey v.tenant)

/-- The call does not come on a new day while a task runs, unless it is the finish of the only
    one. -/
def KeepsDay (s : Desk) (v : Visit) : Prop :=
  (s.backend.get? (tenantKey v.tenant)).any (fun usage => usage.dayKey = v.day) ∨
    match v.method with
    | .taskFinished => s.running (tenantKey v.tenant) ≤ 1
    | _ => s.running (tenantKey v.tenant) = 0

/-! ### What a call leaves in the record -/

theorem Method.activeTasks_change (m : Method) (usage : TenantUsage) :
    (m.change usage).activeTasks = m.count usage.activeTasks := by
  cases m with
  | recordUsage r amount => cases r <;> rfl
  | _ => rfl

theorem Method.dayKey_change (m : Method) (usage : TenantUsage) :
    (m.change usage).dayKey = usage.dayKey := by
  cases m with
  | recordUsage r amount => cases r <;> rfl
  | _ => rfl

namespace Backend

theorem dayKey_get (b : Backend) (tenant day : Text) : (b.get tenant day).dayKey = day := by
  rw [get]
  cases b.get? (tenantKey tenant) with
  | none => rfl
  | some usage =>
    dsimp only
    split_ifs with h
    · exact h
    · rfl

theorem get_touch (b : Backend) (tenant day : Text) {change : TenantUsage → TenantUsage}
    (hday : ∀ usage, (change usage).dayKey = usage.dayKey) :
    (b.touch tenant day change).get tenant day = change (b.get tenant day) := by
  have hkey : (change (b.get tenant day)).dayKey = day := by rw [hday, dayKey_get]
  conv_lhs => rw [get, touch, PyDict.get?_set_self]
  exact if_pos hkey

/-- Whatever the method, it counts from what a report of that day says. -/
theorem active_visit (b : Backend) (v : Visit) :
    (b.visit v).active v.tenant v.day = v.method.count (b.active v.tenant v.day) := by
  have htouch : (b.touch v.tenant v.day v.method.change).active v.tenant v.day =
      v.method.count (b.active v.tenant v.day) := by
    rw [active, active, get_touch b _ _ v.method.dayKey_change, Method.activeTasks_change]
  rw [visit]
  cases hmethod : v.method with
  | recordUsage r amount =>
    rw [hmethod] at htouch
    dsimp only
    split_ifs with hamount
    · rfl
    · exact htouch
  | _ =>
    rw [hmethod] at htouch
    exact htouch

theorem get?_visit_ne (b : Backend) (v : Visit) {t : Text} (h : t ≠ tenantKey v.tenant) :
    (b.visit v).get? t = b.get? t := by
  have htouch : ∀ change, (b.touch v.tenant v.day change).get? t = b.get? t := fun change =>
    PyDict.get?_set_ne b h.symm _
  rw [visit]
  cases v.method with
  | recordUsage r amount =>
    dsimp only
    split_ifs
    · rfl
    · exact htouch _
  | _ => exact htouch _

/-- The tasks in the record, of whatever day it is. -/
def stored (b : Backend) (key : Text) : ℕ := ((b.get? key).map TenantUsage.activeTasks).getD 0

def isOf (b : Backend) (key day : Text) : Bool := (b.get? key).any fun usage => usage.dayKey = day

theorem active_eq (b : Backend) (tenant day : Text) :
    b.active tenant day =
      if b.isOf (tenantKey tenant) day then b.stored (tenantKey tenant) else 0 := by
  rw [active, get, isOf, stored]
  cases b.get? (tenantKey tenant) with
  | none => rfl
  | some usage => by_cases h : usage.dayKey = day <;> simp [h]

theorem stored_touch (b : Backend) (tenant day : Text) (m : Method) :
    (b.touch tenant day m.change).stored (tenantKey tenant) = m.count (b.active tenant day) := by
  rw [stored, touch, PyDict.get?_set_self]
  exact m.activeTasks_change _

/-- A call counts in the record from what a report says, or does not touch it. -/
theorem stored_visit (b : Backend) (v : Visit) :
    (b.visit v).stored (tenantKey v.tenant) = v.method.count (b.active v.tenant v.day) ∨
      b.visit v = b ∧ v.method.count = id := by
  have htouch := b.stored_touch v.tenant v.day v.method
  rw [visit]
  cases hmethod : v.method with
  | recordUsage r amount =>
    rw [hmethod] at htouch
    dsimp only
    split_ifs with hamount
    · exact Or.inr ⟨rfl, rfl⟩
    · exact Or.inl htouch
  | _ =>
    rw [hmethod] at htouch
    exact Or.inl htouch

end Backend

/-! ### Runs of the backend -/

/-- Every record holds the number of tasks that run. -/
def Counted (s : Desk) : Prop := ∀ t, s.backend.stored t = s.running t

theorem running_step (s : Desk) (v : Visit) :
    (step s v).running (tenantKey v.tenant) = v.method.count (s.running (tenantKey v.tenant)) :=
  if_pos rfl

/-- The count from zero is the count from `n`. -/
theorem count_zero_eq_iff (m : Method) (n : ℕ) :
    m.count 0 = m.count n ↔ match m with | .taskFinished => n ≤ 1 | _ => n = 0 := by
  cases m <;> simp only [Method.count] <;> omega

theorem reported_iff_keepsDay {s : Desk} (h : Counted s) (v : Visit) :
    Reported s v ↔ KeepsDay s v := by
  rw [Reported, KeepsDay, running_step, show (step s v).backend = s.backend.visit v from rfl,
    Backend.active_visit, Backend.active_eq, h]
  by_cases hday : s.backend.isOf (tenantKey v.tenant) v.day
  · rw [if_pos hday]
    exact iff_of_true rfl (Or.inl hday)
  · rw [if_neg hday, count_zero_eq_iff]
    exact (or_iff_right hday).symm

theorem Counted.step {s : Desk} (h : Counted s) {v : Visit} (hkeeps : KeepsDay s v) :
    Counted (step s v) := by
  intro t
  by_cases ht : t = tenantKey v.tenant
  · subst ht
    rw [running_step]
    rcases s.backend.stored_visit v with hstored | ⟨hsame, hcount⟩
    · -- The report is right before the call in the sense that matters: the count from it is.
      have hreported := (reported_iff_keepsDay h v).2 hkeeps
      rw [Reported, running_step, show (Quota.step s v).backend = s.backend.visit v from rfl,
        Backend.active_visit] at hreported
      exact hstored.trans hreported
    · rw [hcount, show (Quota.step s v).backend = s.backend.visit v from rfl, hsame]
      exact h _
  · rw [show (Quota.step s v).running t = s.running t from if_neg ht, ← h t]
    rw [Backend.stored, Backend.stored, show (Quota.step s v).backend = s.backend.visit v from rfl,
      Backend.get?_visit_ne _ _ ht]

/-- Every report says how many tasks run exactly when no call comes on a new day while one runs,
    but for the finish of the only one. -/
theorem reported_iff (visits : List Visit) :
    Along step Reported {} visits ↔ Along step KeepsDay {} visits :=
  along_iff (fun _ v h => reported_iff_keepsDay h v) (fun _ _ h hkeeps => h.step hkeeps) visits _
    fun _ => rfl

/-- Two tasks start before midnight, one of them finishes after it. -/
def acrossMidnight : List Visit :=
  let visit (day : String) (method : Method) : Visit := ⟨"acme".toList, day.toList, method⟩
  [visit "2024-05-01" .taskStarted, visit "2024-05-01" .taskStarted,
    visit "2024-05-02" .taskFinished]

/-- The task that still runs is missing from the report. -/
theorem midnight_forgets_running : ¬ Along step Reported {} acrossMidnight := by
  rintro ⟨-, -, hfinish, -⟩
  exact absurd hfinish (by unfold Reported; decide +kernel)

end AgentLangraph.Quota
