import AgentLangraph.Session.State

/-! Who sends a request, and whether a task is theirs (`auth_service.py`, `tenant_access.py`). A task
    belongs to the user that its row names; a row that names nobody belongs to everybody. -/

namespace AgentLangraph.Access
open PyText Session

/-- `AuthPrincipal`, beside its tenants. -/
structure AuthPrincipal where
  userId : Text
  role : Text
  deriving DecidableEq

/-- A row of the store: a state, and `str(state.get("user_id") or "")`. -/
structure Stored where
  userId : Text
  state : AgentState
  deriving DecidableEq

/-- The status of an `HTTPException`. -/
inductive Refusal
  | badRequest | forbidden | notFound
  deriving DecidableEq

/-- `assert_task_access`, of the owner that is stored for the task. -/
def assertTaskAccess (authEnabled : Bool) (p : AuthPrincipal) : Option Text → Except Refusal Unit
  | none => .error .notFound
  | some owner =>
    if p.role = "admin".toList ∨ authEnabled = false then .ok ()
    else if owner ≠ [] ∧ owner ≠ p.userId then .error .forbidden
    else .ok ()

/-- `if stored: assert_task_access(principal, task_id)`. -/
def assertStoredAccess (authEnabled : Bool) (p : AuthPrincipal) : Option Text → Except Refusal Unit
  | none => .ok ()
  | some owner => assertTaskAccess authEnabled p (some owner)

/-- The task belongs to another user. -/
def Foreign (p : AuthPrincipal) (owner : Text) : Prop :=
  p.role ≠ "admin".toList ∧ owner ≠ [] ∧ owner ≠ p.userId

/-- A task of another user is refused, and no other one. -/
theorem assertTaskAccess_iff {p : AuthPrincipal} {owner : Text} :
    assertTaskAccess true p (some owner) = .error .forbidden ↔ Foreign p owner := by
  rw [assertTaskAccess, Foreign]
  by_cases hadmin : p.role = "admin".toList
  · rw [if_pos (.inl hadmin)]
    exact iff_of_false (fun h => nomatch h) fun h => h.1 hadmin
  · rw [if_neg (not_or.2 ⟨hadmin, by decide⟩)]
    by_cases hother : owner ≠ [] ∧ owner ≠ p.userId
    · rw [if_pos hother]
      exact iff_of_true rfl ⟨hadmin, hother⟩
    · rw [if_neg hother]
      exact iff_of_false (fun h => nomatch h) fun h => hother h.2

end AgentLangraph.Access
