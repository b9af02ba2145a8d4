import AgentLangraph.Access.Roles
import AgentLangraph.Lib.Trace

/-! The requests of one principal on one session, one after the other, and the role that the tool layer
    checks permissions under in the turns they start. No node writes the role, so the session keeps the one
    that it was last given.

        row ── request ──▶ turn ── tool node* ──▶ row -/

namespace AgentLangraph.Access
open PyText Session Run Tool Logged Trace

variable {σ : Type}

/-- What the tools of the session work with. -/
structure Tools (σ : Type) where
  backends : Backends σ
  order : Order
  /-- The skills that are registered as tools. -/
  skills : List Text

/-- A request, with what the graph makes of its turn. -/
structure Exchange (σ : Type) where
  request : Request
  /-- The passes of the tool node: what the nodes before it have put into the state, and the world. -/
  passes : List (NodeState × Logged σ Event) := []
  /-- The state that is stored in the end; nothing where the store keeps the row that it has. -/
  left : Option AgentState := none

/-- A payload that nodes have written to, none of which writes the role. -/
def bindRole (turn payload : Fields) : Fields :=
  match roleIn turn with
  | some v => payload.put "user_role" v
  | none => payload.pop "user_role"

/-- The state of the tool node in a turn. -/
def nodeOf (t : Stored) (x : NodeState) : NodeState :=
  { x with payload := bindRole t.state.inputPayload x.payload }

/-- The row after an exchange. -/
def afterExchange (g : Api) (p : AuthPrincipal) (row : Option Stored) (e : Exchange σ) : Option Stored :=
  match startTurn g p row e.request, e.left with
  | some t, some s => some ⟨t.userId, { s with inputPayload := bindRole t.state.inputPayload s.inputPayload }⟩
  | _, _ => row

/-- No permission of a turn is checked under a role that ranks above the principal. -/
structure TurnBound (k : Tools σ) (u : Letters) (p : AuthPrincipal) (e : Exchange σ) (t : Stored) : Prop where
  /-- By the node itself, whatever else the state holds. -/
  node : ∀ x, ∀ role ∈ toolRoles (nodeOf t x), rank role ≤ rank p.role
  skill : ∀ pass ∈ e.passes,
    ∀ ev ∈ added (toolExecutionNode k.backends u k.order (nodeOf t pass.1)) pass.2,
      OnHandled (SkillBound k.skills p) ev

def RoleBound (k : Tools σ) (g : Api) (p : AuthPrincipal) (row : Option Stored) (e : Exchange σ) : Prop :=
  ∀ t, startTurn g p row e.request = some t → TurnBound k g.letters p e t

/-- The role that a request brings does not rank above the principal: the one in the payload of a new task,
    or the one that is stored. -/
def OwnRequest (p : AuthPrincipal) (row : Option Stored) : Request → Prop
  | .createTask r =>
    match roleIn r.inputPayload with
    | some v => Within p (some v)
    | none => p.role ≠ []
  | .message _ _ =>
    match row with
    | some stored => Within p (roleIn stored.state.inputPayload)
    | none => 1 ≤ rank p.role

/-- A request that starts a turn brings no role that ranks too high, and neither does what the planner hands
    to a skill. -/
def OwnRoles (k : Tools σ) (g : Api) (p : AuthPrincipal) (row : Option Stored) (e : Exchange σ) : Prop :=
  ∀ t, startTurn g p row e.request = some t → OwnRequest p row e.request ∧ ∀ pass ∈ e.passes,
    SkillsWithin g.letters k.backends k.order k.skills p (nodeOf t pass.1) pass.2

@[simp] theorem roleIn_bindRole (turn payload : Fields) : roleIn (bindRole turn payload) = roleIn turn := by
  rw [bindRole]
  cases h : roleIn turn with
  | some v => exact PyDict.get?_set_self _ _ _
  | none => exact PyDict.get?_erase_self _ _

/-- REQUEST: a request brings no role that ranks too high exactly when its turn has none. -/
theorem within_givenRole_iff {p : AuthPrincipal} {row : Option Stored} {r : Request} :
    Within p (givenRole p row r) ↔ OwnRequest p row r := by
  cases r with
  | createTask r =>
    rw [givenRole, OwnRequest]
    cases roleIn r.inputPayload with
    | some v => exact Iff.rfl
    | none => exact within_own_iff
  | message m event =>
    cases row with
    | some stored => exact Iff.rfl
    | none => exact within_none_iff

/-- EXCHANGE: a turn checks no permission under a role that ranks too high exactly when it is given none. -/
theorem turnBound_iff {k : Tools σ} {g : Api} {p : AuthPrincipal} {row : Option Stored} {e : Exchange σ}
    {t : Stored} (ht : startTurn g p row e.request = some t) : TurnBound k g.letters p e t ↔
      OwnRequest p row e.request ∧ ∀ pass ∈ e.passes,
        SkillsWithin g.letters k.backends k.order k.skills p (nodeOf t pass.1) pass.2 := by
  have hnode : ∀ x, toolRoles (nodeOf t x) = readings (givenRole p row e.request) := fun x => by
    rw [toolRoles_eq, nodeOf, roleIn_bindRole, roleIn_startTurn ht]
  rw [← within_givenRole_iff]
  constructor
  · rintro ⟨hown, hskill⟩
    refine ⟨?_, fun pass hpass => (skillBound_node_iff _ _ _ _ _ _ _).1 (hskill pass hpass)⟩
    have hall := hown { taskId := [] }
    rwa [hnode] at hall
  · rintro ⟨hown, hskill⟩
    refine ⟨fun x => ?_, fun pass hpass => (skillBound_node_iff _ _ _ _ _ _ _).2 (hskill pass hpass)⟩
    rw [hnode]
    exact hown

/-- In a turn that is bound, the registry lets no call through to a tool that requires more than the
    principal has. -/
theorem TurnBound.admits {k : Tools σ} {u : Letters} {p : AuthPrincipal} {e : Exchange σ} {t : Stored}
    (h : TurnBound k u p e t) {x : NodeState} {name : Text} {q : Fields} {spec : ToolSpec σ}
    (hadmits : Admits k.backends.registry name q (nodeOf t x).userRole spec) :
    requiredLevel spec ≤ rank p.role :=
  calc requiredLevel spec ≤ actualLevel (nodeOf t x).userRole := requiredLevel_le_of_checkPermission hadmits.role
    _ = rank (guardRole (nodeOf t x).userRole) := actualLevel_eq _
    _ ≤ rank p.role := h.node x _ (by simp [toolRoles])

/-- The role that is stored does not rank above the principal. -/
def StoredWithin (p : AuthPrincipal) (row : Option Stored) : Prop :=
  ∀ stored ∈ row, Within p (roleIn stored.state.inputPayload)

/-- STEP: a session keeps a role that does not rank too high, unless a request brings one that does. -/
theorem storedWithin_step {g : Api} {p : AuthPrincipal} {row : Option Stored} (e : Exchange σ)
    (hrow : StoredWithin p row)
    (hown : ∀ t, startTurn g p row e.request = some t → OwnRequest p row e.request) :
    StoredWithin p (afterExchange g p row e) := by
  rw [afterExchange]
  cases ht : startTurn g p row e.request with
  | none => exact hrow
  | some t =>
    cases e.left with
    | none => exact hrow
    | some s =>
      rintro stored hstored
      cases hstored
      rw [roleIn_bindRole, roleIn_startTurn ht]
      exact within_givenRole_iff.2 (hown t ht)

/-- A new task of the session that brings no role of its own, or one that does not rank too high. -/
def OwnCreate (p : AuthPrincipal) (e : Exchange σ) : Prop :=
  match e.request with
  | .createTask r => OwnRequest p none (.createTask r)
  | .message _ _ => True

/-- RUN: of a principal that ranks as a user at least, the session never stores a role that ranks too high as
    long as no new task brings one; the messages only keep what is stored. -/
theorem storedWithin_run {g : Api} {p : AuthPrincipal} (hrank : 1 ≤ rank p.role) (trace : List (Exchange σ))
    {row : Option Stored} (hrow : StoredWithin p row) (hown : ∀ e ∈ trace, OwnCreate p e) :
    StoredWithin p (run (afterExchange g p) row trace) := by
  refine run_inv (P := OwnCreate p) (fun row e hrow he => storedWithin_step e hrow fun t _ => ?_) trace row hrow
    hown
  rw [OwnCreate] at he
  cases hreq : e.request with
  | createTask r =>
    rw [hreq] at he
    exact he
  | message m event =>
    cases row with
    | none => exact hrank
    | some stored => exact hrow stored rfl

/-! ### A user that asks for the rights of an admin -/

/-- A new task whose payload names the role itself. -/
def asAdmin : Exchange Unit where
  request := .createTask
    { inputPayload := (PyDict.empty.put "goal" (.str "clean up".toList)).put "user_role" (.str "admin".toList) }

end AgentLangraph.Access
