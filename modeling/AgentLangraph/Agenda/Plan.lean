import AgentLangraph.Lib.Loop
import AgentLangraph.Lib.PyVal
import AgentLangraph.Lib.Reach

/-! The task agenda (`task_agenda.py`): the items of a work plan with what they depend on. Every operation
    first brings the items into the form of `ensure_agenda_fields`.

        pending ──▶ running ──▶ done │ cancelled │ superseded
           ▲           └──▶ failed ──propagate_failure──▶ dependents blocked
           └──────────── local_replan_slice ◀──────────────┘ -/

namespace AgentLangraph.Agenda
open PyText

/-! ### Items and plans -/

/-- `depends_on`: its elements as texts, or what stands there instead of a list, as a text. -/
inductive Deps
  | none
  | text (t : Text)
  | list (ts : List Text)
  deriving DecidableEq

/-- An item. The status is `str(status or "")`. -/
structure Item where
  id : PyVal := .none
  dependsOn : Deps := .none
  status : Text := []
  statusReason : Option Text := Option.none
  other : Fields := PyDict.empty
  deriving DecidableEq

/-- The items of a work plan that are dictionaries, and what the agenda reads beside them. -/
structure Plan where
  items : List Item := []
  currentId : PyVal := .none
  mode : Text := []
  totalItems : Option ℕ := Option.none
  agendaVersion : Option ℤ := Option.none
  deriving DecidableEq

def pending : Text := "pending".toList
def running : Text := "running".toList
def blocked : Text := "blocked".toList
def failed : Text := "failed".toList
def done : Text := "done".toList

/-- `TERMINAL_STATUSES`. -/
def terminalStatuses : List Text := [done, "cancelled".toList, "superseded".toList]

/-- `ACTIVE_STATUSES`. -/
def activeStatuses : List Text := [pending, running, blocked, failed]

/-- `str(row.get("id"))`. -/
def Item.name (it : Item) : Text := it.id.toText

/-- `str(row.get("id") or "")`. -/
def Item.key (it : Item) : Text := (it.id.orElse (.str [])).toText

/-- `row.get("depends_on") or []`, gone through: the characters of a text. -/
def Item.deps (it : Item) : List Text :=
  match it.dependsOn with
  | .none => []
  | .text t => t.map fun c => [c]
  | .list ts => ts

/-! ### The form of the items -/

/-- `depends_on` as a list of texts. -/
def Deps.texts : Deps → List Text
  | .none => []
  | .text t => [t]
  | .list ts => ts.filter fun d => d ≠ []

/-- One item of `repair_work_plan_dependencies`. -/
def Item.repair (it : Item) : Item :=
  let deps := if it.key = [] then it.dependsOn.texts else it.dependsOn.texts.filter fun d => d ≠ it.key
  { it with
    dependsOn := .list deps
    status := if it.status = blocked ∧ deps = [] ∧ it.key ≠ [] then pending else it.status }

/-- One item of `ensure_agenda_fields`. -/
def Item.ensure (it : Item) : Item :=
  { it.repair with
    dependsOn := .list it.repair.dependsOn.texts
    status := if it.repair.status = [] then pending else it.repair.status }

/-- `ensure_agenda_fields`. -/
def ensureAgendaFields (plan : Plan) : Plan :=
  { plan with items := plan.items.map Item.ensure, agendaVersion := some (plan.agendaVersion.getD 1) }

/-! ### Runnable items -/

/-- `_items_by_id`, at an id: the last item of it. -/
def Plan.byId (plan : Plan) (id : Text) : Option Item :=
  (plan.items.filter fun it => it.id.truthy && it.name == id).getLast?

/-- `dependencies_met`. -/
def dependenciesMet (it : Item) (plan : Plan) : Bool :=
  it.deps.all fun d =>
    match plan.byId d with
    | none => true
    | some dep => dep.status == done

/-- `runnable_items`. -/
def runnableItems (plan : Plan) : List Item :=
  let plan := ensureAgendaFields plan
  plan.items.filter fun it => it.status == pending && dependenciesMet it plan

/-- `select_next_runnable_item`. -/
def selectNextRunnableItem (plan : Plan) : Option Item :=
  let plan := ensureAgendaFields plan
  match plan.items.find? fun it => it.status == running with
  | some it => some it
  | none =>
    let current := if plan.currentId.truthy then plan.byId plan.currentId.toText else none
    match current.filter fun it => it.status == pending && dependenciesMet it plan with
    | some it => some it
    | none => (runnableItems plan).head?

/-! ### Operations -/

/-- The patch of `set_item_status`, with the other fields of `extra`. -/
def Item.patched (status reason : Text) (extra : Fields) (it : Item) : Item :=
  { it with
    status := status
    statusReason := if reason = [] then it.statusReason else some reason
    other := it.other.update extra }

/-- The first item of an id, changed. -/
def setFirst (id : Text) (patch : Item → Item) : List Item → List Item
  | [] => []
  | it :: items => if it.name = id then patch it :: items else it :: setFirst id patch items

/-- `set_item_status`. -/
def setItemStatus (plan : Plan) (id status reason : Text) (extra : Fields) : Plan :=
  let plan := ensureAgendaFields plan
  { plan with items := setFirst id (Item.patched status reason extra) plan.items }

/-- `_dependents`. -/
def dependents (plan : Plan) (target : Text) : List Text :=
  (plan.items.filter fun it => target ∈ it.deps).map Item.name

/-- The reason of an item that is blocked. -/
def failureReason (failedId : Text) : Text := "dependency_failed:".toList ++ failedId

/-- One dependent in the loop of `propagate_failure`: the plan, the blocked items, and the queue. -/
def propagateChild (byId : Text → Option Item) (current : Text) (s : Plan × List Text × List Text)
    (child : Text) : Plan × List Text × List Text :=
  if child ∈ s.2.1 then s
  else
    match byId child with
    | none => s
    | some it =>
      if it.status ∈ terminalStatuses then s
      else (setItemStatus s.1 child blocked (failureReason current) PyDict.empty, child :: s.2.1, s.2.2 ++ [child])

/-- One round of the loop of `propagate_failure`. -/
def propagateRound (byId : Text → Option Item) (s : Plan × List Text × List Text) :
    (Plan × List Text × List Text) ⊕ Plan :=
  match s.2.2 with
  | [] => .inr s.1
  | current :: queue =>
    .inl ((dependents s.1 current).foldl (propagateChild byId current) (s.1, s.2.1, queue))

/-- `propagate_failure`. -/
def propagateFailure (plan : Plan) (failedId : Text) : Plan :=
  let plan := ensureAgendaFields plan
  (Loop.run (propagateRound plan.byId) (plan.items.length + 2) (plan, [], [failedId])).getD plan

/-- `merge_agenda_into_work_plan`. -/
def mergeAgendaIntoWorkPlan (plan : Plan) (agendaItems : List Item) (mode : Text) : Plan :=
  let plan := ensureAgendaFields plan
  if agendaItems = [] then plan
  else
    let existing := (plan.items.filter fun it => it.id.truthy).map Item.name
    let merged := plan.items ++ agendaItems.filter fun it => it.name ∉ existing
    let version := plan.agendaVersion.getD 0
    { plan with
      items := merged
      totalItems := some merged.length
      mode := if plan.mode = [] then mode else plan.mode
      agendaVersion := some ((if version = 0 then 1 else version) + 1) }

/-- The items that a replan goes on to from what it resets. -/
def replanAfter (reset : List Text) (it : Item) : Bool :=
  it.deps.any (· ∈ reset) && it.status ∈ [blocked, failed, pending]

/-- `_collect_blocked`, from the root of the slice. -/
def collectBlocked (items : List Item) (itemId : Text) : Option (List Text) :=
  Reach.sweep Item.key replanAfter items (items.length + 1) [itemId]

/-- An order that a set of ids is gone through in. -/
structure Walk where
  order : List Text → List Text
  perm : ∀ l, (order l).Perm l

def localReplan : Text := "local_replan".toList

/-- `local_replan_slice`. -/
def localReplanSlice (w : Walk) (plan : Plan) (itemId : Text) : Plan :=
  let plan := ensureAgendaFields plan
  let reset := (collectBlocked plan.items itemId).getD []
  let plan := (w.order reset).foldl
    (fun plan rid => setItemStatus plan rid pending localReplan PyDict.empty) plan
  { plan with currentId := .none }

/-! ### Items in form -/

/-- An item in the form of `ensure_agenda_fields`, with an id. -/
structure Item.Normal (it : Item) : Prop where
  key_ne_nil : it.key ≠ []
  deps_eq : it.dependsOn = .list it.deps
  deps_ne_nil : ∀ d ∈ it.deps, d ≠ []
  self_not_mem : it.key ∉ it.deps
  blocked_deps : it.status = blocked → it.deps ≠ []
  status_ne_nil : it.status ≠ []

@[simp] theorem Item.key_ensure (it : Item) : it.ensure.key = it.key := rfl

@[simp] theorem Item.name_ensure (it : Item) : it.ensure.name = it.name := rfl

@[simp] theorem Item.id_ensure (it : Item) : it.ensure.id = it.id := rfl

@[simp] theorem Item.key_patched (status reason : Text) (extra : Fields) (it : Item) :
    (it.patched status reason extra).key = it.key := rfl

@[simp] theorem Item.name_patched (status reason : Text) (extra : Fields) (it : Item) :
    (it.patched status reason extra).name = it.name := rfl

@[simp] theorem Item.deps_patched (status reason : Text) (extra : Fields) (it : Item) :
    (it.patched status reason extra).deps = it.deps := rfl

@[simp] theorem Item.status_patched (status reason : Text) (extra : Fields) (it : Item) :
    (it.patched status reason extra).status = status := rfl

/-- An id that is not empty is the same whether or not it is checked. -/
theorem Item.truthy_of_key {it : Item} (h : it.key ≠ []) : it.id.truthy := by
  by_contra hfalse
  rw [key, PyVal.orElse, if_neg hfalse] at h
  exact h rfl

theorem Item.name_eq_key {it : Item} (h : it.key ≠ []) : it.name = it.key := by
  rw [name, key, PyVal.orElse, if_pos (truthy_of_key h)]

theorem filter_ne_nil {ds : List Text} (h : ∀ d ∈ ds, d ≠ []) : (ds.filter fun d => d ≠ []) = ds :=
  List.filter_eq_self.2 fun d hd => decide_eq_true (h d hd)

/-- An item in form is left as it is. -/
theorem Item.Normal.ensure_eq {it : Item} (h : it.Normal) : it.ensure = it := by
  have htexts : it.dependsOn.texts = it.deps := by
    rw [h.deps_eq, Deps.texts, filter_ne_nil h.deps_ne_nil]
  have hself : (it.deps.filter fun d => d ≠ it.key) = it.deps :=
    List.filter_eq_self.2 fun d hd => decide_eq_true fun heq => h.self_not_mem (heq ▸ hd)
  have hrepair : it.repair = it := by
    rw [repair, htexts, if_neg h.key_ne_nil, hself, if_neg fun hb => h.blocked_deps hb.1 hb.2.1, ← h.deps_eq]
  rw [ensure, hrepair, htexts, if_neg h.status_ne_nil, ← h.deps_eq]

theorem Item.dependsOn_repair {it : Item} (hkey : it.key ≠ []) :
    it.repair.dependsOn = .list (it.dependsOn.texts.filter fun d => d ≠ it.key) := by
  rw [repair, if_neg hkey]

theorem Item.status_repair {it : Item} (hkey : it.key ≠ []) : it.repair.status =
    if it.status = blocked ∧ (it.dependsOn.texts.filter fun d => d ≠ it.key) = [] then pending
    else it.status := by
  rw [repair, if_neg hkey]
  simp only [hkey, ne_eq, not_false_eq_true, and_true]

/-- What an item depends on once it is in form: neither on itself nor on an empty id. -/
theorem Item.mem_deps_ensure {it : Item} (hkey : it.key ≠ []) {d : Text} :
    d ∈ it.ensure.deps ↔ d ∈ it.dependsOn.texts ∧ d ≠ it.key ∧ d ≠ [] := by
  have hdeps : it.ensure.deps = (it.dependsOn.texts.filter fun d => d ≠ it.key).filter fun d => d ≠ [] := by
    rw [ensure, deps, dependsOn_repair hkey]
    rfl
  simp only [hdeps, List.mem_filter, decide_eq_true_eq, and_assoc]

/-- An item with an id that is left as it is, is in form. -/
theorem Item.normal_of_ensure {it : Item} (hkey : it.key ≠ []) (h : it.ensure = it) : it.Normal := by
  have hmem : ∀ d, d ∈ it.deps → d ∈ it.dependsOn.texts ∧ d ≠ it.key ∧ d ≠ [] := by
    intro d hd
    rw [← h] at hd
    exact (mem_deps_ensure hkey).1 hd
  have hlist : it.dependsOn = .list it.deps := by
    rw [← h]
    rfl
  have hstatus : it.ensure.status = it.status := by rw [h]
  rw [ensure, status_repair hkey] at hstatus
  refine ⟨hkey, hlist, fun d hd => (hmem d hd).2.2, fun hself => (hmem _ hself).2.1 rfl, ?_, ?_⟩
  · intro hblocked hnil
    have htexts : it.dependsOn.texts = [] := by
      rw [hlist, hnil]
      rfl
    simp only [hblocked, htexts, List.filter_nil, and_self, if_true] at hstatus
    revert hstatus
    decide
  · intro hnil
    have hne : ¬ (([] : Text) = blocked) := by decide
    simp only [hnil, hne, false_and, if_false, if_true] at hstatus
    revert hstatus
    decide

end AgentLangraph.Agenda
