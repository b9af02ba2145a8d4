import AgentLangraph.Agenda.Plan

/-! What a failure does to the agenda, and what a replan undoes. Both go along the dependencies: a failure
    blocks what depends on it through items that are not terminal, a replan resets what comes after its
    item through items that are blocked, failed or pending. -/

namespace AgentLangraph.Agenda
open PyText Relation

/-- An agenda in the form of `ensure_agenda_fields`, whose items have ids of their own. -/
structure Normalised (plan : Plan) : Prop where
  ensured : ensureAgendaFields plan = plan
  key_ne_nil : ∀ it ∈ plan.items, it.key ≠ []
  nodup : (plan.items.map Item.key).Nodup

/-- An item that is not terminal depends on another. -/
def FailureEdge (plan : Plan) (a b : Text) : Prop :=
  ∃ it ∈ plan.items, it.key = b ∧ a ∈ it.deps ∧ it.status ∉ terminalStatuses

/-- An item that is blocked, failed or pending depends on another. -/
def ReplanEdge (plan : Plan) (a b : Text) : Prop :=
  ∃ it ∈ plan.items, it.key = b ∧ a ∈ it.deps ∧ it.status ∈ [blocked, failed, pending]

/-! ### Agendas in form -/

theorem ensureAgendaFields_eq_self {plan : Plan} {v : ℤ} (hversion : plan.agendaVersion = some v)
    (hitems : ∀ it ∈ plan.items, it.Normal) : ensureAgendaFields plan = plan := by
  have hmap : plan.items.map Item.ensure = plan.items :=
    (List.map_congr_left fun it hit => (hitems it hit).ensure_eq).trans (List.map_id _)
  rw [ensureAgendaFields, hmap, hversion, Option.getD_some, ← hversion]

variable {plan : Plan}

theorem Normalised.exists_version (h : Normalised plan) : ∃ v, plan.agendaVersion = some v :=
  ⟨_, (congrArg Plan.agendaVersion h.ensured).symm⟩

theorem Normalised.normal (h : Normalised plan) {it : Item} (hit : it ∈ plan.items) : it.Normal := by
  have hmap : plan.items.map Item.ensure = plan.items := congrArg Plan.items h.ensured
  have hid : plan.items.map Item.ensure = plan.items.map id := by rw [hmap, List.map_id]
  exact Item.normal_of_ensure (h.key_ne_nil it hit) (List.map_inj_left.1 hid it hit)

theorem eq_of_key {items : List Item} (hnodup : (items.map Item.key).Nodup) {it it' : Item} (hit : it ∈ items)
    (hit' : it' ∈ items) (h : it.key = it'.key) : it = it' :=
  List.inj_on_of_nodup_map hnodup hit hit' h

/-- The item of an id. -/
theorem Normalised.byId_eq (h : Normalised plan) {it : Item} (hit : it ∈ plan.items) :
    plan.byId it.key = some it := by
  have hfilter : ∀ items : List Item, items ⊆ plan.items → (items.map Item.key).Nodup →
      (items.filter fun x => x.id.truthy && x.name == it.key) = if it ∈ items then [it] else [] := by
    intro items
    induction items with
    | nil => intros; rfl
    | cons x items ih =>
      intro hsub hnodup
      rw [List.map_cons, List.nodup_cons] at hnodup
      have hx := hsub List.mem_cons_self
      have hkey := h.key_ne_nil x hx
      have hrest := ih (fun y hy => hsub (List.mem_cons_of_mem _ hy)) hnodup.2
      by_cases heq : x = it
      · subst heq
        have hnot : x ∉ items := fun hin => hnodup.1 (List.mem_map_of_mem hin)
        rw [if_neg hnot] at hrest
        rw [List.filter_cons_of_pos (by simp [Item.truthy_of_key hkey, Item.name_eq_key hkey]), hrest,
          if_pos List.mem_cons_self]
      · have hne : x.name ≠ it.key := by
          rw [Item.name_eq_key hkey]
          exact fun hk => heq (eq_of_key h.nodup hx hit hk)
        rw [List.filter_cons_of_neg (by simp [hne]), hrest]
        simp [Ne.symm heq]
  rw [Plan.byId, hfilter plan.items (List.Subset.refl _) h.nodup, if_pos hit]
  rfl

theorem setFirst_eq_map {patch : Item → Item} {id : Text} : ∀ {items : List Item},
    (∀ it ∈ items, it.key ≠ []) → (items.map Item.key).Nodup →
      setFirst id patch items = items.map fun it => if it.key = id then patch it else it
  | [], _, _ => rfl
  | it :: items, hkeys, hnodup => by
    rw [List.map_cons, List.nodup_cons] at hnodup
    have hname := Item.name_eq_key (hkeys it List.mem_cons_self)
    rw [setFirst, List.map_cons, hname]
    split_ifs with hid
    · -- no other item has the id
      have hrest : (items.map fun it => if it.key = id then patch it else it) = items.map fun it => it := by
        refine List.map_congr_left fun x hx => if_neg fun hk => hnodup.1 ?_
        rw [hid, ← hk]
        exact List.mem_map_of_mem hx
      rw [hrest, List.map_id']
    · rw [setFirst_eq_map (fun x hx => hkeys x (List.mem_cons_of_mem _ hx)) hnodup.2]

/-- Setting a status in an agenda in form changes just the item of the id. -/
theorem setItemStatus_eq {v : ℤ} (hversion : plan.agendaVersion = some v)
    (hitems : ∀ it ∈ plan.items, it.Normal) (hnodup : (plan.items.map Item.key).Nodup)
    (id status reason : Text) (extra : Fields) :
    setItemStatus plan id status reason extra = { plan with
      items := plan.items.map fun it => if it.key = id then it.patched status reason extra else it } := by
  rw [setItemStatus, ensureAgendaFields_eq_self hversion hitems,
    setFirst_eq_map (fun it hit => (hitems it hit).key_ne_nil) hnodup]

/-! ### Items that are marked -/

section Marked

variable {f g : Item → Item} (hkey : ∀ it, (f it).key = it.key)

include hkey

theorem key_marked (ids : List Text) (it : Item) : (if it.key ∈ ids then f it else it).key = it.key := by
  split_ifs
  · exact hkey it
  · rfl

/-- Marking some items keeps the ids. -/
theorem keys_marked (ids : List Text) (items : List Item) :
    (items.map fun it => if it.key ∈ ids then f it else it).map Item.key = items.map Item.key := by
  rw [List.map_map]
  exact List.map_congr_left fun it _ => key_marked hkey ids it

/-- Marking one item more: the item of the id is marked whether or not it was, and the others are as they were. -/
theorem mark_one_more {f' : Item → Item} {id : Text} {ids : List Text} {items : List Item}
    (hself : ∀ it ∈ items, it.key = id → g (if it.key ∈ ids then f it else it) = f' it)
    (hother : ∀ it ∈ items, it.key ≠ id → f' it = f it) :
    (items.map fun it => if it.key ∈ ids then f it else it).map (fun it => if it.key = id then g it else it) =
      items.map fun it => if it.key ∈ id :: ids then f' it else it := by
  rw [List.map_map]
  refine List.map_congr_left fun it hit => ?_
  rw [Function.comp_apply, key_marked hkey]
  by_cases hid : it.key = id
  · have hnow : it.key ∈ id :: ids := by rw [hid]; exact List.mem_cons_self
    rw [if_pos hid, if_pos hnow, hself it hit hid]
  · have hnow : it.key ∈ id :: ids ↔ it.key ∈ ids := by simp [hid]
    rw [if_neg hid, hother it hit hid]
    simp only [hnow]

end Marked

/-- A status other than none, and other than blocked for want of something to depend on, keeps the form. -/
theorem Item.Normal.patched {it : Item} (h : it.Normal) {status reason : Text} (extra : Fields)
    (hne : status ≠ []) (hdeps : status = blocked → it.deps ≠ []) : (it.patched status reason extra).Normal :=
  ⟨h.key_ne_nil, h.deps_eq, h.deps_ne_nil, h.self_not_mem, hdeps, hne⟩

/-! ### The loop of `propagate_failure` -/

/-- The items with some of them blocked, each for a cause of its own. -/
def blockedItems (plan : Plan) (cause : Text → Text) (ids : List Text) : List Item :=
  plan.items.map fun it =>
    if it.key ∈ ids then it.patched blocked (failureReason (cause it.key)) PyDict.empty else it

/-- What holds in the loop: the items found so far are reached from the failure and blocked, for the item
    they were found from, and nothing depends on one that has left the queue without being found. The
    dependents of the current one that are still to be gone through are left out. -/
structure Spread (plan : Plan) (failedId current : Text) (todo : List Text)
    (s : Plan × List Text × List Text) : Prop where
  items : ∃ cause : Text → Text, s.1 = { plan with items := blockedItems plan cause s.2.1 } ∧
    ∀ k ∈ s.2.1, FailureEdge plan (cause k) k ∧ (cause k = failedId ∨ cause k ∈ s.2.1)
  reached : ∀ k ∈ s.2.1, TransGen (FailureEdge plan) failedId k
  queue : ∀ k ∈ s.2.2, k = failedId ∨ k ∈ s.2.1
  found : ∀ a, a = failedId ∨ a ∈ s.2.1 → a ∉ s.2.2 → ∀ b, FailureEdge plan a b →
    b ∈ s.2.1 ∨ a = current ∧ b ∈ todo

theorem normal_blockedItems (h : Normalised plan) {cause : Text → Text} {ids : List Text}
    (hids : ∀ k ∈ ids, ∃ a, FailureEdge plan a k) : ∀ it ∈ blockedItems plan cause ids, it.Normal := by
  intro it hit
  obtain ⟨x, hx, rfl⟩ := List.mem_map.1 hit
  have hnormal := h.normal hx
  split_ifs with hin
  · refine hnormal.patched _ (by decide) fun _ => ?_
    obtain ⟨a, y, hy, hkey, ha, -⟩ := hids _ hin
    rw [← eq_of_key h.nodup hy hx hkey]
    exact List.ne_nil_of_mem ha
  · exact hnormal

theorem keys_blockedItems (cause : Text → Text) (ids : List Text) :
    (blockedItems plan cause ids).map Item.key = plan.items.map Item.key :=
  keys_marked (f := fun it => it.patched blocked (failureReason (cause it.key)) PyDict.empty) (fun _ => rfl) ids
    plan.items

/-- Blocking changes neither ids nor dependencies. -/
theorem dependents_blockedItems (plan : Plan) (cause : Text → Text) (ids : List Text) (target : Text) :
    dependents { plan with items := blockedItems plan cause ids } target = dependents plan target := by
  have hsplit : ∀ items : List Item,
      ((items.map fun it => if it.key ∈ ids then it.patched blocked (failureReason (cause it.key)) PyDict.empty
        else it).filter fun it => target ∈ it.deps).map Item.name =
      (items.filter fun it => target ∈ it.deps).map Item.name := by
    intro items
    induction items with
    | nil => rfl
    | cons it items ih =>
      rw [List.map_cons, List.filter_cons, List.filter_cons]
      split_ifs <;> simp_all
  exact hsplit plan.items

theorem mem_dependents_of_edge (h : Normalised plan) {a b : Text} (hedge : FailureEdge plan a b) :
    b ∈ dependents plan a := by
  obtain ⟨it, hit, rfl, ha, -⟩ := hedge
  rw [← Item.name_eq_key (h.key_ne_nil it hit)]
  exact List.mem_map_of_mem (List.mem_filter.2 ⟨hit, by simpa using ha⟩)

/-- Blocking one item more. -/
theorem setItemStatus_blockedItems (h : Normalised plan) {cause : Text → Text} {ids : List Text} {child : Text}
    (hids : ∀ k ∈ ids, ∃ a, FailureEdge plan a k) (hnew : child ∉ ids) (current : Text) :
    setItemStatus { plan with items := blockedItems plan cause ids } child blocked (failureReason current)
      PyDict.empty =
    { plan with items := blockedItems plan (fun k => if k = child then current else cause k) (child :: ids) } := by
  obtain ⟨v, hversion⟩ := h.exists_version
  have hversion' : ({ plan with items := blockedItems plan cause ids } : Plan).agendaVersion = some v := hversion
  rw [setItemStatus_eq hversion' (normal_blockedItems h hids) (by rw [keys_blockedItems]; exact h.nodup)]
  have hmark : (blockedItems plan cause ids).map (fun it =>
      if it.key = child then it.patched blocked (failureReason current) PyDict.empty else it) =
      blockedItems plan (fun k => if k = child then current else cause k) (child :: ids) := by
    refine mark_one_more (f := fun it => it.patched blocked (failureReason (cause it.key)) PyDict.empty)
      (fun _ => rfl) (fun it _ hid => ?_) fun it _ hid => ?_
    · -- the item was as in the agenda before
      rw [hid, if_neg hnew]
      dsimp only
      rw [if_pos rfl]
    · dsimp only
      rw [if_neg hid]
  exact congrArg (fun items => { plan with items := items }) hmark

/-- A dependent that is not taken in now was found before, or no failure goes on to it. -/
theorem Spread.skip {failedId current child : Text} {todo : List Text} {s : Plan × List Text × List Text}
    (hs : Spread plan failedId current (child :: todo) s) (hfound : FailureEdge plan current child → child ∈ s.2.1) :
    Spread plan failedId current todo s := by
  refine ⟨hs.items, hs.reached, hs.queue, fun a ha hnot b hedge => ?_⟩
  rcases hs.found a ha hnot b hedge with hb | ⟨rfl, hb⟩
  · exact .inl hb
  · rcases List.mem_cons.1 hb with rfl | hb
    · exact .inl (hfound hedge)
    · exact .inr ⟨rfl, hb⟩

/-- A dependent is blocked and put into the queue. -/
theorem Spread.block (h : Normalised plan) {failedId current child : Text} {todo : List Text}
    {s : Plan × List Text × List Text} (hs : Spread plan failedId current (child :: todo) s)
    (hcurrent : current = failedId ∨ current ∈ s.2.1) (hnew : child ∉ s.2.1) (hedge : FailureEdge plan current child) :
    Spread plan failedId current todo
      (setItemStatus s.1 child blocked (failureReason current) PyDict.empty, child :: s.2.1, s.2.2 ++ [child]) := by
  obtain ⟨cause, hplan, hcause⟩ := hs.items
  refine ⟨⟨fun k => if k = child then current else cause k, ?_, ?_⟩, ?_, ?_, ?_⟩
  · dsimp only
    rw [hplan, setItemStatus_blockedItems h (fun k hk => ⟨_, (hcause k hk).1⟩) hnew]
  · intro k hk
    dsimp only
    by_cases hkc : k = child
    · rw [if_pos hkc, hkc]
      exact ⟨hedge, hcurrent.imp_right (List.mem_cons_of_mem _)⟩
    · rw [if_neg hkc]
      have hold := hcause k ((List.mem_cons.1 hk).resolve_left hkc)
      exact ⟨hold.1, hold.2.imp_right (List.mem_cons_of_mem _)⟩
  · intro k hk
    rcases List.mem_cons.1 hk with rfl | hk
    · rcases hcurrent with rfl | hmem
      · exact .single hedge
      · exact (hs.reached _ hmem).tail hedge
    · exact hs.reached k hk
  · intro k hk
    rcases List.mem_append.1 hk with hk | hk
    · exact (hs.queue k hk).imp_right (List.mem_cons_of_mem _)
    · rw [List.mem_singleton.1 hk]
      exact .inr List.mem_cons_self
  · intro a ha hnot b hedge'
    rw [List.mem_append, not_or, List.mem_singleton] at hnot
    have ha' : a = failedId ∨ a ∈ s.2.1 := ha.imp_right fun hmem => (List.mem_cons.1 hmem).resolve_left hnot.2
    rcases hs.found a ha' hnot.1 b hedge' with hb | ⟨rfl, hb⟩
    · exact .inl (List.mem_cons_of_mem _ hb)
    · rcases List.mem_cons.1 hb with rfl | hb
      · exact .inl List.mem_cons_self
      · exact .inr ⟨rfl, hb⟩

/-- One dependent: it is found already, or it is terminal, or it is blocked now and put into the queue. -/
theorem spread_child (h : Normalised plan) {failedId current child : Text} {todo : List Text}
    {s : Plan × List Text × List Text} (hchild : child ∈ dependents plan current)
    (hcurrent : current = failedId ∨ current ∈ s.2.1) (hs : Spread plan failedId current (child :: todo) s) :
    Spread plan failedId current todo (propagateChild plan.byId current s child) := by
  obtain ⟨it, hit, hname⟩ := List.mem_map.1 hchild
  obtain ⟨hin, hdep⟩ := List.mem_filter.1 hit
  have hdep : current ∈ it.deps := by simpa using hdep
  have hkey : it.key = child := by rw [← hname, Item.name_eq_key (h.key_ne_nil it hin)]
  rw [propagateChild]
  split_ifs with hseen
  · exact hs.skip fun _ => hseen
  · rw [← hkey, h.byId_eq hin]
    dsimp only
    split_ifs with hterminal
    · refine hs.skip ?_
      rintro ⟨y, hy, hykey, -, hlive⟩
      refine absurd ?_ hlive
      rw [eq_of_key h.nodup hy hin (hykey.trans hkey.symm)]
      exact hterminal
    · rw [hkey]
      exact hs.block h hcurrent hseen ⟨it, hin, hkey, hdep, hterminal⟩

/-- Nothing blocked is let go. -/
theorem subset_child (byId : Text → Option Item) (current child : Text) (s : Plan × List Text × List Text) :
    s.2.1 ⊆ (propagateChild byId current s child).2.1 := by
  rw [propagateChild]
  split_ifs
  · exact List.Subset.refl _
  · cases byId child with
    | none => exact List.Subset.refl _
    | some it =>
      dsimp only
      split_ifs
      · exact List.Subset.refl _
      · exact List.subset_cons_self _ _

/-- How many rounds are left at most: what waits in the queue, and what can still come into it. -/
def roundsLeft (plan : Plan) (s : Plan × List Text × List Text) : ℕ :=
  s.2.2.length + (Reach.missing Item.key plan.items s.2.1).length

theorem roundsLeft_child (h : Normalised plan) {current child : Text} (hchild : child ∈ dependents plan current)
    (s : Plan × List Text × List Text) :
    roundsLeft plan (propagateChild plan.byId current s child) ≤ roundsLeft plan s := by
  obtain ⟨it, hit, hname⟩ := List.mem_map.1 hchild
  have hin := List.mem_of_mem_filter hit
  have hkey : it.key = child := by rw [← hname, Item.name_eq_key (h.key_ne_nil it hin)]
  rw [propagateChild]
  split_ifs with hseen
  · exact le_rfl
  · rw [← hkey, h.byId_eq hin]
    dsimp only
    split_ifs
    · exact le_rfl
    · have hlt : (Reach.missing Item.key plan.items (it.key :: s.2.1)).length <
          (Reach.missing Item.key plan.items s.2.1).length := Reach.length_missing_lt hin (by rwa [hkey])
      rw [roundsLeft, roundsLeft, List.length_append, List.length_singleton]
      dsimp only
      omega

theorem spread_children (h : Normalised plan) {failedId current : Text} : ∀ {todo : List Text}
    {s : Plan × List Text × List Text}, (∀ c ∈ todo, c ∈ dependents plan current) →
    (current = failedId ∨ current ∈ s.2.1) → Spread plan failedId current todo s →
      Spread plan failedId current [] (todo.foldl (propagateChild plan.byId current) s) ∧
        roundsLeft plan (todo.foldl (propagateChild plan.byId current) s) ≤ roundsLeft plan s
  | [], _, _, _, hs => ⟨hs, le_rfl⟩
  | child :: todo, s, htodo, hcurrent, hs => by
    have hchild := htodo child List.mem_cons_self
    have hnext := spread_child h hchild hcurrent hs
    obtain ⟨hspread, hleft⟩ := spread_children h (fun c hc => htodo c (List.mem_cons_of_mem _ hc))
      (hcurrent.imp_right fun hmem => subset_child plan.byId current child s hmem) hnext
    exact ⟨hspread, hleft.trans (roundsLeft_child h hchild s)⟩

/-- The loop ends, with as many rounds as are left, and what holds in it holds at its end. -/
theorem exists_run (h : Normalised plan) {failedId : Text} : ∀ {fuel : ℕ} {current : Text}
    {s : Plan × List Text × List Text}, roundsLeft plan s < fuel → Spread plan failedId current [] s →
    ∃ last : Plan × List Text × List Text, Loop.run (propagateRound plan.byId) fuel s = some last.1 ∧
      last.2.2 = [] ∧ Spread plan failedId failedId [] last := by
  intro fuel
  induction fuel with
  | zero => intro current s hfuel; omega
  | succ fuel ih =>
    rintro previous ⟨p, found, queue⟩ hfuel hs
    cases queue with
    | nil =>
      refine ⟨(p, found, []), by rw [Loop.run_succ_inr]; rfl, rfl, hs.items, hs.reached, hs.queue, ?_⟩
      intro a ha hnot b hedge
      exact .inl ((hs.found a ha hnot b hedge).resolve_right fun hb => by cases hb.2)
    | cons current queue =>
      have hdependents : dependents p current = dependents plan current := by
        obtain ⟨cause, hplan, -⟩ := hs.items
        rw [show p = _ from hplan, dependents_blockedItems]
      have hcurrent : current = failedId ∨ current ∈ (p, found, queue).2.1 := hs.queue current List.mem_cons_self
      have hstart : Spread plan failedId current (dependents plan current) (p, found, queue) := by
        refine ⟨hs.items, hs.reached, fun k hk => hs.queue k (List.mem_cons_of_mem _ hk), ?_⟩
        intro a ha hnot b hedge
        by_cases hac : a = current
        · exact .inr ⟨hac, mem_dependents_of_edge h (hac ▸ hedge)⟩
        · refine .inl ((hs.found a ha ?_ b hedge).resolve_right fun hb => by cases hb.2)
          rw [List.mem_cons, not_or]
          exact ⟨hac, hnot⟩
      obtain ⟨hnext, hleft⟩ := spread_children h (fun c hc => hc) hcurrent hstart
      have hless : roundsLeft plan (p, found, current :: queue) = roundsLeft plan (p, found, queue) + 1 := by
        simp only [roundsLeft, List.length_cons]
        omega
      obtain ⟨last, hrun, hempty, hlast⟩ := ih (by omega) hnext
      refine ⟨last, ?_, hempty, hlast⟩
      rw [Loop.run_succ_inl (by rw [propagateRound]), hdependents]
      exact hrun

/-! ### `propagate_failure` -/

/-- An item that a failure blocks. -/
def Fails (plan : Plan) (failedId : Text) (it : Item) : Prop :=
  it.status ∉ terminalStatuses ∧ TransGen (FailureEdge plan) failedId it.key

/-- What a failure makes of the agenda: the items that it reaches are blocked, each for a dependency that is
    the failed one or blocked itself, and the others are as before. -/
structure Propagated (plan : Plan) (failedId : Text) (result : Plan) : Prop where
  rest : result = { plan with items := result.items }
  items : List.Forall₂ (fun it it' =>
    (Fails plan failedId it → ∃ cause ∈ it.deps,
      (cause = failedId ∨ TransGen (FailureEdge plan) failedId cause) ∧
        it' = it.patched blocked (failureReason cause) PyDict.empty) ∧
    (¬ Fails plan failedId it → it' = it)) plan.items result.items

theorem propagated (h : Normalised plan) (failedId : Text) :
    ∃ result, Loop.Returns (propagateRound plan.byId) (plan, [], [failedId]) result ∧
      propagateFailure plan failedId = result ∧ Propagated plan failedId result := by
  have hstart : Spread plan failedId failedId [] (plan, [], [failedId]) := by
    refine ⟨⟨fun k => k, ?_, by simp⟩, by simp, by simp, ?_⟩
    · simp [blockedItems]
    · intro a ha hnot
      simp at ha hnot
      exact absurd ha hnot
  have hfuel : roundsLeft plan (plan, [], [failedId]) < plan.items.length + 2 := by
    have hmissing : (Reach.missing Item.key plan.items []).length ≤ plan.items.length :=
      Reach.length_missing_le []
    rw [roundsLeft]
    dsimp only [List.length_singleton]
    omega
  obtain ⟨last, hrun, hempty, hlast⟩ := exists_run h hfuel hstart
  obtain ⟨cause, hplan, hcause⟩ := hlast.items
  have hfound : ∀ k, k ∈ last.2.1 ↔ TransGen (FailureEdge plan) failedId k := by
    have hnext : ∀ a, a = failedId ∨ a ∈ last.2.1 → ∀ b, FailureEdge plan a b → b ∈ last.2.1 := by
      intro a ha b hedge
      refine (hlast.found a ha ?_ b hedge).resolve_right fun hb => by cases hb.2
      rw [hempty]
      exact List.not_mem_nil
    exact fun k => Reach.mem_iff_transGen hlast.reached (hnext failedId (.inl rfl))
      fun a b ha hedge => hnext a (.inr ha) b hedge
  refine ⟨last.1, ⟨_, hrun⟩, ?_, ?_, ?_⟩
  · rw [propagateFailure, h.ensured, hrun, Option.getD_some]
  · rw [hplan]
  · have hitems : last.1.items = blockedItems plan cause last.2.1 := congrArg Plan.items hplan
    rw [hitems, blockedItems, List.forall₂_map_right_iff, List.forall₂_same]
    intro it hit
    constructor
    · rintro ⟨hlive, hreach⟩
      have hin := (hfound it.key).2 hreach
      obtain ⟨hedge, hfrom⟩ := hcause it.key hin
      obtain ⟨it', hit', hkey, hdep, -⟩ := hedge
      refine ⟨cause it.key, ?_, hfrom.imp_right (hfound _).1, if_pos hin⟩
      rwa [eq_of_key h.nodup hit' hit hkey] at hdep
    · intro hnot
      refine if_neg fun hin => hnot ⟨?_, (hfound it.key).1 hin⟩
      obtain ⟨⟨it', hit', hkey, -, hlive⟩, -⟩ := hcause it.key hin
      rwa [eq_of_key h.nodup hit' hit hkey] at hlive

/-! ### `local_replan_slice` -/

/-- The slice: what is reached from its item, and nothing else. -/
theorem exists_slice (plan : Plan) (itemId : Text) :
    ∃ reset, collectBlocked plan.items itemId = some reset ∧
      ∀ k, k ∈ reset ↔ ReflTransGen (ReplanEdge plan) itemId k := by
  let reached : List Text → Prop := fun found => ∀ k ∈ found, ReflTransGen (ReplanEdge plan) itemId k
  have hstep : ∀ found it, reached found → it ∈ plan.items → it.key ∉ found → replanAfter found it →
      reached (it.key :: found) := by
    intro found it hfound hit _ hafter k hk
    rw [replanAfter, Bool.and_eq_true, List.any_eq_true] at hafter
    obtain ⟨⟨a, ha, hin⟩, hstatus⟩ := hafter
    rcases List.mem_cons.1 hk with rfl | hk
    · exact (hfound a (by simpa using hin)).tail ⟨it, hit, rfl, ha, by simpa using hstatus⟩
    · exact hfound k hk
  have hfuel : (Reach.missing Item.key plan.items [itemId]).length < plan.items.length + 1 :=
    Nat.lt_succ_of_le (Reach.length_missing_le [itemId])
  have hstart : reached [itemId] := by
    intro k hk
    rw [List.mem_singleton.1 hk]
  obtain ⟨reset, hreset, hroot, hclosed, hreached⟩ := Reach.sweep_spec hstep hfuel hstart
  refine ⟨reset, hreset, fun k => ?_⟩
  refine Reach.mem_iff_reflTransGen hreached (hroot List.mem_cons_self) ?_
  rintro a b ha ⟨it, hit, rfl, hdep, hstatus⟩
  by_contra hnot
  have hafter := hclosed it hit hnot
  rw [replanAfter, Bool.and_eq_false_iff] at hafter
  rcases hafter with hany | hlive
  · have hany := List.any_eq_false.1 hany a hdep
    exact hany (by simpa using ha)
  · simp [hstatus] at hlive

/-- The items with some of them reset. -/
def resetItems (plan : Plan) (ids : List Text) : List Item :=
  plan.items.map fun it => if it.key ∈ ids then it.patched pending localReplan PyDict.empty else it

theorem patched_twice (it : Item) : (it.patched pending localReplan PyDict.empty).patched pending localReplan
    PyDict.empty = it.patched pending localReplan PyDict.empty := rfl

theorem normal_resetItems (h : Normalised plan) (ids : List Text) : ∀ it ∈ resetItems plan ids, it.Normal := by
  intro it hit
  obtain ⟨x, hx, rfl⟩ := List.mem_map.1 hit
  split_ifs
  · exact (h.normal hx).patched _ (by decide) fun hp => absurd hp (by decide)
  · exact h.normal hx

theorem keys_resetItems (ids : List Text) : (resetItems plan ids).map Item.key = plan.items.map Item.key :=
  keys_marked (f := fun it => it.patched pending localReplan PyDict.empty) (fun _ => rfl) ids plan.items

/-- Resetting ids one after another resets them all. -/
theorem foldl_reset (h : Normalised plan) : ∀ (todo ids : List Text),
    todo.foldl (fun plan rid => setItemStatus plan rid pending localReplan PyDict.empty)
      { plan with items := resetItems plan ids } = { plan with items := resetItems plan (todo ++ ids) }
  | [], _ => rfl
  | rid :: todo, ids => by
    obtain ⟨v, hversion⟩ := h.exists_version
    have hversion' : ({ plan with items := resetItems plan ids } : Plan).agendaVersion = some v := hversion
    have hstep : setItemStatus { plan with items := resetItems plan ids } rid pending localReplan PyDict.empty =
        { plan with items := resetItems plan (rid :: ids) } := by
      rw [setItemStatus_eq hversion' (normal_resetItems h ids) (by rw [keys_resetItems]; exact h.nodup)]
      have hmark : (resetItems plan ids).map (fun it =>
          if it.key = rid then it.patched pending localReplan PyDict.empty else it) = resetItems plan (rid :: ids) := by
        refine mark_one_more (f := fun it => it.patched pending localReplan PyDict.empty) (fun _ => rfl)
          (fun it _ _ => ?_) fun _ _ _ => rfl
        split_ifs
        · exact patched_twice it
        · rfl
      exact congrArg (fun items => { plan with items := items }) hmark
    have hsame : resetItems plan (todo ++ rid :: ids) = resetItems plan ((rid :: todo) ++ ids) := by
      refine List.map_congr_left fun x _ => ?_
      have hmem : x.key ∈ todo ++ rid :: ids ↔ x.key ∈ (rid :: todo) ++ ids := by
        simp [or_left_comm]
      simp only [hmem]
    rw [List.foldl_cons, hstep, foldl_reset h todo (rid :: ids), hsame]

/-- A replan resets the slice of its item, whatever order the ids are gone through in. -/
theorem localReplanSlice_eq (h : Normalised plan) (w : Walk) {itemId : Text} {reset : List Text}
    (hreset : collectBlocked plan.items itemId = some reset) :
    localReplanSlice w plan itemId = { plan with items := resetItems plan reset, currentId := .none } := by
  have hnone : plan = { plan with items := resetItems plan [] } := by simp [resetItems]
  have hsame : resetItems plan (w.order reset ++ []) = resetItems plan reset := by
    refine List.map_congr_left fun x _ => ?_
    simp only [List.append_nil, (w.perm reset).mem_iff]
  rw [localReplanSlice, h.ensured, hreset, Option.getD_some]
  have hfold := foldl_reset h (w.order reset) []
  rw [← hnone, hsame] at hfold
  rw [hfold]

/-! ### Failure and replan -/

/-- A failure blocks exactly the items that are not terminal and that it reaches through such items, and
    leaves the others as they are; a replan sets exactly its item and what it reaches through blocked, failed
    or pending items to pending. Both end, whatever the dependencies and the order of the items. -/
theorem failure_and_replan (plan : Plan) (h : Normalised plan) :
    (∀ failedId, ∃ result, Loop.Returns (propagateRound plan.byId) (plan, [], [failedId]) result ∧
      propagateFailure plan failedId = result ∧ Propagated plan failedId result) ∧
    ∀ (w : Walk) (itemId : Text), ∃ reset, collectBlocked plan.items itemId = some reset ∧
      (∀ k, k ∈ reset ↔ ReflTransGen (ReplanEdge plan) itemId k) ∧
      localReplanSlice w plan itemId = { plan with
        currentId := .none
        items := plan.items.map fun it =>
          if it.key ∈ reset then it.patched pending localReplan PyDict.empty else it } := by
  refine ⟨propagated h, fun w itemId => ?_⟩
  obtain ⟨reset, hreset, hmem⟩ := exists_slice plan itemId
  exact ⟨reset, hreset, hmem, localReplanSlice_eq h w hreset⟩

/-- Three items on a cycle, and one that is done. -/
def cyclic : Plan where
  items :=
    [{ id := .str "a".toList, dependsOn := .list ["c".toList], status := failed },
      { id := .str "b".toList, dependsOn := .list ["a".toList], status := pending },
      { id := .str "c".toList, dependsOn := .list ["b".toList], status := pending },
      { id := .str "d".toList, dependsOn := .list ["a".toList], status := done }]
  agendaVersion := some 1

theorem failure_and_replan_cyclic : ∃ result,
    Loop.Returns (propagateRound cyclic.byId) (cyclic, [], ["a".toList]) result ∧
      propagateFailure cyclic "a".toList = result ∧ Propagated cyclic "a".toList result :=
  (failure_and_replan cyclic ⟨by decide +kernel, by decide +kernel, by decide +kernel⟩).1 "a".toList

example : (propagateFailure cyclic "a".toList).items.map Item.status = [blocked, blocked, blocked, done] := by
  decide +kernel

end AgentLangraph.Agenda
