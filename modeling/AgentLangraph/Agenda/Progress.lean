import AgentLangraph.Agenda.Failure
import AgentLangraph.Lib.Layers

/-! Whether the agenda goes on. Only `done` satisfies a dependency, but an item can also end as cancelled or
    superseded: what depends on such an item waits for ever, and nothing is blocked. The agenda goes on as
    long as nothing unfinished depends on a dropped item.

        a cancelled ◀── b pending      nothing runnable, running, failed or blocked -/

namespace AgentLangraph.Agenda
open PyText Layers

/-! ### Operations and runs -/

/-- The operations of the agenda that change it. -/
inductive Op
  | ensure
  | setStatus (id status reason : Text) (extra : Fields)
  | propagate (failedId : Text)
  | merge (items : List Item) (mode : Text)
  | replan (w : Walk) (itemId : Text)

def Op.apply (plan : Plan) : Op → Plan
  | .ensure => ensureAgendaFields plan
  | .setStatus id status reason extra => setItemStatus plan id status reason extra
  | .propagate failedId => propagateFailure plan failedId
  | .merge items mode => mergeAgendaIntoWorkPlan plan items mode
  | .replan w itemId => localReplanSlice w plan itemId

/-- One item depends on another. -/
def DependsOn (items : List Item) (a b : Text) : Prop := ∃ it ∈ items, it.key = b ∧ a ∈ it.ensure.deps

/-- If something is pending and nothing running, failed or blocked, something can be run. -/
def Progress (plan : Plan) : Prop :=
  (∃ it ∈ (ensureAgendaFields plan).items, it.status = pending) →
  (∀ it ∈ (ensureAgendaFields plan).items, it.status ∉ [running, failed, blocked]) →
  runnableItems plan ≠ []

/-- An item that has not ended. -/
def Item.Unfinished (it : Item) : Prop := it.status ∉ terminalStatuses

/-- An item that has ended, or been taken out, without being done. -/
def Item.Dropped (it : Item) : Prop := it.status ∉ [] :: done :: activeStatuses

instance : DecidablePred Item.Unfinished := fun it => inferInstanceAs (Decidable (it.status ∉ terminalStatuses))

instance : DecidablePred Item.Dropped := fun it =>
  inferInstanceAs (Decidable (it.status ∉ [] :: done :: activeStatuses))

/-- Nothing that an item depends on is dropped. -/
def Open (items : List Item) (it : Item) : Prop := ∀ dep ∈ items, dep.key ∈ it.ensure.deps → ¬ dep.Dropped

instance (items : List Item) (it : Item) : Decidable (Open items it) :=
  inferInstanceAs (Decidable (∀ dep ∈ items, dep.key ∈ it.ensure.deps → ¬ dep.Dropped))

/-- The items have ids of their own, no dependencies in a circle, and nothing unfinished depends on a dropped
    item. -/
structure Kept (items : List Item) : Prop where
  key_ne_nil : ∀ it ∈ items, it.key ≠ []
  nodup : (items.map Item.key).Nodup
  acyclic : Acyclic (DependsOn items)
  unfinished : ∀ it ∈ items, it.Unfinished → Open items it

/-- What an operation may do: it drops no item that something unfinished depends on, it takes up no item
    again that depends on a dropped one, and the items that it adds fit to those there. -/
def Op.Safe (plan : Plan) : Op → Prop
  | .ensure => True
  | .setStatus id status _ _ =>
    (status ∈ [] :: done :: activeStatuses ∨ ∀ it ∈ plan.items, it.Unfinished → id ∉ it.ensure.deps) ∧
      (status ∈ terminalStatuses ∨ ∀ it ∈ plan.items, it.key = id → Open plan.items it)
  | .propagate _ => True
  | .merge items _ =>
    Kept (plan.items ++ items.filter fun it => it.name ∉ (plan.items.filter fun it => it.id.truthy).map Item.name)
  | .replan _ itemId => ∀ it ∈ plan.items, it.key = itemId → Open plan.items it

/-- A run each of whose operations is safe where it is carried out. -/
def SafeRun : Plan → List Op → Prop
  | _, [] => True
  | plan, op :: ops => op.Safe plan ∧ SafeRun (op.apply plan) ops

/-! ### Bringing items into form -/

theorem Item.status_ensure {it : Item} (hkey : it.key ≠ []) :
    it.ensure.status = it.status ∨ it.ensure.status = pending ∧ (it.status = blocked ∨ it.status = []) := by
  rw [ensure, status_repair hkey]
  dsimp only
  by_cases hblocked : it.status = blocked ∧ (it.dependsOn.texts.filter fun d => d ≠ it.key) = []
  · rw [if_pos hblocked, if_neg (by decide)]
    exact .inr ⟨rfl, .inl hblocked.1⟩
  · rw [if_neg hblocked]
    split_ifs with hnil
    · exact .inr ⟨rfl, .inr hnil⟩
    · exact .inl rfl

theorem Item.unfinished_ensure {it : Item} (hkey : it.key ≠ []) : it.ensure.Unfinished ↔ it.Unfinished := by
  rcases it.status_ensure hkey with h | ⟨h, hstatus | hstatus⟩
  · rw [Unfinished, Unfinished, h]
  · rw [Unfinished, Unfinished, h, hstatus]
    decide
  · rw [Unfinished, Unfinished, h, hstatus]
    decide

theorem Item.dropped_ensure {it : Item} (hkey : it.key ≠ []) : it.ensure.Dropped ↔ it.Dropped := by
  rcases it.status_ensure hkey with h | ⟨h, hstatus | hstatus⟩
  · rw [Dropped, Dropped, h]
  · rw [Dropped, Dropped, h, hstatus]
    decide
  · rw [Dropped, Dropped, h, hstatus]
    decide

theorem Item.status_ensure_ne_nil (it : Item) : it.ensure.status ≠ [] := by
  rw [ensure]
  dsimp only
  split_ifs with h
  · decide
  · exact h

/-- An item in form depends on the same ones when it is brought into form again, whatever its status. -/
theorem Item.deps_ensure_of {it it' : Item} (hkey : it.key ≠ []) (hid : it'.key = it.key)
    (hdeps : it'.dependsOn = it.ensure.dependsOn) (d : Text) :
    d ∈ it'.ensure.deps ↔ d ∈ it.ensure.deps := by
  have hlist : it.ensure.dependsOn.texts = it.ensure.deps.filter fun d => d ≠ [] := rfl
  rw [mem_deps_ensure (by rwa [hid]), hid, hdeps, hlist]
  simp only [List.mem_filter, decide_eq_true_eq, mem_deps_ensure hkey]
  tauto

/-! ### What keeps an agenda going -/

/-- An item after a change that leaves its id and its dependencies. -/
structure Changed (it it' : Item) : Prop where
  key_eq : it'.key = it.key
  deps_iff : ∀ d, d ∈ it'.ensure.deps ↔ d ∈ it.ensure.deps

/-- It has not ended, or been dropped, by the change. -/
structure Alike (it it' : Item) : Prop extends Changed it it' where
  unfinished_iff : it'.Unfinished ↔ it.Unfinished
  dropped_iff : it'.Dropped ↔ it.Dropped

theorem Alike.rfl {it : Item} : Alike it it := ⟨⟨Eq.refl _, fun _ => Iff.rfl⟩, Iff.rfl, Iff.rfl⟩

theorem alike_ensure {it : Item} (hkey : it.key ≠ []) : Alike it it.ensure :=
  ⟨⟨Eq.refl _, Item.deps_ensure_of hkey (Eq.refl _) (Eq.refl _)⟩, Item.unfinished_ensure hkey,
    Item.dropped_ensure hkey⟩

theorem changed_patched {it : Item} (hkey : it.key ≠ []) (status reason : Text) (extra : Fields) :
    Changed it (it.ensure.patched status reason extra) :=
  ⟨rfl, Item.deps_ensure_of hkey rfl rfl⟩

theorem keys_of_changed {items items' : List Item} (h : List.Forall₂ Changed items items') :
    items'.map Item.key = items.map Item.key := by
  induction h with
  | nil => rfl
  | cons hab _ ih => rw [List.map_cons, List.map_cons, hab.key_eq, ih]

theorem exists_of_related {R : Item → Item → Prop} {items items' : List Item} (h : List.Forall₂ R items items')
    {it' : Item} (hit' : it' ∈ items') : ∃ it ∈ items, R it it' := by
  induction h with
  | nil => cases hit'
  | cons hab _ ih =>
    rcases List.mem_cons.1 hit' with rfl | hit'
    · exact ⟨_, List.mem_cons_self, hab⟩
    · obtain ⟨it, hit, hc⟩ := ih hit'
      exact ⟨it, List.mem_cons_of_mem _ hit, hc⟩

theorem Kept.changed {items items' : List Item} (h : Kept items) (hchanged : List.Forall₂ Changed items items')
    (hopen : ∀ it ∈ items', it.Unfinished → Open items' it) : Kept items' := by
  refine ⟨fun it' hit' => ?_, ?_, fun a hcycle => h.acyclic a ?_, hopen⟩
  · obtain ⟨it, hit, hc⟩ := exists_of_related hchanged hit'
    rw [hc.key_eq]
    exact h.key_ne_nil it hit
  · rw [keys_of_changed hchanged]
    exact h.nodup
  · refine Relation.TransGen.mono ?_ a a hcycle
    rintro x y ⟨it', hit', hkey, hdep⟩
    obtain ⟨it, hit, hc⟩ := exists_of_related hchanged hit'
    exact ⟨it, hit, hc.key_eq ▸ hkey, (hc.deps_iff x).1 hdep⟩

theorem Open.alike {items items' : List Item} (halike : List.Forall₂ Alike items items') {it it' : Item}
    (hc : Changed it it') (h : Open items it) : Open items' it' := by
  intro dep' hdep' hneeds hdropped
  obtain ⟨dep, hdep, hcd⟩ := exists_of_related halike hdep'
  rw [hcd.key_eq, hc.deps_iff] at hneeds
  exact h dep hdep hneeds (hcd.dropped_iff.1 hdropped)

theorem Kept.alike {items items' : List Item} (h : Kept items) (halike : List.Forall₂ Alike items items') :
    Kept items' := by
  refine h.changed (halike.imp fun _ _ hc => hc.toChanged) fun it' hit' hlive => ?_
  obtain ⟨it, hit, hc⟩ := exists_of_related halike hit'
  exact (h.unfinished it hit (hc.unfinished_iff.1 hlive)).alike halike hc.toChanged

/-- The items with one of them set to a status, all in form. -/
def statusItems (items : List Item) (id status reason : Text) (extra : Fields) : List Item :=
  items.map fun it => if it.key = id then it.ensure.patched status reason extra else it.ensure

variable {items : List Item} {id status reason : Text} {extra : Fields}

theorem changed_statusItems (hkeys : ∀ it ∈ items, it.key ≠ []) :
    List.Forall₂ Changed items (statusItems items id status reason extra) := by
  rw [statusItems, List.forall₂_map_right_iff, List.forall₂_same]
  intro it hit
  split_ifs
  · exact changed_patched (hkeys it hit) _ _ _
  · exact (alike_ensure (hkeys it hit)).toChanged

/-- An item afterwards: it is the one that was set, or is as before. -/
theorem mem_statusItems (hkeys : ∀ it ∈ items, it.key ≠ []) {it' : Item}
    (hit' : it' ∈ statusItems items id status reason extra) :
    ∃ it ∈ items, Changed it it' ∧ (it.key = id ∧ it'.status = status ∨ it.key ≠ id ∧ Alike it it') := by
  obtain ⟨it, hit, rfl⟩ := List.mem_map.1 hit'
  have hkey := hkeys it hit
  refine ⟨it, hit, ?_, ?_⟩
  · split_ifs
    · exact changed_patched hkey _ _ _
    · exact (alike_ensure hkey).toChanged
  · split_ifs with hid
    · exact .inl ⟨hid, rfl⟩
    · exact .inr ⟨hid, alike_ensure hkey⟩

/-- Setting a status keeps the agenda going, if it drops nothing that is needed and takes up nothing that
    waits for a dropped item. -/
theorem Kept.setStatus (h : Kept items)
    (hdrop : status ∈ [] :: done :: activeStatuses ∨ ∀ it ∈ items, it.Unfinished → id ∉ it.ensure.deps)
    (htake : status ∈ terminalStatuses ∨ ∀ it ∈ items, it.key = id → Open items it) :
    Kept (statusItems items id status reason extra) := by
  refine h.changed (changed_statusItems h.key_ne_nil) ?_
  intro it' hit' hlive dep' hdep' hneeds hdropped
  obtain ⟨it, hit, hc, hcase⟩ := mem_statusItems h.key_ne_nil hit'
  obtain ⟨dep, hdep, hcd, hcase'⟩ := mem_statusItems h.key_ne_nil hdep'
  rw [hcd.key_eq, hc.deps_iff] at hneeds
  have hself : dep.key ≠ it.key := ((Item.mem_deps_ensure (h.key_ne_nil it hit)).1 hneeds).2.1
  rcases hcase' with ⟨hid', hstatus'⟩ | ⟨-, hsame'⟩
  · -- the dependency is the item that was set, so the item itself is as before
    have hold : it.Unfinished := by
      rcases hcase with ⟨hid, -⟩ | ⟨-, hsame⟩
      · exact absurd (hid'.trans hid.symm) hself
      · exact hsame.unfinished_iff.1 hlive
    rcases hdrop with hin | hfree
    · exact hdropped (hstatus' ▸ hin)
    · exact hfree it hit hold (hid' ▸ hneeds)
  · have hdrop' := hsame'.dropped_iff.1 hdropped
    rcases hcase with ⟨hid, hstatus⟩ | ⟨-, hsame⟩
    · rcases htake with hterm | hopen
      · exact hlive (hstatus ▸ hterm)
      · exact hopen it hit hid dep hdep hneeds hdrop'
    · exact h.unfinished it hit (hsame.unfinished_iff.1 hlive) dep hdep hneeds hdrop'

/-- What holds while items are taken up one after another, for blocking or for a replan: the items that are
    to be taken up wait for nothing that is dropped. -/
structure Raising (todo : Text → Prop) (items : List Item) : Prop where
  kept : Kept items
  takes : ∀ it ∈ items, todo it.key → Open items it

/-- Taking up one of them. -/
theorem Raising.setStatus {todo : Text → Prop} (h : Raising todo items) (hactive : status ∈ activeStatuses)
    (hid : todo id) : Raising todo (statusItems items id status reason extra) := by
  have hgood : status ∈ [] :: done :: activeStatuses := List.mem_cons_of_mem _ (List.mem_cons_of_mem _ hactive)
  refine ⟨h.kept.setStatus (.inl hgood) (.inr fun it hit hkey => h.takes it hit (hkey ▸ hid)), ?_⟩
  intro it' hit' htodo dep' hdep' hneeds hdropped
  obtain ⟨it, hit, hc, -⟩ := mem_statusItems h.kept.key_ne_nil hit'
  obtain ⟨dep, hdep, hcd, hcase⟩ := mem_statusItems h.kept.key_ne_nil hdep'
  rw [hcd.key_eq, hc.deps_iff] at hneeds
  rcases hcase with ⟨-, hstatus⟩ | ⟨-, hsame⟩
  · exact hdropped (hstatus ▸ hgood)
  · exact h.takes it hit (hc.key_eq ▸ htodo) dep hdep hneeds (hsame.dropped_iff.1 hdropped)

/-! ### The operations -/

variable {plan : Plan}

theorem alike_ensured (hkeys : ∀ it ∈ items, it.key ≠ []) : List.Forall₂ Alike items (items.map Item.ensure) := by
  rw [List.forall₂_map_right_iff, List.forall₂_same]
  exact fun it hit => alike_ensure (hkeys it hit)

/-- Bringing the items into form keeps the agenda going. -/
theorem Kept.ensure (h : Kept items) : Kept (items.map Item.ensure) := h.alike (alike_ensured h.key_ne_nil)

/-- Items added behind others that are brought into form. -/
theorem Kept.ensure_append {added : List Item} (h : Kept (items ++ added)) :
    Kept (items.map Item.ensure ++ added) :=
  h.alike (List.rel_append (alike_ensured fun it hit => h.key_ne_nil it (List.mem_append_left _ hit))
    (List.forall₂_same.2 fun _ _ => Alike.rfl))

theorem items_setItemStatus (h : Kept plan.items) :
    (setItemStatus plan id status reason extra).items = statusItems plan.items id status reason extra := by
  have hkeys : ∀ it ∈ plan.items.map Item.ensure, it.key ≠ [] := h.ensure.key_ne_nil
  rw [setItemStatus, statusItems]
  dsimp only [ensureAgendaFields]
  rw [setFirst_eq_map hkeys h.ensure.nodup, List.map_map]
  rfl

theorem mem_of_byId (hkeys : ∀ it ∈ plan.items, it.key ≠ []) {d : Text} {dep : Item}
    (h : plan.byId d = some dep) : dep ∈ plan.items ∧ dep.key = d := by
  have hin := List.mem_of_getLast? h
  obtain ⟨hmem, hname⟩ := List.mem_filter.1 hin
  rw [Bool.and_eq_true, beq_iff_eq] at hname
  exact ⟨hmem, by rw [← Item.name_eq_key (hkeys dep hmem), hname.2]⟩

/-- The items that `propagate_failure` may block: those that are not terminal at its beginning. -/
def Blockable (byId : Text → Option Item) (id : Text) : Prop := ∃ it, byId id = some it ∧ it.Unfinished

theorem raising_propagateChild {byId : Text → Option Item} {s : Plan × List Text × List Text}
    (h : Raising (Blockable byId) s.1.items) (current child : Text) :
    Raising (Blockable byId) (propagateChild byId current s child).1.items := by
  rw [propagateChild]
  split_ifs
  · exact h
  · cases hchild : byId child with
    | none => exact h
    | some it =>
      dsimp only
      split_ifs with hterminal
      · exact h
      · rw [items_setItemStatus h.kept]
        exact h.setStatus (by decide) ⟨it, hchild, hterminal⟩

theorem raising_children {byId : Text → Option Item} (current : Text) (children : List Text) :
    ∀ {s : Plan × List Text × List Text}, Raising (Blockable byId) s.1.items →
      Raising (Blockable byId) (children.foldl (propagateChild byId current) s).1.items := by
  induction children with
  | nil => exact fun hs => hs
  | cons child children ih => exact fun hs => ih (raising_propagateChild hs current child)

theorem kept_propagateFailure (h : Kept plan.items) (failedId : Text) :
    Kept (propagateFailure plan failedId).items := by
  have hstart : Kept (ensureAgendaFields plan).items := h.ensure
  let inv : Plan × List Text × List Text → Prop := fun s =>
    Raising (Blockable (ensureAgendaFields plan).byId) s.1.items
  have hinv : inv (ensureAgendaFields plan, [], [failedId]) := by
    refine ⟨hstart, fun it hit hblock => ?_⟩
    obtain ⟨before, hbefore, hlive⟩ := hblock
    obtain ⟨hmem, hkey⟩ := mem_of_byId hstart.key_ne_nil hbefore
    rw [eq_of_key hstart.nodup hmem hit hkey] at hlive
    exact hstart.unfinished it hit hlive
  rw [propagateFailure]
  cases hrun : Loop.run (propagateRound (ensureAgendaFields plan).byId)
      ((ensureAgendaFields plan).items.length + 2) (ensureAgendaFields plan, [], [failedId]) with
  | none => exact hstart
  | some result =>
    refine @Loop.run_inv _ _ _ inv (fun r => Kept r.items) ?_ ?_ _ _ _ hinv hrun
    · rintro ⟨p, found, queue⟩ s' hs hstep
      cases queue with
      | nil => cases hstep
      | cons current queue =>
        rw [propagateRound] at hstep
        cases hstep
        exact raising_children current _ hs
    · rintro ⟨p, found, queue⟩ r hs hstep
      cases queue with
      | nil =>
        cases hstep
        exact hs.kept
      | cons current queue => cases hstep

theorem raising_reset {todo : Text → Prop} (ids : List Text) : ∀ {p : Plan}, Raising todo p.items →
    (∀ id ∈ ids, todo id) → Raising todo
      (ids.foldl (fun plan rid => setItemStatus plan rid pending localReplan PyDict.empty) p).items := by
  induction ids with
  | nil => exact fun hp _ => hp
  | cons id ids ih =>
    intro p hp htodo
    refine ih ?_ fun id' hid' => htodo id' (List.mem_cons_of_mem _ hid')
    rw [items_setItemStatus hp.kept]
    exact hp.setStatus (by decide) (htodo id List.mem_cons_self)

/-- A replan takes up its item, and beside it only items that have not ended. -/
theorem kept_localReplanSlice (h : Kept plan.items) (w : Walk) {itemId : Text}
    (hopen : ∀ it ∈ plan.items, it.key = itemId → Open plan.items it) :
    Kept (localReplanSlice w plan itemId).items := by
  have hstart : Kept (ensureAgendaFields plan).items := h.ensure
  obtain ⟨reset, hreset, hmem⟩ := exists_slice (ensureAgendaFields plan) itemId
  have hraise : Raising (· ∈ reset) (ensureAgendaFields plan).items := by
    refine ⟨hstart, fun it hit hin => ?_⟩
    rcases Relation.ReflTransGen.cases_tail ((hmem it.key).1 hin) with hroot | ⟨a, -, hedge⟩
    · obtain ⟨before, hbefore, rfl⟩ := List.mem_map.1 hit
      exact (hopen before hbefore hroot).alike (alike_ensured h.key_ne_nil)
        (alike_ensure (h.key_ne_nil before hbefore)).toChanged
    · obtain ⟨it', hit', hkey, -, hstatus⟩ := hedge
      rw [eq_of_key hstart.nodup hit' hit hkey] at hstatus
      refine hstart.unfinished it hit fun hterm => ?_
      simp only [List.mem_cons, List.not_mem_nil, or_false] at hstatus
      rcases hstatus with hs | hs | hs <;> rw [hs] at hterm <;> revert hterm <;> decide
  rw [localReplanSlice, hreset, Option.getD_some]
  exact (raising_reset _ hraise fun id hid => (w.perm reset).mem_iff.1 hid).kept

theorem kept_merge {added : List Item} {mode : Text} (h : Kept plan.items)
    (hadded : (Op.merge added mode).Safe plan) : Kept (mergeAgendaIntoWorkPlan plan added mode).items := by
  have hnames : ((plan.items.map Item.ensure).filter fun it => it.id.truthy).map Item.name =
      (plan.items.filter fun it => it.id.truthy).map Item.name := by
    rw [List.filter_map, List.map_map]
    rfl
  rw [mergeAgendaIntoWorkPlan]
  by_cases hnil : added = []
  · rw [if_pos hnil]
    exact h.ensure
  · rw [if_neg hnil]
    dsimp only [ensureAgendaFields]
    rw [hnames]
    exact Kept.ensure_append hadded

/-- A safe operation keeps the agenda going. -/
theorem kept_apply (h : Kept plan.items) {op : Op} (hop : op.Safe plan) : Kept (op.apply plan).items := by
  cases op with
  | ensure => exact h.ensure
  | setStatus id status reason extra =>
    rw [Op.apply, items_setItemStatus h]
    exact h.setStatus hop.1 hop.2
  | propagate failedId => exact kept_propagateFailure h failedId
  | merge items mode => exact kept_merge h hop
  | replan w itemId => exact kept_localReplanSlice h w hop

theorem kept_run {ops : List Op} : ∀ {plan : Plan}, Kept plan.items → SafeRun plan ops →
    Kept (ops.foldl Op.apply plan).items := by
  induction ops with
  | nil => exact fun h _ => h
  | cons op ops ih => exact fun h hsafe => ih (kept_apply h hsafe.1) hsafe.2

theorem SafeRun.of_append : ∀ {ops rest : List Op} {plan : Plan}, SafeRun plan (ops ++ rest) → SafeRun plan ops
  | [], _, _, _ => trivial
  | _ :: _, _, _, h => ⟨h.1, h.2.of_append⟩

/-! ### Progress -/

/-- The first of the pending items can be run: what it depends on is neither pending nor dropped. -/
theorem progress_of_kept (h : Kept plan.items) : Progress plan := by
  rintro ⟨it₀, hit₀, hpending₀⟩ hquiet
  have hstart : Kept (ensureAgendaFields plan).items := h.ensure
  let waiting := (ensureAgendaFields plan).items.filter fun it => it.status = pending
  have hwaiting : waiting.map Item.key ≠ [] :=
    List.ne_nil_of_mem (List.mem_map_of_mem (List.mem_filter.2 ⟨hit₀, decide_eq_true hpending₀⟩))
  obtain ⟨first, hfirst, hbefore⟩ := hstart.acyclic.exists_first hwaiting
  obtain ⟨it, hin, rfl⟩ := List.mem_map.1 hfirst
  obtain ⟨hit, hpending⟩ := List.mem_filter.1 hin
  have hpending := of_decide_eq_true hpending
  have hmet : dependenciesMet it (ensureAgendaFields plan) = true := by
    rw [dependenciesMet, List.all_eq_true]
    intro d hd
    cases hdep : (ensureAgendaFields plan).byId d with
    | none => rfl
    | some dep =>
      obtain ⟨hmem, rfl⟩ := mem_of_byId hstart.key_ne_nil hdep
      have hneeds : dep.key ∈ it.ensure.deps := by
        obtain ⟨old, hold, rfl⟩ := List.mem_map.1 hit
        exact ((alike_ensure (h.key_ne_nil old hold)).deps_iff _).2 hd
      have hlive : it.Unfinished := by
        rw [Item.Unfinished, hpending]
        decide
      have hnot : dep.status ≠ pending := fun hp =>
        hbefore dep.key (List.mem_map_of_mem (List.mem_filter.2 ⟨hmem, decide_eq_true hp⟩)) ⟨it, hit, rfl, hneeds⟩
      have hnil : dep.status ≠ [] := by
        obtain ⟨before, -, rfl⟩ := List.mem_map.1 hmem
        exact before.status_ensure_ne_nil
      have hstatus : dep.status ∈ [] :: done :: activeStatuses :=
        not_not.1 (hstart.unfinished it hit hlive dep hmem hneeds)
      have hquiet := hquiet dep hmem
      simp only [activeStatuses, List.mem_cons, List.not_mem_nil, or_false, not_or] at hstatus hquiet
      rw [beq_iff_eq]
      rcases hstatus with hs | hs | hs | hs | hs | hs
      · exact absurd hs hnil
      · exact hs
      · exact absurd hs hnot
      · exact absurd hs hquiet.1
      · exact absurd hs hquiet.2.2
      · exact absurd hs hquiet.2.1
  refine List.ne_nil_of_mem (List.mem_filter.2 ⟨hit, ?_⟩)
  rw [hmet, Bool.and_true, beq_iff_eq]
  exact hpending

/-- In every run of safe operations from an agenda that goes on, every state reached goes on: a pending item
    beside which nothing is running, failed or blocked means that something can be run. -/
theorem agenda_progresses (plan : Plan) (ops : List Op) (h : Kept plan.items) (hsafe : SafeRun plan ops)
    (before after : List Op) (hops : ops = before ++ after) : Progress (before.foldl Op.apply plan) := by
  rw [hops] at hsafe
  exact progress_of_kept (kept_run h hsafe.of_append)

/-- A step that another depends on. -/
def twoSteps : Plan where
  items :=
    [{ id := .str "a".toList, dependsOn := .list [], status := pending },
      { id := .str "b".toList, dependsOn := .list ["a".toList], status := pending }]
  agendaVersion := some 1

def cancelled : Text := "cancelled".toList

/-- The dependencies of the two steps. -/
theorem dependsOn_twoSteps {a b : Text} (h : DependsOn twoSteps.items a b) : a = "a".toList ∧ b = "b".toList := by
  obtain ⟨it, hit, rfl, ha⟩ := h
  rcases List.mem_cons.1 hit with rfl | hit
  · rw [show (Item.ensure _).deps = [] by decide] at ha
    cases ha
  · rw [List.mem_singleton] at hit
    subst hit
    rw [show (Item.ensure _).deps = ["a".toList] by decide, List.mem_singleton] at ha
    exact ⟨ha, by decide⟩

theorem acyclic_twoSteps : Acyclic (DependsOn twoSteps.items) := by
  intro a hcycle
  obtain ⟨b, hfirst, -⟩ := Relation.TransGen.head'_iff.1 hcycle
  obtain ⟨c, -, hlast⟩ := Relation.TransGen.tail'_iff.1 hcycle
  have hab := (dependsOn_twoSteps hfirst).1.symm.trans (dependsOn_twoSteps hlast).2
  revert hab
  decide

theorem kept_twoSteps : Kept twoSteps.items :=
  ⟨by decide, by decide, acyclic_twoSteps, by decide⟩

theorem agenda_progresses_twoSteps :
    Progress (([.setStatus "a".toList done [] PyDict.empty] : List Op).foldl Op.apply twoSteps) :=
  agenda_progresses twoSteps
    [.setStatus "a".toList done [] PyDict.empty, .setStatus "b".toList running [] PyDict.empty] kept_twoSteps
    ⟨⟨.inl (by decide), .inl (by decide)⟩, ⟨.inl (by decide), .inr (by decide +kernel)⟩, trivial⟩
    [.setStatus "a".toList done [] PyDict.empty] [.setStatus "b".toList running [] PyDict.empty] rfl

/-- A step that is cancelled leaves what depends on it waiting for ever. -/
theorem cancelled_step_stops : ¬ ∀ (plan : Plan) (ops : List Op), Acyclic (DependsOn plan.items) →
    (∀ it ∈ plan.items, ∀ d ∈ it.ensure.deps, d ∈ plan.items.map Item.key) →
    Progress (ops.foldl Op.apply plan) := by
  intro h
  have hrun := h twoSteps [.setStatus "a".toList "cancelled".toList [] PyDict.empty] acyclic_twoSteps
    (by decide)
  have hpending : ∃ it ∈ (ensureAgendaFields (setItemStatus twoSteps "a".toList "cancelled".toList []
      PyDict.empty)).items, it.status = pending := by decide
  exact hrun hpending (by decide +kernel) (by decide +kernel)

/-! ### Working through the agenda -/

/-- Whoever works on the agenda takes the item that it offers and sets it done, so many times. -/
def drive : ℕ → Plan → List Item
  | 0, _ => []
  | n + 1, plan =>
    match selectNextRunnableItem plan with
    | none => []
    | some it => it :: drive n (setItemStatus plan it.name done [] PyDict.empty)

/-- An agenda in form whose items are pending or done, with no dependencies in a circle. -/
structure Workable (plan : Plan) : Prop extends Normalised plan where
  acyclic : Acyclic (DependsOn plan.items)
  quiet : ∀ it ∈ plan.items, it.status = pending ∨ it.status = done

def Plan.pendingKeys (plan : Plan) : List Text := (plan.items.filter fun it => it.status = pending).map Item.key

/-- An item of this id is done. -/
def Plan.DoneAt (plan : Plan) (id : Text) : Prop := ∃ it ∈ plan.items, it.key = id ∧ it.status = done

/-- What each item depends on was done before, or comes before it. -/
def InOrder (plan : Plan) (items : List Item) : Prop :=
  ∀ before it after, items = before ++ it :: after → ∀ d ∈ it.deps, d ∈ plan.items.map Item.key →
    d ∈ before.map Item.key ∨ plan.DoneAt d

theorem Workable.kept (h : Workable plan) : Kept plan.items where
  key_ne_nil := h.key_ne_nil
  nodup := h.nodup
  acyclic := h.acyclic
  unfinished it _ _ dep hdep _ hdropped := by
    rcases h.quiet dep hdep with hstatus | hstatus <;> rw [Item.Dropped, hstatus] at hdropped <;> revert hdropped <;>
      decide

theorem Workable.idle (h : Workable plan) : (plan.items.find? fun it => it.status == running) = none := by
  rw [List.find?_eq_none]
  intro it hit
  rcases h.quiet it hit with hstatus | hstatus <;> rw [hstatus] <;> decide

/-- What the agenda offers is pending, and what it depends on is done. -/
theorem Workable.selected (h : Workable plan) {it : Item} (hsel : selectNextRunnableItem plan = some it) :
    it ∈ plan.items ∧ it.status = pending ∧ dependenciesMet it plan = true := by
  rw [selectNextRunnableItem, h.ensured] at hsel
  dsimp only at hsel
  rw [h.idle] at hsel
  dsimp only at hsel
  split at hsel
  next current hcurrent =>
    cases hsel
    obtain ⟨hfound, hready⟩ := Option.filter_eq_some_iff.1 hcurrent
    rw [Bool.and_eq_true, beq_iff_eq] at hready
    split_ifs at hfound with hid
    exact ⟨(mem_of_byId h.key_ne_nil hfound).1, hready⟩
  next =>
    have hready := List.mem_of_head? hsel
    rw [runnableItems, h.ensured, List.mem_filter, Bool.and_eq_true, beq_iff_eq] at hready
    exact hready

theorem Workable.exists_selected (h : Workable plan) (hpending : plan.pendingKeys ≠ []) :
    ∃ it, selectNextRunnableItem plan = some it := by
  have hrunnable : runnableItems plan ≠ [] := by
    refine progress_of_kept h.kept ?_ ?_ <;> rw [h.ensured]
    · obtain ⟨it, hit⟩ := List.exists_mem_of_ne_nil _ fun hnil => hpending (congrArg (List.map Item.key) hnil)
      exact ⟨it, (List.mem_filter.1 hit).1, of_decide_eq_true (List.mem_filter.1 hit).2⟩
    · intro it hit
      rcases h.quiet it hit with hstatus | hstatus <;> rw [hstatus] <;> decide
  rw [selectNextRunnableItem, h.ensured]
  dsimp only
  rw [h.idle]
  dsimp only
  split
  · exact ⟨_, rfl⟩
  · exact Option.isSome_iff_exists.1 (List.isSome_head?.2 hrunnable)

/-- The agenda after an item of it is set done. -/
def Plan.withDone (plan : Plan) (id : Text) : Plan :=
  { plan with items := plan.items.map fun it => if it.key = id then it.patched done [] PyDict.empty else it }

theorem Workable.setItemStatus_done (h : Workable plan) {it : Item} (hit : it ∈ plan.items) :
    setItemStatus plan it.name done [] PyDict.empty = plan.withDone it.key := by
  obtain ⟨v, hv⟩ := h.exists_version
  rw [setItemStatus_eq hv (fun _ => h.normal) h.nodup, Item.name_eq_key (h.key_ne_nil it hit)]
  rfl

theorem mem_withDone {id : Text} {it' : Item} (hit' : it' ∈ (plan.withDone id).items) :
    ∃ it ∈ plan.items, it'.key = it.key ∧ it'.deps = it.deps ∧
      (it.key = id ∧ it' = it.patched done [] PyDict.empty ∨ it.key ≠ id ∧ it' = it) := by
  obtain ⟨it, hit, rfl⟩ := List.mem_map.1 hit'
  refine ⟨it, hit, ?_⟩
  split_ifs with hid <;> simp [hid]

theorem keys_withDone (plan : Plan) (id : Text) :
    (plan.withDone id).items.map Item.key = plan.items.map Item.key := by
  rw [Plan.withDone, List.map_map]
  refine List.map_congr_left fun it _ => ?_
  rw [Function.comp_apply]
  split_ifs <;> rfl

theorem Workable.withDone (h : Workable plan) (id : Text) : Workable (plan.withDone id) := by
  have hnormal : ∀ it ∈ (plan.withDone id).items, it.Normal := by
    intro it' hit'
    obtain ⟨it, hit, -, -, ⟨-, rfl⟩ | ⟨-, rfl⟩⟩ := mem_withDone hit'
    · exact (h.normal hit).patched _ (by decide) fun hblocked => absurd hblocked (by decide)
    · exact h.normal hit
  obtain ⟨v, hv⟩ := h.exists_version
  refine ⟨⟨ensureAgendaFields_eq_self hv hnormal, fun it hit => (hnormal it hit).key_ne_nil, ?_⟩,
    fun a hcycle => h.acyclic a (Relation.TransGen.mono ?_ a a hcycle), ?_⟩
  · rw [keys_withDone]
    exact h.nodup
  · rintro x y ⟨it', hit', hkey, hdep⟩
    rw [(hnormal it' hit').ensure_eq] at hdep
    obtain ⟨it, hit, hkey', hdeps, -⟩ := mem_withDone hit'
    exact ⟨it, hit, hkey'.symm.trans hkey, (h.normal hit).ensure_eq.symm ▸ hdeps ▸ hdep⟩
  · intro it' hit'
    obtain ⟨it, hit, -, -, ⟨-, rfl⟩ | ⟨-, rfl⟩⟩ := mem_withDone hit'
    · exact .inr rfl
    · exact h.quiet _ hit

theorem pendingKeys_withDone (plan : Plan) (id : Text) :
    (plan.withDone id).pendingKeys = plan.pendingKeys.filter (· ≠ id) := by
  rw [Plan.pendingKeys, Plan.withDone, Plan.pendingKeys, List.filter_map, List.filter_map, List.filter_filter,
    List.map_map]
  have hsame : plan.items.filter ((fun it => decide (it.status = pending)) ∘ fun it =>
      if it.key = id then it.patched done [] PyDict.empty else it) =
        plan.items.filter fun it => ((fun k => decide (k ≠ id)) ∘ Item.key) it && decide (it.status = pending) := by
    refine List.filter_congr fun it _ => ?_
    rw [Function.comp_apply, Function.comp_apply]
    split_ifs with hid
    · rw [decide_eq_false (not_not.2 hid), Bool.false_and, Item.status_patched]
      decide
    · rw [decide_eq_true hid, Bool.true_and]
  rw [hsame]
  refine List.map_congr_left fun it _ => ?_
  rw [Function.comp_apply]
  split_ifs <;> rfl

/-- What the item depends on and the agenda has is done. -/
theorem Workable.doneAt_of_met (h : Workable plan) {it : Item} (hmet : dependenciesMet it plan = true) {d : Text}
    (hd : d ∈ it.deps) (hin : d ∈ plan.items.map Item.key) : plan.DoneAt d := by
  obtain ⟨dep, hdep, rfl⟩ := List.mem_map.1 hin
  have hone := List.all_eq_true.1 hmet dep.key hd
  rw [h.byId_eq hdep] at hone
  exact ⟨dep, hdep, rfl, beq_iff_eq.1 hone⟩

/-- Whoever takes what the agenda offers and sets it done works through the pending items, each of them once and after
    those that it depends on. -/
theorem drive_pending : ∀ (n : ℕ) {plan : Plan}, Workable plan → plan.pendingKeys.length ≤ n →
    ((drive n plan).map Item.key).Perm plan.pendingKeys ∧ InOrder plan (drive n plan)
  | 0, plan, _, hn => by
    rw [List.length_eq_zero_iff.1 (Nat.le_zero.1 hn)]
    exact ⟨.nil, fun before it after hsplit => absurd hsplit (by simp [drive])⟩
  | n + 1, plan, h, hn => by
    rw [drive]
    cases hsel : selectNextRunnableItem plan with
    | none =>
      have hnil : plan.pendingKeys = [] := by
        by_contra hpending
        obtain ⟨it, hit⟩ := h.exists_selected hpending
        rw [hsel] at hit
        cases hit
      rw [hnil]
      exact ⟨.nil, fun before it after hsplit => absurd hsplit (by simp)⟩
    | some it =>
      obtain ⟨hit, hpending, hmet⟩ := h.selected hsel
      have hmem : it.key ∈ plan.pendingKeys :=
        List.mem_map_of_mem (List.mem_filter.2 ⟨hit, decide_eq_true hpending⟩)
      have hrest : (plan.withDone it.key).pendingKeys = plan.pendingKeys.erase it.key := by
        have hnodup : plan.pendingKeys.Nodup := h.nodup.sublist (List.filter_sublist.map _)
        rw [pendingKeys_withDone, hnodup.erase_eq_filter]
        exact List.filter_congr fun d _ => by rw [bne, beq_eq_decide, decide_not]
      dsimp only
      rw [h.setItemStatus_done hit]
      have ih := drive_pending n (h.withDone it.key) (by
        rw [hrest, List.length_erase_of_mem hmem]
        omega)
      rw [hrest] at ih
      refine ⟨(ih.1.cons it.key).trans (List.perm_cons_erase hmem).symm, ?_⟩
      intro before it' after hsplit d hd hin
      cases before with
      | nil =>
        rw [List.nil_append, List.cons.injEq] at hsplit
        rw [← hsplit.1] at hd
        exact .inr (h.doneAt_of_met hmet hd hin)
      | cons x before =>
        rw [List.cons_append, List.cons.injEq] at hsplit
        rw [← hsplit.1, List.map_cons, List.mem_cons]
        rcases ih.2 before it' after hsplit.2 d hd (keys_withDone plan it.key ▸ hin) with
          hbefore | ⟨y', hy', hkey, hdone⟩
        · exact .inl (.inr hbefore)
        · obtain ⟨y, hy, hkey', -, ⟨hid, -⟩ | ⟨-, rfl⟩⟩ := mem_withDone hy'
          · exact .inl (.inl (hkey.symm.trans (hkey'.trans hid)))
          · exact .inr ⟨_, hy, hkey, hdone⟩

theorem drive_pending_twoSteps : ((drive 2 twoSteps).map Item.key).Perm twoSteps.pendingKeys ∧
    InOrder twoSteps (drive 2 twoSteps) :=
  drive_pending 2 ⟨⟨by decide, by decide, by decide⟩, acyclic_twoSteps, by decide⟩ (by decide)

end AgentLangraph.Agenda
