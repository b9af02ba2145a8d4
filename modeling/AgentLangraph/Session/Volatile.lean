import AgentLangraph.Session.Store

/-! What a save restores (`StateStore._preserve_volatile_fields`). A snapshot leaves a volatile key out by
    not having it, and for a channel of the schema also by having it as `None`, since
    `ensure_agent_state` adds every channel it does not find. The save looks for keys that are not
    there, so the one volatile key that is a channel, `pending_user_message`, is lost; after that the
    guard may still rewrite the keys of the state machine. -/

namespace AgentLangraph.Session
open PyText

/-- A stored state: `load` returns every channel. -/
structure Stored where
  state : AgentState
  pendingUserMessage : PyVal := .none

/-- A snapshot as it comes to `save`: the channel may be missing, or be `None`. -/
structure Snapshot where
  state : AgentState
  pendingUserMessage : Option PyVal := none

/-- `ensure_agent_state`: a channel that is missing is there afterwards, as `None`. -/
def ensureAgentState (snap : Snapshot) : Snapshot :=
  { snap with pendingUserMessage := some (snap.pendingUserMessage.getD .none) }

/-- `if existing.get(key) is not None and key not in merged`, for the channel. -/
def restorePending (existing : PyVal) (incoming : Option PyVal) : PyVal :=
  if existing ≠ .none ∧ incoming = none then existing else incoming.getD .none

/-- The part of `_save` that writes, with the channel. -/
def writeSnapshot (w : Surroundings) (row : Stored) (snap : Snapshot) : Except SaveError Stored :=
  (writeRow w (some row.state) snap.state).map fun s =>
    ⟨s, restorePending row.pendingUserMessage snap.pendingUserMessage⟩

/-- A save over a stored state that is dropped: of a deleted task, or held off by a terminal row. -/
def Dropped (w : Surroundings) (row : Stored) (snap : Snapshot) : Prop :=
  w.tombstoned = true ∨ Protects (some row.state) snap.state

instance (w : Surroundings) (row : Stored) (snap : Snapshot) : Decidable (Dropped w row snap) :=
  inferInstanceAs (Decidable (_ ∨ _))

/-- `StateStore.save` over a stored state: the row afterwards. -/
def saveSnapshot (w : Surroundings) (row : Stored) (snap : Snapshot) : Except SaveError Stored :=
  if Dropped w row snap then .ok row else writeSnapshot w row snap

/-! ### What is owed -/

/-- The snapshot carries a new `steer_applied_at`. -/
def NewSteerBatch (row : Stored) (snap : Snapshot) : Prop :=
  (steerAt snap.state).truthy = true ∧ steerAt snap.state ≠ steerAt row.state

instance (row : Stored) (snap : Snapshot) : Decidable (NewSteerBatch row snap) :=
  inferInstanceAs (Decidable (_ ∧ _))

/-- A key of the state that has a stored value and is not set in the snapshot. -/
def StateOwed (row : Stored) (snap : Snapshot) (key : String) : Prop :=
  row.state.extras.field key ≠ .none ∧ snap.state.extras.field key = .none

/-- A key of the payload that has a stored value and is not set in the snapshot, and is no gate of an
    older steer. -/
def PayloadOwed (row : Stored) (snap : Snapshot) (key : String) : Prop :=
  row.state.inputPayload.field key ≠ .none ∧ snap.state.inputPayload.field key = .none ∧
    ¬ (NewSteerBatch row snap ∧ key ∈ steerBatchGateKeys)

instance (row : Stored) (snap : Snapshot) (key : String) : Decidable (StateOwed row snap key) :=
  inferInstanceAs (Decidable (_ ∧ _))

instance (row : Stored) (snap : Snapshot) (key : String) : Decidable (PayloadOwed row snap key) :=
  inferInstanceAs (Decidable (_ ∧ _ ∧ _))

/-- Every volatile key that is owed has its stored value afterwards. -/
structure Kept (row : Stored) (snap : Snapshot) (after : Stored) : Prop where
  pending : row.pendingUserMessage ≠ .none → snap.pendingUserMessage.getD .none = .none →
    after.pendingUserMessage = row.pendingUserMessage
  state : ∀ key ∈ volatileStateKeys, StateOwed row snap key →
    after.state.extras.field key = row.state.extras.field key
  payload : ∀ key ∈ payloadVolatileKeys, PayloadOwed row snap key →
    after.state.inputPayload.field key = row.state.inputPayload.field key

/-! ### When it is paid -/

/-- The volatile keys that the replan gate writes. -/
def replanGateKeys : List String :=
  ["require_planning_after_steer", "require_planning_after_contract_invalidation",
    "turn_contract_invalidation", "steer_planning_done"]

/-- What the replan gate writes to them. -/
def replanGateValue (now : Text) (key : String) : PyVal :=
  if key = "turn_contract_invalidation" then invalidationRecord now
  else .bool (key ≠ "steer_planning_done")

/-- The snapshot with what was restored, which is what the guard sees. -/
def merged (row : Stored) (snap : Snapshot) : AgentState :=
  preserveVolatileFields (some row.state) snap.state

/-- The session is planned again, and the flags do not say so yet. -/
def ReplanGateRuns (w : Surroundings) (s : AgentState) : Prop :=
  syncedFsmState w s = .replanning ∧
    (s.inputPayload.field "require_planning_after_steer").truthy = false

/-- A running task is planned again with a grant and without a dispatch. -/
def GrantDeadlock (w : Surroundings) (s : AgentState) : Prop :=
  syncedFsmState w s = .replanning ∧ s.status = .running ∧
    (s.inputPayload.field "execution_grant").truthy = true ∧
    (s.inputPayload.field "foreground_replan_dispatch").truthy = false

instance (w : Surroundings) (s : AgentState) : Decidable (ReplanGateRuns w s) :=
  inferInstanceAs (Decidable (_ ∧ _))

instance (w : Surroundings) (s : AgentState) : Decidable (GrantDeadlock w s) :=
  inferInstanceAs (Decidable (_ ∧ _ ∧ _ ∧ _))

/-- The state of the machine that the guard leaves. -/
def guardedFsmState (w : Surroundings) (s : AgentState) : FsmState :=
  if GrantDeadlock w s then .waitingUser else syncedFsmState w s

/-- Nothing owed is there as `None`, and the guard agrees with what is stored. -/
structure Pays (w : Surroundings) (row : Stored) (snap : Snapshot) : Prop where
  pending : row.pendingUserMessage ≠ .none → snap.pendingUserMessage ≠ some .none
  state : ∀ key ∈ volatileStateKeys, StateOwed row snap key →
    snap.state.extras.get? key.toList = none
  payload : ∀ key ∈ payloadVolatileKeys, key ∉ "fsm_state" :: replanGateKeys →
    PayloadOwed row snap key → snap.state.inputPayload.get? key.toList = none
  gate : ∀ key ∈ replanGateKeys, PayloadOwed row snap key →
    if ReplanGateRuns w (merged row snap) then
      row.state.inputPayload.field key = replanGateValue w.now key
    else snap.state.inputPayload.get? key.toList = none
  fsm : PayloadOwed row snap "fsm_state" →
    row.state.inputPayload.field "fsm_state" = .str (guardedFsmState w (merged row snap)).name

/-! ### Restoring -/

theorem get?_restoreExtras (existing : Fields) (key : String) (keys : List String) :
    ∀ extras : Fields, (restoreExtras existing extras keys).get? key.toList =
      if key ∈ keys ∧ extras.get? key.toList = none ∧ existing.field key ≠ .none then
        some (existing.field key)
      else extras.get? key.toList := by
  induction keys with
  | nil => intro extras; simp [restoreExtras]
  | cons k keys ih =>
    intro extras
    rw [restoreExtras]
    by_cases hk : k = key
    · subst hk
      by_cases hput : existing.field k ≠ .none ∧ extras.get? k.toList = none
      · rw [if_pos hput, ih, PyDict.put, PyDict.get?_set_self]
        simp [hput]
      · rw [if_neg hput, ih, if_neg fun h => hput ⟨h.2.2, h.2.1⟩,
          if_neg fun h => hput ⟨h.2.2, h.2.1⟩]
    · have hmem : key ∈ k :: keys ↔ key ∈ keys := by simp [Ne.symm hk]
      have hput : ∀ v, (extras.put k v).get? key.toList = extras.get? key.toList :=
        PyDict.get?_put_ne extras hk
      split_ifs
      all_goals simp_all

theorem get?_restorePayload (newSteerBatch : Bool) (existing : Fields) (key : String)
    (keys : List String) : ∀ payload : Fields,
      (restorePayload newSteerBatch existing payload keys).get? key.toList =
        if key ∈ keys ∧ payload.get? key.toList = none ∧ existing.get? key.toList ≠ none ∧
            ¬ (newSteerBatch = true ∧ key ∈ steerBatchGateKeys) then some (existing.field key)
        else payload.get? key.toList := by
  induction keys with
  | nil => intro payload; simp [restorePayload]
  | cons k keys ih =>
    intro payload
    rw [restorePayload]
    by_cases hk : k = key
    · subst hk
      by_cases hskip : existing.get? k.toList = none ∨ payload.get? k.toList ≠ none
      · rw [if_pos hskip, ih]
        rcases hskip with h | h <;> simp [h]
      · rw [not_or, not_not] at hskip
        by_cases hgate : newSteerBatch = true ∧ k ∈ steerBatchGateKeys
        · rw [if_neg (by simp [hskip]), if_pos hgate, ih]
          simp [hgate]
        · rw [if_neg (by simp [hskip]), if_neg hgate, ih, PyDict.put, PyDict.get?_set_self]
          simp [hskip, hgate]
    · have hput : ∀ v, (payload.put k v).get? key.toList = payload.get? key.toList :=
        PyDict.get?_put_ne payload hk
      have hmem : key ∈ k :: keys ↔ key ∈ keys := by simp [Ne.symm hk]
      split_ifs
      all_goals simp_all

/-- A new batch as the save sees it is one that the snapshot carries. -/
theorem newSteerBatch_of_restored {row : Stored} {snap : Snapshot} {s : AgentState}
    (hextras : s.extras = restoreExtras row.state.extras snap.state.extras volatileStateKeys)
    (hpayload : s.inputPayload = snap.state.inputPayload) (h : (steerAt s).truthy = true)
    (hne : steerAt s ≠ steerAt row.state) : NewSteerBatch row snap := by
  have hget := get?_restoreExtras row.state.extras "steer_applied_at" volatileStateKeys
    snap.state.extras
  rw [← hextras] at hget
  split_ifs at hget with hput
  · -- restored from the row: it counts only if it is no time at all
    have hmissing : snap.state.extras.field "steer_applied_at" = .none := by
      rw [PyDict.field, PyDict.getD, hput.2.1]
      rfl
    have hfield : s.extras.field "steer_applied_at" =
        row.state.extras.field "steer_applied_at" := by
      rw [PyDict.field, PyDict.getD, hget]
      rfl
    have hsnap : steerAt snap.state = snap.state.inputPayload.field "steer_applied_at" := by
      rw [steerAt, hmissing]
      rfl
    rw [steerAt, hfield, hpayload, PyVal.orElse] at h hne
    split_ifs at h hne with htrue
    · rw [steerAt, PyVal.orElse, if_pos htrue] at hne
      exact absurd rfl hne
    · rw [NewSteerBatch, hsnap]
      exact ⟨h, hne⟩
  · rw [steerAt, PyDict.field_congr hget, hpayload] at h hne
    exact ⟨h, hne⟩

/-- What is owed and not there is restored. -/
theorem merged_payload_of_missing {row : Stored} {snap : Snapshot} {key : String}
    (hkey : key ∈ payloadVolatileKeys) (howed : PayloadOwed row snap key)
    (hmissing : snap.state.inputPayload.get? key.toList = none) :
    (merged row snap).inputPayload.field key = row.state.inputPayload.field key := by
  obtain ⟨hstored, -, hexempt⟩ := howed
  have hthere : row.state.inputPayload.get? key.toList ≠ none := by
    intro hnone
    rw [PyDict.field, PyDict.getD, hnone] at hstored
    exact hstored rfl
  rw [merged, preserveVolatileFields, PyDict.field, PyDict.getD, get?_restorePayload, if_pos]
  · rfl
  · refine ⟨hkey, hmissing, hthere, fun hgate => hexempt ⟨?_, hgate.2⟩⟩
    have hnew := hgate.1
    rw [Bool.and_eq_true, bne_iff_ne] at hnew
    refine newSteerBatch_of_restored (s := { snap.state with
      extras := restoreExtras row.state.extras snap.state.extras volatileStateKeys }) rfl rfl hnew.1 hnew.2

/-- What is there stays, also as `None`. -/
theorem merged_payload_of_present {row : Stored} {snap : Snapshot} {key : String}
    (h : snap.state.inputPayload.get? key.toList ≠ none) :
    (merged row snap).inputPayload.field key = snap.state.inputPayload.field key := by
  refine PyDict.field_congr ?_
  rw [merged, preserveVolatileFields]
  exact (get?_restorePayload _ _ _ _ _).trans (if_neg fun hput => h hput.2.1)

/-! ### What the guard rewrites -/

section
variable (w : Surroundings) (s : AgentState)

theorem get?_extras_stampFsmState (f : FsmState) {key : String} (h : "fsm_state" ≠ key) :
    (stampFsmState s f).extras.get? key.toList = s.extras.get? key.toList := by
  rw [stampFsmState]
  split_ifs <;> exact PyDict.get?_put_ne _ h _

theorem get?_extras_syncFsmState {key : String} (h : "fsm_state" ≠ key) :
    (syncFsmState w s).extras.get? key.toList = s.extras.get? key.toList := by
  rw [syncFsmState, extras_syncLegacyFlagsFromFsm, get?_extras_stampFsmState s _ h]

theorem field_fsm_syncFsmState :
    (syncFsmState w s).inputPayload.field "fsm_state" = .str (syncedFsmState w s).name := by
  rw [syncFsmState, field_syncLegacyFlagsFromFsm w _ fun _ => by decide]
  exact field_stampFsmState _ _

/-- What the replan gate makes of a key depends on that key only. -/
theorem get?_applyReplanGate_congr {now : Text} {p q : Fields} {key : String}
    (h : p.get? key.toList = q.get? key.toList) :
    (applyReplanGate now p).get? key.toList = (applyReplanGate now q).get? key.toList := by
  have hput : ∀ (k : String) (v : PyVal) {d e : Fields}, d.get? key.toList = e.get? key.toList →
      (d.put k v).get? key.toList = (e.put k v).get? key.toList := by
    intro k v d e hde
    rw [PyDict.put, PyDict.put, PyDict.get?_set, PyDict.get?_set, hde]
  have hpop : ∀ (k : String) {d e : Fields}, d.get? key.toList = e.get? key.toList →
      (d.pop k).get? key.toList = (e.pop k).get? key.toList := by
    intro k d e hde
    by_cases hk : k = key
    · rw [hk, PyDict.pop, PyDict.pop, PyDict.get?_erase_self, PyDict.get?_erase_self]
    · rw [PyDict.get?_pop_ne _ hk, PyDict.get?_pop_ne _ hk, hde]
  have hclear : ∀ (k : String) {d e : Fields}, d.get? key.toList = e.get? key.toList →
      (d.clear k).get? key.toList = (e.clear k).get? key.toList := fun k _ _ hde =>
    hput k _ (hpop k hde)
  exact hpop _ (hput _ _ (hput _ _ (hput _ _ (hput _ _
    (hclear _ (hclear _ (hclear _ (hclear _ h))))))))

theorem field_applyReplanGate_self (now : Text) (payload : Fields) {key : String}
    (h : key ∈ replanGateKeys) : (applyReplanGate now payload).field key = replanGateValue now key := by
  simp only [replanGateKeys, List.mem_cons, List.not_mem_nil, or_false] at h
  obtain rfl | rfl | rfl | rfl := h <;>
    simp [applyReplanGate, replanGateValue, PyDict.field_pop_ne, PyDict.field_put_ne]

theorem replanGateValue_ne_none (now : Text) (key : String) : replanGateValue now key ≠ .none := by
  rw [replanGateValue, invalidationRecord]
  split_ifs <;> exact PyVal.noConfusion

/-- Synchronising writes the replan gate exactly when it runs; what the gate drops comes back. -/
theorem get?_payload_syncFsmState {key : String} (hne : "fsm_state" ≠ key) :
    (syncFsmState w s).inputPayload.get? key.toList =
      if ReplanGateRuns w s then
        ((applyReplanGate w.now s.inputPayload).get? key.toList).or
          (s.inputPayload.get? key.toList)
      else s.inputPayload.get? key.toList := by
  have hflag : (stampFsmState s (syncedFsmState w s)).inputPayload.field
      "require_planning_after_steer" = s.inputPayload.field "require_planning_after_steer" :=
    field_stampFsmState_ne _ _ (by decide)
  have hstate : getFsmState w (stampFsmState s (syncedFsmState w s)) = syncedFsmState w s :=
    getFsmState_of_field (field_stampFsmState s _)
  have hkey := get?_stampFsmState_ne s (syncedFsmState w s) hne
  rw [syncFsmState]
  generalize stampFsmState s (syncedFsmState w s) = t at hflag hstate hkey
  by_cases hf : syncedFsmState w s = .replanning
  · rw [hf] at hstate
    by_cases htrue : (s.inputPayload.field "require_planning_after_steer").truthy = true
    · have hsame : legacyFlagsOf w.now t.inputPayload .replanning = t.inputPayload := by
        rw [legacyFlagsOf, hflag, if_pos htrue]
      rw [if_neg fun hr => Bool.false_ne_true (hr.2.symm.trans htrue), syncLegacyFlagsFromFsm,
        hstate, hsame, if_neg (not_not.2 rfl), hkey]
    · have hgate : legacyFlagsOf w.now t.inputPayload .replanning =
          applyReplanGate w.now t.inputPayload := by
        rw [legacyFlagsOf, hflag, if_neg htrue]
      rw [if_pos ⟨hf, by simpa using htrue⟩, ← get?_applyReplanGate_congr hkey, ← hkey,
        syncLegacyFlagsFromFsm, hstate, hgate]
      split_ifs with heq
      · exact PyDict.get?_update _ _ _
      · rw [not_not.1 heq, Option.or_self]
  · rw [if_neg fun hr => hf hr.1,
      get?_syncLegacyFlagsFromFsm w t fun hr => absurd (hstate.symm.trans hr) hf, hkey]

theorem field_gate_syncFsmState {key : String} (h : key ∈ replanGateKeys) :
    (syncFsmState w s).inputPayload.field key =
      if ReplanGateRuns w s then replanGateValue w.now key else s.inputPayload.field key := by
  have hne : "fsm_state" ≠ key := by
    rintro rfl
    exact absurd h (by decide)
  have hget := get?_payload_syncFsmState w s hne
  rw [PyDict.get?_of_field (field_applyReplanGate_self w.now _ h)
    (replanGateValue_ne_none w.now key), Option.some_or] at hget
  rw [PyDict.field, PyDict.getD, hget]
  split_ifs <;> rfl

/-- The guard finds something wrong exactly in a deadlock. -/
theorem issues_syncFsmState : issues w (syncFsmState w s) = [] ↔ ¬ GrantDeadlock w s := by
  have hgrant : (syncFsmState w s).inputPayload.field "execution_grant" =
      s.inputPayload.field "execution_grant" := PyDict.field_congr (get?_syncFsmState w s (by decide))
  have hdispatch : (syncFsmState w s).inputPayload.field "foreground_replan_dispatch" =
      s.inputPayload.field "foreground_replan_dispatch" :=
    PyDict.field_congr (get?_syncFsmState w s (by decide))
  have hpending : ¬ (legacyReplanPending (syncFsmState w s) = true ∧
      syncedFsmState w s ≠ .replanning ∧ syncedFsmState w s ≠ .waitingUser) := by
    rintro ⟨hp, h₁, h₂⟩
    rw [legacyReplanPending_syncFsmState h₁ h₂] at hp
    cases hp
  rw [issues, getFsmState_syncFsmState, (untouched_syncFsmState w s).status, hgrant, hdispatch,
    if_neg hpending, List.nil_append, GrantDeadlock]
  split_ifs with h
  · simp [h]
  · simpa using h

/-- The guard synchronises, and makes a deadlocked session wait for the user. -/
theorem validate_cases {s' : AgentState} (h : validate w s = .ok s') :
    ¬ GrantDeadlock w s ∧ s' = syncFsmState w s ∨
      GrantDeadlock w s ∧ s' = setFsmState (syncFsmState w s) .waitingUser := by
  rw [validate, guardIssues] at h
  split at h
  · rename_i hnil
    exact Or.inl ⟨(issues_syncFsmState w s).1 hnil, (Except.ok.inj h).symm⟩
  · rename_i id message rest hissue
    have hdead : GrantDeadlock w s := by
      by_contra hno
      rw [(issues_syncFsmState w s).2 hno] at hissue
      cases hissue
    split_ifs at h
    exact Or.inr ⟨hdead, (Except.ok.inj h).symm⟩

/-- What the guard leaves: the keys of the state machine rewritten, all others as they were. -/
structure Guarded (s' : AgentState) : Prop where
  extras : ∀ key : String, "fsm_state" ≠ key →
    s'.extras.get? key.toList = s.extras.get? key.toList
  payload : ∀ key : String, key ∉ "fsm_state" :: gateKeys →
    s'.inputPayload.get? key.toList = s.inputPayload.get? key.toList
  gate : ∀ key ∈ replanGateKeys, s'.inputPayload.field key =
    if ReplanGateRuns w s then replanGateValue w.now key else s.inputPayload.field key
  fsm : s'.inputPayload.field "fsm_state" = .str (guardedFsmState w s).name

theorem validate_guarded {s' : AgentState} (h : validate w s = .ok s') : Guarded w s s' := by
  rcases validate_cases w s h with ⟨hlive, rfl⟩ | ⟨hdead, rfl⟩
  · refine ⟨fun key => get?_extras_syncFsmState w s, fun key => get?_syncFsmState w s,
      fun key => field_gate_syncFsmState w s, ?_⟩
    rw [field_fsm_syncFsmState, guardedFsmState, if_neg hlive]
  · have hset : ∀ key : String, "fsm_state" ≠ key →
        (setFsmState (syncFsmState w s) .waitingUser).inputPayload.get? key.toList =
          (syncFsmState w s).inputPayload.get? key.toList := fun key hne =>
      PyDict.get?_update_of_eq (PyDict.get?_put_ne _ hne _)
    refine ⟨fun key hne => ?_, fun key hne => ?_, fun key hkey => ?_, ?_⟩
    · rw [← get?_extras_syncFsmState w s hne]
      exact PyDict.get?_put_ne _ hne _
    · rw [hset key fun he => hne (by rw [← he]; exact List.mem_cons_self), get?_syncFsmState w s hne]
    · rw [← field_gate_syncFsmState w s hkey]
      refine PyDict.field_congr (hset key ?_)
      rintro rfl
      exact absurd hkey (by decide)
    · rw [guardedFsmState, if_pos hdead]
      exact PyDict.field_update_put_self _ _ _

end

/-! ### The law -/

section
variable {row : Stored} {snap : Snapshot} {key : String}

theorem restorePending_iff (h : row.pendingUserMessage ≠ .none) :
    (snap.pendingUserMessage.getD .none = .none →
      restorePending row.pendingUserMessage snap.pendingUserMessage = row.pendingUserMessage) ↔
      snap.pendingUserMessage ≠ some .none := by
  cases hp : snap.pendingUserMessage with
  | none => simp [restorePending, h]
  | some v =>
    have hne : restorePending row.pendingUserMessage (some v) = v := by simp [restorePending]
    rw [hne, Option.getD_some]
    constructor
    · rintro hkeep heq
      exact h ((hkeep (Option.some.inj heq)).symm.trans (Option.some.inj heq))
    · exact fun hv hnone => absurd (congrArg some hnone) hv

/-- An owed key of the state is restored exactly when it is missing. -/
theorem merged_extras_iff (hkey : key ∈ volatileStateKeys) (h : StateOwed row snap key) :
    (merged row snap).extras.field key = row.state.extras.field key ↔
      snap.state.extras.get? key.toList = none := by
  have hget : (merged row snap).extras.get? key.toList = _ :=
    get?_restoreExtras row.state.extras key volatileStateKeys snap.state.extras
  by_cases hmissing : snap.state.extras.get? key.toList = none
  · rw [if_pos ⟨hkey, hmissing, h.1⟩] at hget
    rw [PyDict.field, PyDict.getD, hget]
    exact iff_of_true rfl hmissing
  · rw [if_neg fun hput => hmissing hput.2.1] at hget
    rw [PyDict.field_congr hget, h.2]
    exact iff_of_false (Ne.symm h.1) hmissing

/-- An owed key of the payload is restored exactly when it is missing. -/
theorem merged_payload_iff (hkey : key ∈ payloadVolatileKeys) (h : PayloadOwed row snap key) :
    (merged row snap).inputPayload.field key = row.state.inputPayload.field key ↔
      snap.state.inputPayload.get? key.toList = none := by
  by_cases hmissing : snap.state.inputPayload.get? key.toList = none
  · exact iff_of_true (merged_payload_of_missing hkey h hmissing) hmissing
  · rw [merged_payload_of_present hmissing, h.2.1]
    exact iff_of_false (Ne.symm h.1) hmissing

end

/-- CORRECT when it can be: a save keeps every volatile key that is not set exactly when it is
    dropped, or none of them is there as `None` and the guard agrees with what is stored. -/
theorem volatile_kept_iff {w : Surroundings} {row : Stored} {snap : Snapshot} {after : Stored}
    (h : saveSnapshot w row snap = .ok after) :
    Kept row snap after ↔ Dropped w row snap ∨ Pays w row snap := by
  rw [saveSnapshot] at h
  split_ifs at h with hdrop
  · rw [← Except.ok.inj h]
    exact iff_of_true ⟨fun _ _ => rfl, fun _ _ _ => rfl, fun _ _ _ => rfl⟩ (Or.inl hdrop)
  rw [or_iff_right hdrop]
  cases hw : writeRow w (some row.state) snap.state with
  | error e =>
    rw [writeSnapshot, hw] at h
    cases h
  | ok s' =>
    rw [writeSnapshot, hw] at h
    rw [← Except.ok.inj h]
    have hg : Guarded w (merged row snap) s' := validate_guarded w _ (validate_of_writeRow hw)
    have hplain : ∀ key ∈ payloadVolatileKeys, key ∉ "fsm_state" :: replanGateKeys →
        key ∉ "fsm_state" :: gateKeys := by decide
    have hmem : ∀ key ∈ "fsm_state" :: replanGateKeys, key ∈ payloadVolatileKeys := by decide
    have hstate : ∀ key ∈ volatileStateKeys,
        s'.extras.field key = (merged row snap).extras.field key := fun key hkey =>
      PyDict.field_congr (hg.extras key (by rintro rfl; exact absurd hkey (by decide)))
    constructor
    · rintro ⟨hpending, hextras, hpayload⟩
      refine ⟨fun hp => (restorePending_iff hp).1 (hpending hp), fun key hkey howed => ?_,
        fun key hkey hne howed => ?_, fun key hkey howed => ?_, fun howed => ?_⟩
      · exact (merged_extras_iff hkey howed).1 ((hstate key hkey).symm.trans (hextras key hkey howed))
      · have hkept := hpayload key hkey howed
        rw [PyDict.field_congr (hg.payload key (hplain key hkey hne))] at hkept
        exact (merged_payload_iff hkey howed).1 hkept
      · have hvol := hmem key (List.mem_cons_of_mem _ hkey)
        have hkept := hpayload key hvol howed
        rw [hg.gate key hkey] at hkept
        split_ifs at hkept ⊢
        · exact hkept.symm
        · exact (merged_payload_iff hvol howed).1 hkept
      · exact (hpayload _ (hmem _ List.mem_cons_self) howed).symm.trans hg.fsm
    · rintro ⟨hpending, hextras, hpayload, hgate, hfsm⟩
      refine ⟨fun hp => (restorePending_iff hp).2 (hpending hp), fun key hkey howed => ?_,
        fun key hkey howed => ?_⟩
      · rw [hstate key hkey]
        exact (merged_extras_iff hkey howed).2 (hextras key hkey howed)
      · by_cases hplainKey : key ∉ "fsm_state" :: replanGateKeys
        · rw [PyDict.field_congr (hg.payload key (hplain key hkey hplainKey))]
          exact (merged_payload_iff hkey howed).2 (hpayload key hkey hplainKey howed)
        · rcases List.mem_cons.1 (not_not.1 hplainKey) with rfl | hgateKey
          · rw [hg.fsm, hfsm howed]
          · have hpaid := hgate key hgateKey howed
            rw [hg.gate key hgateKey]
            split_ifs at hpaid ⊢
            · exact hpaid.symm
            · exact (merged_payload_iff hkey howed).2 hpaid

/-- A task with a message that waits, and a grant. -/
def waitingMessage : Stored where
  state := { secondTurn .planned with
    inputPayload := PyDict.ofList [("execution_grant".toList, .str "g1".toList)] }
  pendingUserMessage := .other "\x7b'messages': [...]\x7d".toList true

/-- A node snapshot with neither of them. -/
def nodeSnapshot : Snapshot := { state := secondTurn .reasoned }

theorem exists_of_isSome {w : Surroundings} {row : Stored} {snap : Snapshot}
    (h : (saveSnapshot w row snap).toOption.isSome = true) :
    ∃ after, saveSnapshot w row snap = .ok after := by
  cases hs : saveSnapshot w row snap with
  | error e =>
    rw [hs] at h
    cases h
  | ok after => exact ⟨after, rfl⟩

/-- Both are kept where the snapshot has no such key. -/
theorem volatile_kept_nodeSnapshot : ∃ after,
    saveSnapshot idleProcess waitingMessage nodeSnapshot = .ok after ∧
      Kept waitingMessage nodeSnapshot after := by
  obtain ⟨after, h⟩ := exists_of_isSome (show (saveSnapshot idleProcess waitingMessage
    nodeSnapshot).toOption.isSome = true by decide +kernel)
  refine ⟨after, h, (volatile_kept_iff h).2 (Or.inr ⟨by decide, ?_, ?_, ?_, ?_⟩)⟩
  all_goals decide +kernel

/-- Once it has been through `ensure_agent_state`, as every state that is merged or loaded has, the
    message is lost. -/
theorem pendingUserMessage_lost : ∃ after,
    saveSnapshot idleProcess waitingMessage (ensureAgentState nodeSnapshot) = .ok after ∧
      waitingMessage.pendingUserMessage ≠ .none ∧ nodeSnapshot.pendingUserMessage = none ∧
      after.pendingUserMessage = .none ∧
      ¬ Kept waitingMessage (ensureAgentState nodeSnapshot) after := by
  have hsaved : (saveSnapshot idleProcess waitingMessage (ensureAgentState nodeSnapshot)).toOption.isSome = true ∧
      (saveSnapshot idleProcess waitingMessage (ensureAgentState nodeSnapshot)).toOption.map
        Stored.pendingUserMessage = some .none := by
    decide +kernel
  obtain ⟨hsome, hlost⟩ := hsaved
  obtain ⟨after, h⟩ := exists_of_isSome hsome
  rw [h] at hlost
  have hnone : after.pendingUserMessage = .none := Option.some.inj hlost
  refine ⟨after, h, by decide, rfl, hnone, fun hkept => ?_⟩
  rw [hkept.pending (by decide) rfl] at hnone
  exact absurd hnone (by decide)

end AgentLangraph.Session
