import AgentLangraph.Session.Fsm

/-! The store of task states (`state_store.py`), the row of one task. A save restores what a partial
    snapshot left out, runs the guard and replaces the row; a row with a terminal status is only
    replaced by a state whose own status is terminal.

        tombstone? → terminal row, other state? → restore → guard → revision → row -/

namespace AgentLangraph.Session
open PyText

/-- `_VOLATILE_STATE_KEYS`, the one that is a channel of the schema left out: a state always has
    it, so it is never restored. -/
def volatileStateKeys : List String :=
  ["steer_applied_at", "steer_intent_pending_confirm", "steer_intent_confirmation",
    "steer_outcome_pending_confirm", "steer_outcome_confirmation"]

/-- `_PAYLOAD_VOLATILE_KEYS`. -/
def payloadVolatileKeys : List String :=
  ["execution_grant", "last_execution_grant", "require_planning_after_steer",
    "require_planning_after_contract_invalidation", "turn_contract_invalidation",
    "steer_planning_done", "steer_watch_outcome", "steer_intent_pending_confirm",
    "steer_intent_confirmed", "steer_intent_confirmation", "steer_outcome_pending_confirm",
    "steer_outcome_confirmation", "steer_review_outline", "mission_intervention", "fsm_state",
    "session_mode", "last_applied_message_id", "turn_step_executed",
    "steer_planning_complete_pending"]

/-- `_STEER_BATCH_GATE_KEYS`. -/
def steerBatchGateKeys : List String :=
  ["steer_intent_pending_confirm", "steer_intent_confirmation", "steer_intent_confirmed",
    "steer_outcome_pending_confirm", "steer_outcome_confirmation", "steer_outcome_confirmed"]

/-- `steer_applied_at` of the state, else of its payload. -/
def steerAt (s : AgentState) : PyVal :=
  (s.extras.field "steer_applied_at").orElse (s.inputPayload.field "steer_applied_at")

def restoreExtras (existing : Fields) : Fields → List String → Fields
  | extras, [] => extras
  | extras, key :: keys =>
    if existing.field key ≠ .none ∧ extras.get? key.toList = none then
      restoreExtras existing (extras.put key (existing.field key)) keys
    else restoreExtras existing extras keys

/-- The loop over `_PAYLOAD_VOLATILE_KEYS`. -/
def restorePayload (newSteerBatch : Bool) (existing : Fields) : Fields → List String → Fields
  | payload, [] => payload
  | payload, key :: keys =>
    if existing.get? key.toList = none ∨ payload.get? key.toList ≠ none then
      restorePayload newSteerBatch existing payload keys
    else if newSteerBatch ∧ key ∈ steerBatchGateKeys then
      restorePayload newSteerBatch existing payload keys
    else restorePayload newSteerBatch existing (payload.put key (existing.field key)) keys

/-- `_preserve_volatile_fields`. Loading strips `progress`, so its part of the merge never runs. -/
def preserveVolatileFields (row : Option AgentState) (s : AgentState) : AgentState :=
  match row with
  | none => s
  | some existing =>
    let merged := { s with extras := restoreExtras existing.extras s.extras volatileStateKeys }
    let newSteerBatch := (steerAt merged).truthy && steerAt merged != steerAt existing
    { merged with
      inputPayload :=
        restorePayload newSteerBatch existing.inputPayload merged.inputPayload payloadVolatileKeys }

/-- The part of `_save` that writes: the new row, which is also the state returned. -/
def writeRow (w : Surroundings) (row : Option AgentState) (s : AgentState) :
    Except SaveError AgentState :=
  (validate w (preserveVolatileFields row s)).bind fun s' =>
    (validateSessionSnapshot w s').map fun _ => s'

/-- A terminal row is not replaced by a state that is not terminal. -/
def Protects (row : Option AgentState) (s : AgentState) : Prop :=
  ∃ existing ∈ row, existing.status.Terminal ∧ ¬ s.status.Terminal

instance (row : Option AgentState) (s : AgentState) : Decidable (Protects row s) :=
  match row with
  | none => isFalse (by simp [Protects])
  | some existing => decidable_of_iff (existing.status.Terminal ∧ ¬ s.status.Terminal)
      (by simp [Protects])

/-- `StateStore.save`: the row and the state returned. -/
def save (w : Surroundings) (row : Option AgentState) (s : AgentState) :
    Except SaveError (Option AgentState × AgentState) :=
  if w.tombstoned then .ok (row, s)
  else if Protects row s then .ok (row, row.getD s)
  else (writeRow w row s).map fun s' => (some s', s')

/-- The row after a save; one that raises has written nothing. -/
def rowAfter (row : Option AgentState) (saved : Surroundings × AgentState) : Option AgentState :=
  match save saved.1 row saved.2 with
  | .ok (row', _) => row'
  | .error _ => row

/-- `StateStore.load` after a history of saves. -/
def loadAfter (row : Option AgentState) (saves : List (Surroundings × AgentState)) :
    Option AgentState := saves.foldl rowAfter row

/-! ### What a save writes -/

theorem field_restorePayload (newSteerBatch : Bool) (existing : Fields) {key : String}
    (keys : List String) : ∀ payload : Fields, key ∉ keys →
      (restorePayload newSteerBatch existing payload keys).field key = payload.field key := by
  induction keys with
  | nil => intro payload _; rfl
  | cons k keys ih =>
    intro payload h
    rw [List.mem_cons, not_or] at h
    rw [restorePayload]
    split_ifs
    · exact ih _ h.2
    · exact ih _ h.2
    · rw [ih _ h.2, PyDict.field_put_ne _ (Ne.symm h.1)]

theorem preserveVolatileFields_untouched (row : Option AgentState) (s : AgentState) :
    Untouched s (preserveVolatileFields row s) := by
  cases row with
  | none => exact .refl s
  | some existing =>
    exact ⟨rfl, rfl, rfl, rfl, field_restorePayload _ _ _ _ (by decide)⟩

theorem validateSessionSnapshot_ok_iff {w : Surroundings} {s : AgentState} :
    validateSessionSnapshot w s = .ok () ↔
      (intField w s.inputPayload "intent_revision").isSome = true := by
  rw [validateSessionSnapshot]
  cases intField w s.inputPayload "intent_revision" <;> simp

/-- The row that is written is what the guard makes of the restored state. -/
theorem validate_of_writeRow {w : Surroundings} {row : Option AgentState} {s s' : AgentState}
    (h : writeRow w row s = .ok s') : validate w (preserveVolatileFields row s) = .ok s' := by
  rw [writeRow] at h
  cases hv : validate w (preserveVolatileFields row s) with
  | error e =>
    rw [hv] at h
    cases h
  | ok s₁ =>
    rw [hv] at h
    change (validateSessionSnapshot w s₁).map (fun _ => s₁) = .ok s' at h
    cases hs : validateSessionSnapshot w s₁ with
    | error e =>
      rw [hs] at h
      cases h
    | ok u =>
      rw [hs] at h
      rw [← Except.ok.inj h]

/-- The row that is written is the saved state as far as the guard leaves it alone. -/
theorem writeRow_untouched {w : Surroundings} {row : Option AgentState} {s s' : AgentState}
    (h : writeRow w row s = .ok s') : Untouched s s' :=
  (preserveVolatileFields_untouched row s).trans (validate_untouched (validate_of_writeRow h))

/-- A state that is not running is written exactly when its revision is a number. -/
theorem writeRow_ok_of_ne_running {w : Surroundings} (row : Option AgentState) {s : AgentState}
    (h : s.status ≠ .running) (hrev : (intField w s.inputPayload "intent_revision").isSome = true) :
    ∃ s', writeRow w row s = .ok s' := by
  have hkeep := preserveVolatileFields_untouched row s
  have hsync := untouched_syncFsmState w (preserveVolatileFields row s)
  have hsnap : validateSessionSnapshot w (syncFsmState w (preserveVolatileFields row s)) =
      .ok () := by
    rw [validateSessionSnapshot_ok_iff, intField, hsync.revision, hkeep.revision]
    exact hrev
  refine ⟨syncFsmState w (preserveVolatileFields row s), ?_⟩
  rw [writeRow, validate_of_ne_running (by rwa [hkeep.status])]
  change (validateSessionSnapshot w _).map _ = _
  rw [hsnap]
  rfl

/-- What one save can do to the row: nothing, or replace it by (nearly) the saved state, unless the
    row is protected from it. -/
theorem rowAfter_cases (row : Option AgentState) (saved : Surroundings × AgentState) :
    rowAfter row saved = row ∨
      ∃ s', rowAfter row saved = some s' ∧ Untouched saved.2 s' ∧ ¬ Protects row saved.2 := by
  rw [rowAfter, save]
  split_ifs with htomb hprot
  · exact Or.inl rfl
  · exact Or.inl rfl
  · cases hw : writeRow saved.1 row saved.2 with
    | error e => exact Or.inl rfl
    | ok s' => exact Or.inr ⟨s', rfl, writeRow_untouched hw, hprot⟩

/-- One save leaves a terminal row terminal. -/
theorem rowAfter_terminal {r : AgentState} (h : r.status.Terminal)
    (saved : Surroundings × AgentState) :
    ∃ r', rowAfter (some r) saved = some r' ∧ r'.status.Terminal := by
  rcases rowAfter_cases (some r) saved with heq | ⟨s', heq, hkeep, hprot⟩
  · exact ⟨r, heq, h⟩
  · refine ⟨s', heq, ?_⟩
    rw [hkeep.status]
    by_contra hterm
    exact hprot ⟨r, rfl, h, hterm⟩

/-- No history of saves takes a terminal row back to a status that is not terminal. -/
theorem loadAfter_terminal (saves : List (Surroundings × AgentState)) :
    ∀ {r : AgentState}, r.status.Terminal →
      ∃ r', loadAfter (some r) saves = some r' ∧ r'.status.Terminal := by
  induction saves with
  | nil => intro r h; exact ⟨r, rfl, h⟩
  | cons saved saves ih =>
    intro r h
    obtain ⟨r₁, heq, h₁⟩ := rowAfter_terminal h saved
    obtain ⟨r', hr', h'⟩ := ih h₁
    exact ⟨r', by rw [loadAfter, List.foldl_cons, heq]; exact hr', h'⟩

/-! ### When a terminal status is final -/

/-- A save that raises or is dropped because of the state itself. -/
def Refused (saved : Surroundings × AgentState) : Prop :=
  saved.1.tombstoned = true ∨ intField saved.1 saved.2.inputPayload "intent_revision" = none

instance (saved : Surroundings × AgentState) : Decidable (Refused saved) :=
  inferInstanceAs (Decidable (_ ∨ _))

/-- A save that leaves a stored terminal status as it is. -/
def Harmless (status : TaskStatus) (saved : Surroundings × AgentState) : Prop :=
  ¬ saved.2.status.Terminal ∨ saved.2.status = status ∨ Refused saved

instance (status : TaskStatus) (saved : Surroundings × AgentState) :
    Decidable (Harmless status saved) := inferInstanceAs (Decidable (_ ∨ _ ∨ _))

theorem rowAfter_status_of_harmless {r : AgentState} (hr : r.status.Terminal)
    {saved : Surroundings × AgentState} (h : Harmless r.status saved) :
    ∃ r', rowAfter (some r) saved = some r' ∧ r'.status = r.status := by
  rcases rowAfter_cases (some r) saved with heq | ⟨s', heq, hkeep, hprot⟩
  · exact ⟨r, heq, rfl⟩
  rcases h with hterm | hsame | htomb | hrev
  · exact absurd ⟨r, rfl, hr, hterm⟩ hprot
  · exact ⟨s', heq, hkeep.status.trans hsame⟩
  · exact ⟨r, by rw [rowAfter, save, if_pos htomb], rfl⟩
  · -- a malformed revision raises after the guard, or the guard has raised before
    refine ⟨r, ?_, rfl⟩
    rw [rowAfter, save, if_neg hprot]
    cases hw : writeRow saved.1 (some r) saved.2 with
    | error e => split_ifs <;> rfl
    | ok s₁ =>
      exfalso
      rw [writeRow] at hw
      cases hv : validate saved.1 (preserveVolatileFields (some r) saved.2) with
      | error e =>
        rw [hv] at hw
        cases hw
      | ok s₂ =>
        rw [hv] at hw
        have hunt := (preserveVolatileFields_untouched (some r) saved.2).trans
          (validate_untouched hv)
        have hbad : validateSessionSnapshot saved.1 s₂ = .error .valueError := by
          rw [validateSessionSnapshot, intField, hunt.revision]
          rw [intField] at hrev
          rw [hrev]
        change (validateSessionSnapshot saved.1 s₂).map (fun _ => s₂) = .ok s₁ at hw
        rw [hbad] at hw
        cases hw

/-- A save of another terminal status that is not refused replaces the stored one. -/
theorem rowAfter_status_of_not_harmless {r : AgentState} {saved : Surroundings × AgentState}
    (h : ¬ Harmless r.status saved) :
    ∃ r', rowAfter (some r) saved = some r' ∧ r'.status ≠ r.status := by
  rw [Harmless, Refused, not_or, not_not, not_or, not_or] at h
  obtain ⟨hterm, hne, htomb, hrev⟩ := h
  have hrun : saved.2.status ≠ .running := by
    intro heq
    rw [heq] at hterm
    exact absurd hterm (by decide)
  obtain ⟨s', hw⟩ := writeRow_ok_of_ne_running (some r) hrun
    (Option.isSome_iff_ne_none.2 hrev)
  have hprot : ¬ Protects (some r) saved.2 := by
    rintro ⟨x, -, -, hnot⟩
    exact hnot hterm
  refine ⟨s', ?_, by rwa [(writeRow_untouched hw).status]⟩
  rw [rowAfter, save, if_neg htomb, if_neg hprot, hw]
  rfl

def asciiDigit (c : Char) : Option ℕ := if c.isDigit then some (c.toNat - '0'.toNat) else none

/-- A process outside production, with no active run. -/
def idleProcess : Surroundings := { digit := asciiDigit }

/-- The second turn of a session, in some status. -/
def secondTurn (status : TaskStatus) : AgentState where
  taskId := "s1".toList
  sessionId := "s1".toList
  status := status
  sessionTurn := some 2

end AgentLangraph.Session
