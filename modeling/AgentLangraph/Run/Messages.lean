import AgentLangraph.Run.Controller
import AgentLangraph.Session.Volatile

/-! The ingress of a session (`session_controller.py`). A message with a `client_message_id` is checked
    against the one id that the session remembers, the last one stamped, and is stamped itself only
    when its stream has ended. Deliveries are threads; what a delivery computes between two accesses
    to the store belongs to the first of them.

        load, check → (cancel, save, save) → stream → load → stamp, save -/

namespace AgentLangraph.Run
open PyText Session Trace

/-- `_check_idempotent`. -/
def checkIdempotent (s : AgentState) (clientMessageId : Text) : Bool :=
  clientMessageId != [] && textField s.inputPayload "last_applied_message_id" == clientMessageId

/-- `_stamp_applied`. -/
def stampApplied (s : AgentState) (clientMessageId : Text) : AgentState :=
  if clientMessageId = [] then s
  else s.mergePayload (s.inputPayload.put "last_applied_message_id" (.str clientMessageId))

/-- `event_type` of a classification, as far as the dispatch tells them apart. -/
inductive EventType
  | redirect | interrupt | resume | confirm | statusQuery | other
  deriving DecidableEq

inductive DeliveryPhase
  | arriving
  /-- In `handle_new_task`. -/
  | starting
  /-- In `RunController.cancel`, before its save. -/
  | cancelling (stored : AgentState)
  /-- Before the save of `handle_message` itself. -/
  | cancelled (updated : AgentState)
  /-- In `stream_task`. -/
  | streaming
  | answering
  | stamping (final : AgentState)
  | done
  deriving DecidableEq

structure Delivery where
  clientMessageId : Text
  phase : DeliveryPhase := .arriving
  deriving DecidableEq

/-- The session, the deliveries, and the ids of the messages that were dispatched as work. -/
structure Ingress where
  row : Option AgentState := none
  deliveries : List Delivery
  applied : List Text := []
  deriving DecidableEq

inductive IngressStep
  /-- `handle_message`: the load, the check and the classification, which may raise. -/
  | load (i : ℕ) (w : Surroundings) (event : Option EventType)
  /-- `handle_new_task`: the load and the check. -/
  | loadNew (i : ℕ)
  | cancelSave (i : ℕ) (w : Surroundings)
  | stampLoad (i : ℕ)
  | stampSave (i : ℕ) (w : Surroundings)
  /-- An exception, or a client that is gone. -/
  | leave (i : ℕ)
  /-- Any other save of the session, by a graph, a handler or a stream. -/
  | save (w : Surroundings) (s : AgentState)

/-- How a message is dispatched that has passed the check. -/
def dispatch (stored : AgentState) : Option EventType → DeliveryPhase
  | none => .done
  | some .statusQuery => .answering
  | some .redirect | some .interrupt =>
    if stored.status = .completed then .streaming else .cancelling stored
  | some .resume | some .confirm | some .other => .streaming

/-- A message that is dispatched as work. -/
def DeliveryPhase.isWork : DeliveryPhase → Bool
  | .streaming | .cancelling _ => true
  | _ => false

def Ingress.goTo (s : Ingress) (i : ℕ) (d : Delivery) (phase : DeliveryPhase) : Ingress :=
  { s with deliveries := s.deliveries.set i { d with phase := phase } }

/-- The outcome of a check: what is dispatched as work counts as applied. -/
def Ingress.dispatchTo (s : Ingress) (i : ℕ) (d : Delivery) (phase : DeliveryPhase) : Ingress :=
  { s.goTo i d phase with
    applied := if phase.isWork then d.clientMessageId :: s.applied else s.applied }

/-- A save by a delivery, which goes on to `next` unless it raises. -/
def Ingress.saveThen (s : Ingress) (i : ℕ) (d : Delivery) (w : Surroundings) (state : AgentState)
    (next : DeliveryPhase) : Ingress :=
  match save w s.row state with
  | .ok (row, _) => { s with row := row }.goTo i d next
  | .error _ => s.goTo i d .done

/-- One access of a delivery to the store. -/
def Ingress.deliver (s : Ingress) (i : ℕ) (d : Delivery) : IngressStep → Ingress
  | .load _ w event =>
    match d.phase, s.row with
    | .arriving, none => s.goTo i d .starting
    | .arriving, some stored =>
      if checkIdempotent (syncFsmState w stored) d.clientMessageId then s.goTo i d .done
      else s.dispatchTo i d (dispatch (syncFsmState w stored) event)
    | _, _ => s
  | .loadNew _ =>
    match d.phase, s.row with
    | .starting, none => s.dispatchTo i d .streaming
    | .starting, some stored =>
      if checkIdempotent stored d.clientMessageId then s.goTo i d .done
      else s.dispatchTo i d .streaming
    | _, _ => s
  | .cancelSave _ w =>
    match d.phase with
    | .cancelling stored =>
      match cancelledState w stored true with
      | none => s.goTo i d .done
      | some updated => s.saveThen i d w updated (.cancelled updated)
    | .cancelled updated => s.saveThen i d w updated .streaming
    | _ => s
  | .stampLoad _ =>
    match d.phase, s.row with
    | .streaming, some final | .answering, some final =>
      s.goTo i d (if d.clientMessageId = [] then .done else .stamping final)
    | .streaming, none | .answering, none => s.goTo i d .done
    | _, _ => s
  | .stampSave _ w =>
    match d.phase with
    | .stamping final => s.saveThen i d w (stampApplied final d.clientMessageId) .done
    | _ => s
  | .leave _ => s.goTo i d .done
  | .save _ _ => s

def Ingress.step (s : Ingress) (a : IngressStep) : Ingress :=
  match a with
  | .save w state => { s with row := rowAfter s.row (w, state) }
  | .load i _ _ | .loadNew i | .cancelSave i _ | .stampLoad i | .stampSave i _ | .leave i =>
    match s.deliveries[i]? with
    | some d => s.deliver i d a
    | none => s

/-- Every message with an id was dispatched as work at most once. -/
def Ingress.AtMostOnce (s : Ingress) : Prop := ∀ m, m ≠ [] → s.applied.count m ≤ 1

/-- The session remembers a message as the last one applied. -/
def Remembers (row : Option AgentState) (m : Text) : Prop :=
  ∃ stored ∈ row, textField stored.inputPayload "last_applied_message_id" = m

instance (row : Option AgentState) (m : Text) : Decidable (Remembers row m) :=
  match row with
  | none => isFalse fun ⟨_, h, _⟩ => nomatch h
  | some stored => decidable_of_iff (textField stored.inputPayload "last_applied_message_id" = m)
      ⟨fun h => ⟨stored, rfl, h⟩, fun ⟨_, h, h'⟩ => by rwa [Option.mem_some_iff.1 h]⟩

/-- The message that a step checks and, unless it is remembered, dispatches as work. -/
def Ingress.checked (s : Ingress) : IngressStep → Option Text
  | .load i w event => do
    let d ← s.deliveries[i]?
    let stored ← s.row
    if d.phase = .arriving ∧ (dispatch (syncFsmState w stored) event).isWork then
      some d.clientMessageId
    else none
  | .loadNew i => do
    let d ← s.deliveries[i]?
    if d.phase = .starting then some d.clientMessageId else none
  | _ => none

/-- A message that was dispatched before is the one the session remembers when it is checked. -/
def Ingress.Recalls (s : Ingress) (a : IngressStep) : Prop :=
  ∀ m ∈ s.checked a, m ≠ [] → m ∈ s.applied → Remembers s.row m

instance (s : Ingress) (a : IngressStep) : Decidable (s.Recalls a) :=
  match h : s.checked a with
  | none => isTrue fun m hm => absurd (h ▸ hm) (Option.not_mem_none m)
  | some m => decidable_of_iff (m ≠ [] → m ∈ s.applied → Remembers s.row m)
      ⟨fun hrec _ hk => Option.some.inj (h.symm.trans hk) ▸ hrec, fun hrec => hrec m h⟩

/-! ### What a check lets through -/

theorem textField_congr {d e : Fields} {key : String} (h : d.field key = e.field key) :
    textField d key = textField e key := by rw [textField, textField, h]

theorem checkIdempotent_iff {s : AgentState} {m : Text} : checkIdempotent s m = true ↔
    m ≠ [] ∧ textField s.inputPayload "last_applied_message_id" = m := by
  rw [checkIdempotent, Bool.and_eq_true, bne_iff_ne, beq_iff_eq]

theorem checkIdempotent_syncFsmState (w : Surroundings) (s : AgentState) (m : Text) :
    checkIdempotent (syncFsmState w s) m = checkIdempotent s m := by
  have hfield : (syncFsmState w s).inputPayload.field "last_applied_message_id" =
      s.inputPayload.field "last_applied_message_id" :=
    PyDict.field_congr (get?_syncFsmState w s (by decide))
  rw [checkIdempotent, checkIdempotent, textField_congr hfield]

theorem applied_saveThen (s : Ingress) (i : ℕ) (d : Delivery) (w : Surroundings) (st : AgentState)
    (next : DeliveryPhase) : (s.saveThen i d w st next).applied = s.applied := by
  rw [Ingress.saveThen]
  split <;> rfl

/-- A check against a stored session. -/
theorem check_cases (stored : AgentState) (m : Text) :
    checkIdempotent stored m = true ∧ m ≠ [] ∧ Remembers (some stored) m ∨
      checkIdempotent stored m = false ∧ (m = [] ∨ ¬ Remembers (some stored) m) := by
  cases h : checkIdempotent stored m with
  | true =>
    obtain ⟨hne, heq⟩ := checkIdempotent_iff.1 h
    exact Or.inl ⟨rfl, hne, stored, rfl, heq⟩
  | false =>
    refine Or.inr ⟨rfl, ?_⟩
    by_contra hno
    rw [not_or, not_not] at hno
    obtain ⟨hne, x, hx, heq⟩ := hno
    rw [Option.mem_some_iff] at hx
    rw [hx, checkIdempotent_iff.2 ⟨hne, heq⟩] at h
    cases h

/-- What a step does to the messages applied. -/
def Applies (s : Ingress) (a : IngressStep) (s' : Ingress) : Prop :=
  (∃ m ∈ s.checked a, (m = [] ∨ ¬ Remembers s.row m) ∧ s'.applied = m :: s.applied) ∨
    (∀ m ∈ s.checked a, m ≠ [] ∧ Remembers s.row m) ∧ s'.applied = s.applied

theorem applies_of_none {s s' : Ingress} {a : IngressStep} (h : s.checked a = none)
    (h' : s'.applied = s.applied) : Applies s a s' :=
  Or.inr ⟨fun m hm => absurd (h ▸ hm) (Option.not_mem_none m), h'⟩

theorem applies_load {s : Ingress} {i : ℕ} {d : Delivery} (hd : s.deliveries[i]? = some d)
    (w : Surroundings) (event : Option EventType) :
    Applies s (.load i w event) (s.deliver i d (.load i w event)) := by
  cases hrow : s.row with
  | none =>
    refine applies_of_none (by simp [Ingress.checked, hd, hrow]) ?_
    simp only [Ingress.deliver, hrow]
    split <;> first | rfl | simp_all
  | some stored =>
    by_cases hphase : d.phase = .arriving
    · have hchecked : s.checked (.load i w event) =
          if (dispatch (syncFsmState w stored) event).isWork then some d.clientMessageId
          else none := by
        simp [Ingress.checked, hd, hrow, hphase]
      simp only [Ingress.deliver, hphase, hrow, checkIdempotent_syncFsmState]
      rcases check_cases stored d.clientMessageId with ⟨hc, hm⟩ | ⟨hc, hm⟩
      · rw [if_pos hc]
        refine Or.inr ⟨fun m hmem => ?_, rfl⟩
        rw [hchecked] at hmem
        split_ifs at hmem
        · rw [Option.mem_some_iff] at hmem
          rw [← hmem, hrow]
          exact hm
        · cases hmem
      · rw [if_neg (by simp [hc])]
        by_cases hwork : (dispatch (syncFsmState w stored) event).isWork = true
        · refine Or.inl ⟨d.clientMessageId, by rw [hchecked, if_pos hwork]; rfl, ?_, ?_⟩
          · rw [hrow]
            exact hm
          · rw [Ingress.dispatchTo, if_pos hwork]
        · refine applies_of_none (by rw [hchecked, if_neg hwork]) ?_
          rw [Ingress.dispatchTo, if_neg hwork]
    · refine applies_of_none (by simp [Ingress.checked, hd, hrow, hphase]) ?_
      simp only [Ingress.deliver, hrow]
      split <;> first | rfl | simp_all

theorem applies_loadNew {s : Ingress} {i : ℕ} {d : Delivery} (hd : s.deliveries[i]? = some d) :
    Applies s (.loadNew i) (s.deliver i d (.loadNew i)) := by
  by_cases hphase : d.phase = .starting
  · have hchecked : s.checked (.loadNew i) = some d.clientMessageId := by
      simp [Ingress.checked, hd, hphase]
    cases hrow : s.row with
    | none =>
      simp only [Ingress.deliver, hphase, hrow]
      refine Or.inl ⟨d.clientMessageId, hchecked, Or.inr ?_, rfl⟩
      rintro ⟨stored, hstored, -⟩
      rw [hrow] at hstored
      cases hstored
    | some stored =>
      simp only [Ingress.deliver, hphase, hrow]
      rcases check_cases stored d.clientMessageId with ⟨hc, hm⟩ | ⟨hc, hm⟩
      · rw [if_pos hc]
        refine Or.inr ⟨fun m hmem => ?_, rfl⟩
        rw [hchecked, Option.mem_some_iff] at hmem
        rw [← hmem, hrow]
        exact hm
      · rw [if_neg (by simp [hc])]
        refine Or.inl ⟨d.clientMessageId, hchecked, ?_, rfl⟩
        rw [hrow]
        exact hm
  · refine applies_of_none (by simp [Ingress.checked, hd, hphase]) ?_
    simp only [Ingress.deliver]
    split <;> first | rfl | simp_all

/-- STEP: what a step adds to the messages applied is what it checked and did not remember. -/
theorem applies_step (s : Ingress) (a : IngressStep) : Applies s a (s.step a) := by
  cases a with
  | save w state => exact applies_of_none rfl rfl
  | load i w event =>
    cases hd : s.deliveries[i]? with
    | none => exact applies_of_none (by simp [Ingress.checked, hd]) (by simp [Ingress.step, hd])
    | some d =>
      have hstep : s.step (.load i w event) = s.deliver i d (.load i w event) := by
        simp only [Ingress.step, hd]
      rw [hstep]
      exact applies_load hd w event
  | loadNew i =>
    cases hd : s.deliveries[i]? with
    | none => exact applies_of_none (by simp [Ingress.checked, hd]) (by simp [Ingress.step, hd])
    | some d =>
      have hstep : s.step (.loadNew i) = s.deliver i d (.loadNew i) := by
        simp only [Ingress.step, hd]
      rw [hstep]
      exact applies_loadNew hd
  | cancelSave i w =>
    refine applies_of_none rfl ?_
    simp only [Ingress.step, Ingress.deliver]
    split
    · split
      · split
        · rfl
        · exact applied_saveThen ..
      · exact applied_saveThen ..
      · rfl
    · rfl
  | stampLoad i =>
    refine applies_of_none rfl ?_
    simp only [Ingress.step, Ingress.deliver]
    split
    · split <;> rfl
    · rfl
  | stampSave i w =>
    refine applies_of_none rfl ?_
    simp only [Ingress.step, Ingress.deliver]
    split
    · split
      · exact applied_saveThen ..
      · rfl
    · rfl
  | leave i =>
    refine applies_of_none rfl ?_
    simp only [Ingress.step, Ingress.deliver]
    split <;> rfl

/-! ### The law -/

/-- A step keeps every message applied at most once exactly when what it checks is remembered, if it
    was applied before. -/
theorem atMostOnce_step_iff {s : Ingress} (hs : s.AtMostOnce) (a : IngressStep) :
    (s.step a).AtMostOnce ↔ s.Recalls a := by
  rcases applies_step s a with ⟨m, hm, hlet, happlied⟩ | ⟨hrem, happlied⟩
  · constructor
    · intro h m' hm' hne hmem
      have heq : m' = m := Option.some.inj (hm'.symm.trans hm)
      have hcount := h m' hne
      rw [happlied, heq, List.count_cons_self] at hcount
      rw [heq] at hmem
      have := List.count_pos_iff.2 hmem
      omega
    · intro h k hk
      rw [happlied, List.count_cons]
      split_ifs with hkm
      · have hkeq : m = k := by simpa using hkm
        have hnew : k ∉ s.applied := fun hmem => by
          rw [← hkeq] at hk hmem
          exact hlet.elim hk fun hno => hno (h m hm hk hmem)
        rw [List.count_eq_zero.2 hnew]
      · exact hs k hk
  · refine iff_of_true (fun m hm => ?_) fun m hm hne _ => (hrem m hm).2
    rw [happlied]
    exact hs m hm

/-- CORRECT when it can be: along a run every message is applied at most once exactly when at each
    check a message that was applied before is the one that the session remembers. -/
theorem at_most_once_iff {s : Ingress} (hs : s.AtMostOnce) (trace : List IngressStep) :
    Along Ingress.step (fun s a => (s.step a).AtMostOnce) s trace ↔
      Along Ingress.step Ingress.Recalls s trace :=
  along_iff (fun _ a h => atMostOnce_step_iff h a) (fun _ a h hc => (atMostOnce_step_iff h a).2 hc)
    trace s hs

/-! ### What the session remembers -/

/-- The state that a step saves. -/
def Ingress.saved (s : Ingress) : IngressStep → Option (Surroundings × AgentState)
  | .save w state => some (w, state)
  | .cancelSave i w => do
    let d ← s.deliveries[i]?
    match d.phase with
    | .cancelling stored => return (w, ← cancelledState w stored true)
    | .cancelled updated => some (w, updated)
    | _ => none
  | .stampSave i w => do
    let d ← s.deliveries[i]?
    match d.phase with
    | .stamping final => some (w, stampApplied final d.clientMessageId)
    | _ => none
  | _ => none

/-- The state saved names no other message as the last one. -/
def NamesNoOther (m : Text) (s : AgentState) : Prop :=
  s.inputPayload.get? "last_applied_message_id".toList = none ∨
    textField s.inputPayload "last_applied_message_id" = m

theorem row_saveThen (s : Ingress) (i : ℕ) (d : Delivery) (w : Surroundings) (st : AgentState)
    (next : DeliveryPhase) : (s.saveThen i d w st next).row = rowAfter s.row (w, st) := by
  rw [Ingress.saveThen, rowAfter]
  cases hsave : save w s.row st <;> rfl

/-- The row only changes by what is saved. -/
theorem row_step (s : Ingress) (a : IngressStep) :
    (s.step a).row = match s.saved a with
      | some saved => rowAfter s.row saved
      | none => s.row := by
  cases a with
  | save w state => rfl
  | load i w event =>
    simp only [Ingress.step, Ingress.saved, Ingress.deliver]
    split
    · split
      · rfl
      · split <;> rfl
      · rfl
    · rfl
  | loadNew i =>
    simp only [Ingress.step, Ingress.saved, Ingress.deliver]
    split
    · split
      · rfl
      · split <;> rfl
      · rfl
    · rfl
  | cancelSave i w =>
    simp only [Ingress.step, Ingress.saved, Ingress.deliver]
    cases hd : s.deliveries[i]? with
    | none => rfl
    | some d =>
      cases hphase : d.phase with
      | cancelling stored =>
        cases hc : cancelledState w stored true with
        | none => simp [hphase, hc, Ingress.goTo]
        | some updated => simp [hphase, hc, row_saveThen]
      | cancelled updated => simp [hphase, row_saveThen]
      | _ => simp [hphase]
  | stampLoad i =>
    simp only [Ingress.step, Ingress.saved, Ingress.deliver]
    split
    · split <;> rfl
    · rfl
  | stampSave i w =>
    simp only [Ingress.step, Ingress.saved, Ingress.deliver]
    cases hd : s.deliveries[i]? with
    | none => rfl
    | some d =>
      cases hphase : d.phase with
      | stamping final => simp [hphase, row_saveThen]
      | _ => simp [hphase]
  | leave i =>
    simp only [Ingress.step, Ingress.saved, Ingress.deliver]
    split <;> rfl

/-- A row that is written names the message that the saved state names, else the one of the row. -/
theorem field_written {w : Surroundings} {row : Option AgentState} {s s' : AgentState}
    (h : writeRow w row s = .ok s') :
    s'.inputPayload.field "last_applied_message_id" =
      (preserveVolatileFields row s).inputPayload.field "last_applied_message_id" :=
  PyDict.field_congr ((validate_guarded w _ (validate_of_writeRow h)).payload _ (by decide))

/-- A save forgets the last message only if it names another one. -/
theorem remembers_rowAfter {row : Option AgentState} {m : Text} (hm : m ≠ [])
    (h : Remembers row m) {saved : Surroundings × AgentState} (hs : NamesNoOther m saved.2) :
    Remembers (rowAfter row saved) m := by
  obtain ⟨stored, hrow, hstored⟩ := h
  rw [Option.mem_def] at hrow
  subst hrow
  rw [rowAfter, save]
  split_ifs
  · exact ⟨stored, rfl, hstored⟩
  · exact ⟨stored, rfl, hstored⟩
  · cases hw : writeRow saved.1 (some stored) saved.2 with
    | error e => exact ⟨stored, rfl, hstored⟩
    | ok s' =>
      refine ⟨s', rfl, ?_⟩
      rw [textField_congr (field_written hw)]
      by_cases hmissing : saved.2.inputPayload.get? "last_applied_message_id".toList = none
      · rw [← hstored]
        refine textField_congr ?_
        rw [preserveVolatileFields, PyDict.field, PyDict.getD, get?_restorePayload, if_pos]
        · rfl
        · refine ⟨by decide, hmissing, fun hnone => ?_, fun hgate => absurd hgate.2 (by decide)⟩
          rw [textField, PyDict.field, PyDict.getD, hnone] at hstored
          exact hm hstored.symm
      · rw [← hs.resolve_left hmissing]
        refine textField_congr (PyDict.field_congr ?_)
        rw [preserveVolatileFields]
        exact (get?_restorePayload _ _ _ _ _).trans (if_neg fun hput => hmissing hput.2.1)

/-- RUN: as long as no save names another message, the session remembers it. -/
theorem remembers_run {m : Text} (hm : m ≠ []) : ∀ {trace : List IngressStep} {s : Ingress},
    Along Ingress.step (fun s a => ∀ saved ∈ s.saved a, NamesNoOther m saved.2) s trace →
      Remembers s.row m → Remembers (run Ingress.step s trace).row m
  | [], _, _, h => h
  | a :: trace, s, halong, h => by
    rw [run_cons]
    refine remembers_run hm halong.2 ?_
    rw [row_step]
    cases hsaved : s.saved a with
    | none => exact h
    | some saved => exact remembers_rowAfter hm h (halong.1 saved hsaved)

/-- A stamp that is written is remembered. -/
theorem remembers_stampApplied (row : Option AgentState) (w : Surroundings) (final : AgentState)
    {m : Text} (hm : m ≠ []) : rowAfter row (w, stampApplied final m) = row ∨
      Remembers (rowAfter row (w, stampApplied final m)) m := by
  rw [rowAfter, save]
  split_ifs
  · exact Or.inl rfl
  · exact Or.inl rfl
  · cases hw : writeRow w row (stampApplied final m) with
    | error e => exact Or.inl rfl
    | ok s' =>
      refine Or.inr ⟨s', rfl, ?_⟩
      have hstamp : (stampApplied final m).inputPayload.field "last_applied_message_id" = .str m := by
        rw [stampApplied, if_neg hm]
        exact PyDict.field_update_put_self _ _ _
      have hkeep : (preserveVolatileFields row (stampApplied final m)).inputPayload.field
          "last_applied_message_id" = .str m := by
        rw [← hstamp]
        cases row with
        | none => rfl
        | some stored =>
          refine PyDict.field_congr ((get?_restorePayload _ _ _ _ _).trans (if_neg fun hput => ?_))
          rw [PyDict.field, PyDict.getD, hput.2.1] at hstamp
          cases hstamp
      rw [textField, field_written hw, hkeep, PyVal.orElse]
      split_ifs with htrue
      · rfl
      · simp [PyVal.truthy, hm] at htrue

/-- Deliveries that arrive at a session. -/
def deliveriesOf (ids : List Text) : Ingress where
  row := some (secondTurn .planned)
  deliveries := ids.map fun m => { clientMessageId := m }

/-- A delivery that runs to its end. -/
def delivered (i : ℕ) : List IngressStep :=
  [.load i idleProcess (some .other), .stampLoad i, .stampSave i idleProcess]

/-- A retry after the stamp of the first delivery is ignored. -/
theorem at_most_once_retry : Along Ingress.step (fun s a => (s.step a).AtMostOnce)
    (deliveriesOf ["m1".toList, "m1".toList]) (delivered 0 ++ delivered 1) :=
  (at_most_once_iff (fun m _ => show List.count m [] ≤ 1 from Nat.zero_le 1) _).2
    (by decide +kernel)

/-- A retry while the first delivery still streams is applied again, and so is an older message that is
    replayed after a later one. -/
theorem applied_twice :
    ¬ (run Ingress.step (deliveriesOf ["m1".toList, "m1".toList])
      [.load 0 idleProcess (some .other), .load 1 idleProcess (some .other)]).AtMostOnce ∧
    ¬ (run Ingress.step (deliveriesOf ["m1".toList, "m2".toList, "m1".toList])
      (delivered 0 ++ delivered 1 ++ delivered 2)).AtMostOnce := by
  have hcounts : (run Ingress.step (deliveriesOf ["m1".toList, "m1".toList])
        [.load 0 idleProcess (some .other), .load 1 idleProcess (some .other)]).applied.count
          "m1".toList = 2 ∧
      (run Ingress.step (deliveriesOf ["m1".toList, "m2".toList, "m1".toList])
        (delivered 0 ++ delivered 1 ++ delivered 2)).applied.count "m1".toList = 2 := by
    decide +kernel
  obtain ⟨hretry, hreplay⟩ := hcounts
  constructor
  · intro h
    have := h "m1".toList (by decide)
    omega
  · intro h
    have := h "m1".toList (by decide)
    omega

end AgentLangraph.Run
