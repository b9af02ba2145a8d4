import AgentLangraph.Access.Tenant
import AgentLangraph.Run.Messages
import AgentLangraph.Run.TurnReset
import AgentLangraph.Tool.Guard

/-! The requests that start a turn of a session, and the payload that the turn gets (`task_api.py`,
    `control_payload.py`, `session_controller.py`, `session_turn.py`). A payload is merged from what the
    client sends and what the session has stored; what the helpers compute is open, but not the keys
    that they write.

        create_task  sanitize ── setdefault user_role ── skill ──▶ stored ∪ payload
        message      stored ── strip hints ── goal, meta, confirm ──▶ stored ∪ payload -/

namespace AgentLangraph.Access
open PyText Session Run

/-! ### Helpers that write to some keys -/

/-- `d[key] = v` for those of the keys that there is a value for. -/
def setAmong (keys : List String) (values payload : Fields) : Fields :=
  keys.foldl (fun d key =>
    match values.get? key.toList with
    | some v => d.put key v
    | none => d) payload

/-- The keys that `apply_confirm_pending_delivery` sets. -/
def deliveryKeys : List String :=
  ["goal", "query", "writing_operator", "interaction_goal", "interaction_goal_confidence",
    "force_write_after_reads", "pending_writing_delivery_consumed", "writing_intent", "confirm"]

/-- The keys that `stamp_inbound_classification` sets. -/
def classificationKeys : List String := ["event_classification", "inbound_event_id"]

/-- The keys that `apply_session_source_inquiry_payload_hints` sets. -/
def inquiryKeys : List String := ["writing_intent", "turn_kind", "steer_planning_done"]

/-- What the helpers of a turn compute. -/
structure Computed where
  history : AgentState → Text → PyVal
  /-- The entries of a pending delivery that is confirmed. -/
  delivery : AgentState → Fields → Option Fields
  /-- The decision of the turn policy, if it is audited, and the classification. -/
  decision : AgentState → Fields → Text → Fields
  classification : Fields → Fields
  /-- The hints for a question about the source of the session. -/
  sourceInquiry : Fields → Option Fields
  goalLooksLikeConfirmOnly : Text → Bool
  turnHistory : AgentState → Fields → PyVal
  firstHistory : Text → PyVal

/-- `apply_confirm_pending_delivery`. -/
def Computed.applyConfirmPendingDelivery (v : Computed) (existing : AgentState) (merged : Fields) : Fields :=
  match v.delivery existing merged with
  | none => merged
  | some entries => (setAmong deliveryKeys entries merged).pop "pending_writing_delivery"

/-- `apply_session_source_inquiry_payload_hints`. -/
def Computed.applySourceInquiryHints (v : Computed) (payload : Fields) : Fields :=
  match v.sourceInquiry payload with
  | none => payload
  | some hints => (setAmong inquiryKeys hints payload).pop "require_planning_after_steer"

/-- `stamp_inbound_classification`. -/
def Computed.stampInboundClassification (v : Computed) (payload : Fields) : Fields :=
  setAmong classificationKeys (v.classification payload) payload

/-- `_stamp_turn_policy_and_classification`. -/
def Computed.stampTurnPolicy (v : Computed) (existing : AgentState) (merged : Fields) (goal : Text) : Fields :=
  v.applySourceInquiryHints
    (setAmong ("turn_policy_decision" :: classificationKeys) (v.decision existing merged goal) merged)

/-- The helpers, as the preparation of a turn calls them. -/
def Computed.companions (v : Computed) : Companions where
  history := v.history
  applyConfirmPendingDelivery := v.applyConfirmPendingDelivery
  stampTurnPolicyAndClassification := fun existing merged goal _ => v.stampTurnPolicy existing merged goal
  goalLooksLikeConfirmOnly := v.goalLooksLikeConfirmOnly
  turnHistory := v.turnHistory
  firstHistory := v.firstHistory
  stampInboundClassification := v.stampInboundClassification

/-! ### The requests -/

/-- `CreateTaskRequest`, for the session. -/
structure CreateTask where
  userId : Text := []
  newSession : Bool := false
  skillId : Text := []
  skillParams : Fields := PyDict.empty
  inputPayload : Fields := PyDict.empty

/-- `MessageTaskRequest`; its meta is given as what it makes of the one before. -/
structure Message where
  message : Text := []
  clientMessageId : Text := []
  confirm : Bool := false
  intervention : Option PyVal := none
  priority : ℤ := 0
  metaDict : Option PyVal := none
  /-- `meta.new_session`. -/
  newSession : Bool := false
  deriving DecidableEq

inductive Request
  | createTask (r : CreateTask)
  /-- A message, with the classification that it gets. -/
  | message (m : Message) (event : Option EventType)

/-- What the requests are handled with. -/
structure Api where
  authEnabled : Bool := true
  sessionEnabled : Bool := true
  sessionId : Text
  surroundings : Surroundings
  letters : Tool.Letters := Tool.asciiLetters
  computed : Computed
  /-- `resolve_skill_for_task`, the entries it comes to; nothing where it raises. -/
  resolveSkill : AuthPrincipal → CreateTask → Option Fields := fun _ _ => none

/-- The texts that `DANGEROUS_PATTERNS` match. -/
def dangerousTexts : List Text :=
  ["ignore previous instructions".toList, "ignore all instructions".toList,
    "forget your instructions".toList, "forget your context".toList,
    "forget the instructions".toList, "forget the context".toList, "you are now".toList,
    "<|system|>".toList, "disregard all".toList, "disregard previous".toList]

/-- `sanitize_text`; nothing where it raises. -/
def sanitizeText (u : Tool.Letters) (value : Text) : Option Text :=
  let text := strip value
  if text = [] ∨ dangerousTexts.any fun t => contains (u.lower text) t then none else some text

/-- One round of `sanitize_input_payload`. -/
def sanitizeKey (u : Tool.Letters) (payload : Fields) (key : String) : Option Fields :=
  match payload.field key with
  | .str value => (sanitizeText u value).map fun text => payload.put key (.str text)
  | _ => some payload

/-- The keys of `sanitize_input_payload`. -/
def userTextKeys : List String := ["goal", "query", "question", "message", "prompt"]

/-- `sanitize_input_payload`. -/
def sanitizeInputPayload (u : Tool.Letters) (payload : Fields) : Option Fields :=
  userTextKeys.foldlM (sanitizeKey u) payload

/-- `payload.setdefault(key, v)`. -/
def setDefault (payload : Fields) (key : String) (v : PyVal) : Fields :=
  if payload.has key then payload else payload.put key v

/-- The keys that `attach_skill_to_payload` writes. -/
def skillKeys : List String :=
  ["skill_params", "skill_id", "execution_mode", "domain", "_skill_policy", "_skill_snapshot"]

/-- `if params.get(key) and key not in payload: payload[key] = params[key]`. -/
def skillGoal (params payload : Fields) (key : String) : Fields :=
  if (params.field key).truthy then setDefault payload key (params.field key) else payload

/-- `_prepare_task_request`, the payload; nothing where it raises. -/
def prepareTaskRequest (g : Api) (p : AuthPrincipal) (r : CreateTask) : Option Fields := do
  let payload ← sanitizeInputPayload g.letters r.inputPayload
  let payload := setDefault payload "user_role" (.str p.role)
  if r.skillId = [] then pure payload
  else
    let payload := ["goal", "query"].foldl (skillGoal r.skillParams) payload
    let entries ← g.resolveSkill p r
    pure (setAmong skillKeys entries payload)

/-- `CLIENT_ROUTING_HINT_KEYS`. -/
def clientRoutingHintKeys : List String :=
  ["preempt", "replace_goal", "foreground_preempt_pending", "steer_replan_mode", "steer_requires_planning",
    "require_planning_after_steer", "steer_planning_done", "foreground_replan_dispatch", "pending_replan"]

/-- `payload[key] = v`, if there is a value. -/
def putSome (payload : Fields) (key : String) : Option PyVal → Fields
  | none => payload
  | some v => payload.put key v

/-- `merge_stripped_message_payload`. -/
def mergeStrippedMessagePayload (base : Fields) (m : Message) : Fields :=
  let merged := popAll base clientRoutingHintKeys
  let merged := if m.message = [] then merged
    else (merged.put "goal" (.str m.message)).put "message" (.str m.message)
  let merged := putSome merged "meta" m.metaDict
  let merged := if m.confirm then merged.put "confirm" (.bool true) else merged
  let merged := putSome merged "intervention" m.intervention
  if m.priority = 0 then merged else merged.put "priority" (.int m.priority)

/-! ### The turn that a request starts -/

/-- `prepare_session_turn` without a session. -/
def freshPayload (c : Companions) (payload : Fields) : Fields :=
  if requestGoal payload = [] then payload
  else
    let payload := payload.put "conversation_history" (c.firstHistory (requestGoal payload))
    payload.update (c.stampInboundClassification payload)

/-- `prepare_session_turn`, with the user that the state is stored for. -/
def prepareTurn (g : Api) (row : Option Stored) (userId : Text) (newSession : Bool) (payload : Fields) :
    Stored :=
  if g.sessionEnabled = false then
    ⟨userId, createInitialState g.sessionId (freshPayload g.computed.companions payload)⟩
  else
    let (state, created) := prepareSessionTurn g.surroundings (row.map Stored.state) g.sessionId newSession
      (turnPayload g.computed.companions payload)
    ⟨if created then userId else (row.map Stored.userId).getD userId, state⟩

/-- What `stream_task` makes of a turn that is prepared. -/
def streamed (g : Api) (t : Stored) : Stored :=
  let state := syncFsmState g.surroundings t.state
  { t with state := state.mergePayload (stampSessionMode state.inputPayload) }

/-- The row after a save; nothing where it raises. -/
def saved (g : Api) (row s : AgentState) : Option AgentState :=
  (save g.surroundings (some row) s).toOption.bind Prod.fst

/-- The payload of a message to a task that is stored. -/
def messagePayload (base : Fields) (m : Message) : Fields :=
  let payload := mergeStrippedMessagePayload base m
  if m.clientMessageId = [] then payload else payload.put "client_message_id" (.str m.clientMessageId)

/-- `RunController.cancel`, whose state is saved twice, and `_dispatch_redirect`. -/
def redirectedTurn (g : Api) (row : Stored) (stored : AgentState) (m : Message) : Option Stored := do
  let updated ← cancelledState g.surroundings stored true
  let loaded ← saved g row.state updated
  let loaded ← saved g loaded updated
  pure (streamed g (prepareTurn g (some ⟨row.userId, loaded⟩) "anonymous".toList false
    (stampSessionMode (mergeStrippedMessagePayload loaded.inputPayload { m with metaDict := none }))))

/-- `handle_message`, up to the turn that it starts, for a task that is stored. -/
def handleStored (g : Api) (p : AuthPrincipal) (row : Stored) (m : Message) (event : Option EventType) :
    Option Stored :=
  let stored := syncFsmState g.surroundings row.state
  if checkIdempotent stored m.clientMessageId then none
  else
    match dispatch stored event with
    | .streaming => some (streamed g (prepareTurn g (some row) p.userId m.newSession
        (buildInboundMergedPayload g.computed.companions stored (messagePayload stored.inputPayload m))))
    | .cancelling stored => redirectedTurn g row stored m
    | _ => none

/-- `handle_message` for a task that is not stored. -/
def handleNewTask (g : Api) (p : AuthPrincipal) (m : Message) : Stored :=
  streamed g (prepareTurn g none p.userId m.newSession
    (stampSessionMode (mergeStrippedMessagePayload PyDict.empty m)))

/-- `stream_message_task`, up to the turn that it starts. -/
def streamMessage (g : Api) (p : AuthPrincipal) (row : Option Stored) (m : Message)
    (event : Option EventType) : Option Stored :=
  if assertStoredAccess g.authEnabled p (row.map Stored.userId) = .ok () then
    match row with
    | some row => handleStored g p row m event
    | none => some (handleNewTask g p m)
  else none

/-- The turn that a request starts, if it starts one. -/
def startTurn (g : Api) (p : AuthPrincipal) (row : Option Stored) : Request → Option Stored
  | .createTask r =>
    (prepareTaskRequest g p r).map fun payload =>
      prepareTurn g row (if r.userId = [] then p.userId else r.userId) r.newSession payload
  | .message m event => streamMessage g p row m event

/-- Helpers that compute nothing. -/
def idleHelpers : Computed where
  history := fun _ _ => .none
  delivery := fun _ _ => none
  decision := fun _ _ _ => PyDict.empty
  classification := fun _ => PyDict.empty
  sourceInquiry := fun _ => none
  goalLooksLikeConfirmOnly := fun _ => false
  turnHistory := fun _ _ => .none
  firstHistory := fun _ => .none

def idleApi : Api where
  sessionId := "s1".toList
  surroundings := idleProcess
  computed := idleHelpers

/-! ### Where the role of a turn comes from -/

/-- The role in a payload. -/
def roleIn (payload : Fields) : Option PyVal := payload.get? "user_role".toList

theorem roleIn_put (d : Fields) {key : String} (h : key ≠ "user_role") (v : PyVal) :
    roleIn (d.put key v) = roleIn d := PyDict.get?_put_ne d h v

theorem roleIn_pop (d : Fields) {key : String} (h : key ≠ "user_role") : roleIn (d.pop key) = roleIn d :=
  PyDict.get?_pop_ne d h

theorem roleIn_update (d e : Fields) : roleIn (d.update e) = (roleIn e).or (roleIn d) :=
  PyDict.get?_update d e _

theorem roleIn_setAmong {values : Fields} : ∀ {keys : List String} {payload : Fields}, "user_role" ∉ keys →
    roleIn (setAmong keys values payload) = roleIn payload
  | [], _, _ => rfl
  | key :: keys, payload, h => by
      rw [List.mem_cons, not_or] at h
      rw [setAmong, List.foldl_cons]
      refine (roleIn_setAmong h.2).trans ?_
      cases values.get? key.toList with
      | none => rfl
      | some v => exact roleIn_put payload (Ne.symm h.1) v

theorem roleIn_popAll : ∀ {keys : List String} {payload : Fields}, "user_role" ∉ keys →
    roleIn (popAll payload keys) = roleIn payload
  | [], _, _ => rfl
  | key :: keys, payload, h => by
      rw [List.mem_cons, not_or] at h
      exact (roleIn_popAll h.2).trans (roleIn_pop payload (Ne.symm h.1))

theorem roleIn_putSome (d : Fields) {key : String} (h : key ≠ "user_role") (v : Option PyVal) :
    roleIn (putSome d key v) = roleIn d := by
  cases v with
  | none => rfl
  | some v => exact roleIn_put d h v

theorem roleIn_stampSessionMode (payload : Fields) : roleIn (stampSessionMode payload) = roleIn payload :=
  get?_stampSessionMode payload (by decide)

theorem roleIn_syncFsmState (w : Surroundings) (s : AgentState) :
    roleIn (syncFsmState w s).inputPayload = roleIn s.inputPayload :=
  get?_syncFsmState w s (by decide)

/-! ### The role of the payload of a turn -/

section
variable (v : Computed)

theorem roleIn_applyConfirm (existing : AgentState) (merged : Fields) :
    roleIn (v.applyConfirmPendingDelivery existing merged) = roleIn merged := by
  rw [Computed.applyConfirmPendingDelivery]
  cases v.delivery existing merged with
  | none => rfl
  | some entries =>
    dsimp only
    rw [roleIn_pop _ (by decide), roleIn_setAmong (by decide)]

theorem roleIn_stampTurnPolicy (existing : AgentState) (merged : Fields) (goal : Text) :
    roleIn (v.stampTurnPolicy existing merged goal) = roleIn merged := by
  have hstamped : roleIn (setAmong ("turn_policy_decision" :: classificationKeys)
      (v.decision existing merged goal) merged) = roleIn merged := roleIn_setAmong (by decide)
  rw [Computed.stampTurnPolicy, Computed.applySourceInquiryHints]
  split
  · exact hstamped
  · rw [roleIn_pop _ (by decide), roleIn_setAmong (by decide), hstamped]

theorem roleIn_stampInbound (payload : Fields) :
    roleIn (v.companions.stampInboundClassification payload) = roleIn payload := roleIn_setAmong (by decide)

theorem roleIn_inboundPayload (existing : AgentState) (payload : Fields) :
    roleIn (inboundPayload v.companions existing payload) = (roleIn payload).or (roleIn existing.inputPayload) := by
  have hmerged : roleIn (v.applyConfirmPendingDelivery existing ((existing.inputPayload.update payload).put
      "conversation_history" (v.history existing (requestGoal payload)))) =
      (roleIn payload).or (roleIn existing.inputPayload) := by
    rw [roleIn_applyConfirm, roleIn_put _ (by decide), roleIn_update]
  rw [inboundPayload]
  split_ifs
  · exact (roleIn_stampTurnPolicy v _ _ _).trans hmerged
  · exact hmerged
  · exact (roleIn_put _ (by decide) _).trans hmerged

/-- What the client sends wins over what is stored. -/
theorem roleIn_buildInbound (existing : AgentState) (payload : Fields) :
    roleIn (buildInboundMergedPayload v.companions existing payload) =
      (roleIn payload).or (roleIn existing.inputPayload) := by
  rw [buildInboundMergedPayload]
  split_ifs
  · rw [clearWritingOperatorCarryover, roleIn_popAll (by decide), resetBatchTurnCounter,
      roleIn_popAll ?_, roleIn_inboundPayload]
    rw [batchCounterKeys]
    split_ifs <;> decide
  · exact roleIn_inboundPayload v existing payload

theorem roleIn_turnPayload (payload : Fields) (existing : Option AgentState) :
    roleIn (turnPayload v.companions payload existing) =
      (roleIn payload).or (existing.bind fun s => roleIn s.inputPayload) := by
  cases existing with
  | none =>
    have hstamped : roleIn (stampSessionMode (payload.put "conversation_history"
        (v.firstHistory (requestGoal payload)))) = roleIn payload := by
      rw [roleIn_stampSessionMode, roleIn_put _ (by decide)]
    rw [turnPayload, Option.bind_none, Option.or_none]
    split_ifs
    · rw [roleIn_update, roleIn_stampInbound, Option.or_self]
      exact hstamped
    · exact hstamped
  | some existing =>
    rw [turnPayload, clearTurnCarryover, roleIn_put _ (by decide), roleIn_popAll (by decide),
      roleIn_put _ (by decide), roleIn_stampSessionMode, roleIn_buildInbound]
    rfl

theorem roleIn_freshPayload (payload : Fields) :
    roleIn (freshPayload v.companions payload) = roleIn payload := by
  rw [freshPayload]
  split_ifs
  · rfl
  · rw [roleIn_update, roleIn_stampInbound, Option.or_self, roleIn_put _ (by decide)]

end

/-! ### The role of the row -/

theorem roleIn_setFsmState (s : AgentState) (f : FsmState) :
    roleIn (setFsmState s f).inputPayload = roleIn s.inputPayload :=
  PyDict.get?_update_of_eq (PyDict.get?_put_ne _ (by decide) _)

theorem roleIn_transitionFsm (w : Surroundings) (s : AgentState) :
    roleIn (transitionFsm w s .replanning).inputPayload = roleIn s.inputPayload := by
  rw [transitionFsm]
  split_ifs
  · exact roleIn_setFsmState s _
  · rw [mergePayload_inputPayload, roleIn_update, roleIn, get?_applyReplanGate _ _ (by decide)]
    exact Option.or_self.trans (roleIn_setFsmState s _)

theorem roleIn_cancelledState {w : Surroundings} {s s' : AgentState}
    (h : cancelledState w s true = some s') : roleIn s'.inputPayload = roleIn s.inputPayload := by
  rw [cancelledState, if_pos rfl, bumpIntentRevision] at h
  obtain ⟨payload, hbump, rfl⟩ := Option.map_eq_some_iff.1 h
  obtain ⟨revision, -, rfl⟩ := Option.map_eq_some_iff.1 hbump
  rw [roleIn_transitionFsm]
  exact (roleIn_update _ _).trans (by rw [roleIn_put _ (by decide), Option.or_self])

theorem roleIn_validate {w : Surroundings} {s s' : AgentState} (h : validate w s = .ok s') :
    roleIn s'.inputPayload = roleIn s.inputPayload := by
  have hsync := roleIn_syncFsmState w s
  rw [validate, guardIssues] at h
  split at h
  · cases h
    exact hsync
  · split_ifs at h
    cases h
    rw [roleIn_setFsmState, hsync]

/-- A save keeps a role that the row and the state have in common. -/
theorem roleIn_saved {g : Api} {row s r : AgentState} (h : saved g row s = some r)
    (hrole : roleIn s.inputPayload = roleIn row.inputPayload) :
    roleIn r.inputPayload = roleIn row.inputPayload := by
  rw [saved, save] at h
  split_ifs at h
  · cases h
    rfl
  · cases h
    rfl
  · cases hw : writeRow g.surroundings (some row) s with
    | error e =>
      rw [hw] at h
      cases h
    | ok s' =>
      rw [hw] at h
      cases h
      rw [roleIn_validate (validate_of_writeRow hw), ← hrole]
      exact (get?_restorePayload _ _ _ _ _).trans (if_neg fun hput => absurd hput.1 (by decide))

theorem roleIn_mergeStripped (base : Fields) (m : Message) :
    roleIn (mergeStrippedMessagePayload base m) = roleIn base := by
  have hhints : roleIn (popAll base clientRoutingHintKeys) = roleIn base := roleIn_popAll (by decide)
  rw [mergeStrippedMessagePayload]
  split_ifs <;> simp (disch := decide) only [roleIn_put, roleIn_putSome, hhints]

/-! ### The role of a turn -/

/-- A turn has the role of its payload or, without one, that of the row that it continues. -/
theorem roleIn_prepareTurn (g : Api) (row : Option Stored) (userId : Text) (newSession : Bool)
    (payload : Fields) : ∃ old, (old = none ∨ ∃ r ∈ row, old = roleIn r.state.inputPayload) ∧
      roleIn (prepareTurn g row userId newSession payload).state.inputPayload = (roleIn payload).or old := by
  rw [prepareTurn]
  split_ifs
  · exact ⟨none, .inl rfl, by rw [Option.or_none]; exact roleIn_freshPayload g.computed payload⟩
  · rw [prepareSessionTurn]
    cases hrow : (row.map Stored.state).filter
        fun existing => !newSession && existing.sessionId == g.sessionId with
    | none => exact ⟨none, .inl rfl, roleIn_turnPayload g.computed payload none⟩
    | some existing =>
      obtain ⟨r, hr, rfl⟩ := Option.map_eq_some_iff.1 (Option.filter_eq_some_iff.1 hrow).1
      refine ⟨_, .inr ⟨r, hr, rfl⟩, ?_⟩
      dsimp only
      rw [roleIn_syncFsmState, inputPayload_resetExecutionFields, roleIn_update, roleIn_turnPayload,
        Option.bind_some, Option.or_assoc, Option.or_self]

theorem roleIn_streamed (g : Api) (t : Stored) :
    roleIn (streamed g t).state.inputPayload = roleIn t.state.inputPayload := by
  rw [streamed, mergePayload_inputPayload, roleIn_update, roleIn_stampSessionMode, Option.or_self,
    roleIn_syncFsmState]

/-- A payload with the role of the row comes to a turn with that role. -/
theorem roleIn_streamed_prepareTurn (g : Api) {row : Stored} {role : Option PyVal} (userId : Text)
    (newSession : Bool) {payload : Fields} (hpayload : roleIn payload = role)
    (hrow : roleIn row.state.inputPayload = role) :
    roleIn (streamed g (prepareTurn g (some row) userId newSession payload)).state.inputPayload = role := by
  obtain ⟨old, hold, hturn⟩ := roleIn_prepareTurn g (some row) userId newSession payload
  rw [roleIn_streamed, hturn, hpayload]
  rcases hold with rfl | ⟨r, hr, rfl⟩
  · exact Option.or_none
  · cases hr
    rw [hrow, Option.or_self]

theorem roleIn_messagePayload (base : Fields) (m : Message) : roleIn (messagePayload base m) = roleIn base := by
  rw [messagePayload]
  split_ifs
  · exact roleIn_mergeStripped base m
  · rw [roleIn_put _ (by decide), roleIn_mergeStripped]

theorem cancelling_of_dispatch {stored s : AgentState} {event : Option EventType}
    (h : dispatch stored event = .cancelling s) : s = stored := by
  rcases event with _ | (_ | _ | _ | _ | _ | _)
  case some.redirect | some.interrupt =>
    rw [dispatch] at h
    split_ifs at h
    cases h
    rfl
  all_goals cases h

theorem roleIn_redirectedTurn {g : Api} {row t : Stored} {stored : AgentState} {m : Message}
    (hstored : roleIn stored.inputPayload = roleIn row.state.inputPayload)
    (h : redirectedTurn g row stored m = some t) :
    roleIn t.state.inputPayload = roleIn row.state.inputPayload := by
  obtain ⟨updated, hcancel, h⟩ := Option.bind_eq_some_iff.1 h
  obtain ⟨first, hfirst, h⟩ := Option.bind_eq_some_iff.1 h
  obtain ⟨loaded, hloaded, h⟩ := Option.bind_eq_some_iff.1 h
  have hupdated := (roleIn_cancelledState hcancel).trans hstored
  have hrow := roleIn_saved hfirst hupdated
  have hrole := (roleIn_saved hloaded (hupdated.trans hrow.symm)).trans hrow
  cases h
  refine roleIn_streamed_prepareTurn g _ _ ?_ hrole
  rw [roleIn_stampSessionMode, roleIn_mergeStripped, hrole]

/-- MESSAGE: the turn of a stored session has the role that is stored. -/
theorem roleIn_handleStored {g : Api} {p : AuthPrincipal} {row t : Stored} {m : Message}
    {event : Option EventType} (h : handleStored g p row m event = some t) :
    roleIn t.state.inputPayload = roleIn row.state.inputPayload := by
  have hsync := roleIn_syncFsmState g.surroundings row.state
  rw [handleStored] at h
  split_ifs at h
  split at h
  · cases h
    refine roleIn_streamed_prepareTurn g _ _ ?_ rfl
    rw [roleIn_buildInbound, roleIn_messagePayload, hsync, Option.or_self]
  · rename_i hdispatch
    cases cancelling_of_dispatch hdispatch
    exact roleIn_redirectedTurn hsync h
  · cases h

/-- A message to a task that is not stored comes to a turn without a role. -/
theorem roleIn_handleNewTask (g : Api) (p : AuthPrincipal) (m : Message) :
    roleIn (handleNewTask g p m).state.inputPayload = none := by
  obtain ⟨old, hold, hturn⟩ := roleIn_prepareTurn g none p.userId m.newSession
    (stampSessionMode (mergeStrippedMessagePayload PyDict.empty m))
  rw [handleNewTask, roleIn_streamed, hturn, roleIn_stampSessionMode, roleIn_mergeStripped]
  rcases hold with rfl | ⟨r, hr, -⟩
  · rfl
  · cases hr

theorem roleIn_sanitizeKey {u : Tool.Letters} {payload out : Fields} {key : String} (hkey : key ≠ "user_role")
    (h : sanitizeKey u payload key = some out) : roleIn out = roleIn payload := by
  rw [sanitizeKey] at h
  split at h
  · obtain ⟨text, -, rfl⟩ := Option.map_eq_some_iff.1 h
    exact roleIn_put payload hkey _
  · cases h
    rfl

theorem roleIn_sanitize {u : Tool.Letters} : ∀ {keys : List String} {payload out : Fields}, "user_role" ∉ keys →
    keys.foldlM (sanitizeKey u) payload = some out → roleIn out = roleIn payload
  | [], payload, out, _, h => by
      cases h
      rfl
  | key :: keys, payload, out, hkeys, h => by
      rw [List.mem_cons, not_or] at hkeys
      rw [List.foldlM_cons] at h
      obtain ⟨first, hfirst, h⟩ := Option.bind_eq_some_iff.1 h
      exact (roleIn_sanitize hkeys.2 h).trans (roleIn_sanitizeKey (Ne.symm hkeys.1) hfirst)

theorem roleIn_setDefault (payload : Fields) (v : PyVal) :
    roleIn (setDefault payload "user_role" v) = (roleIn payload).or (some v) := by
  rw [setDefault, PyDict.has, roleIn, roleIn]
  split_ifs with h
  · obtain ⟨v', hv'⟩ := Option.isSome_iff_exists.1 h
    rw [hv', Option.some_or]
  · rw [Option.not_isSome_iff_eq_none.1 h, Option.none_or, PyDict.put, PyDict.get?_set_self]

theorem roleIn_skillGoal (params payload : Fields) {key : String} (h : key ≠ "user_role") :
    roleIn (skillGoal params payload key) = roleIn payload := by
  rw [skillGoal, setDefault]
  split_ifs
  · rfl
  · exact roleIn_put payload h _
  · rfl

/-- CREATE: the role that the client sends or, if it sends none, that of the principal. -/
theorem roleIn_prepareTaskRequest {g : Api} {p : AuthPrincipal} {r : CreateTask} {payload : Fields}
    (h : prepareTaskRequest g p r = some payload) :
    roleIn payload = some ((roleIn r.inputPayload).getD (.str p.role)) := by
  obtain ⟨clean, hclean, h⟩ := Option.bind_eq_some_iff.1 h
  have hrole : roleIn (setDefault clean "user_role" (.str p.role)) =
      some ((roleIn r.inputPayload).getD (.str p.role)) := by
    rw [roleIn_setDefault, roleIn_sanitize (by decide) hclean]
    cases roleIn r.inputPayload <;> rfl
  dsimp only at h
  split_ifs at h
  · cases h
    exact hrole
  · obtain ⟨entries, -, h⟩ := Option.bind_eq_some_iff.1 h
    cases h
    rw [roleIn_setAmong (by decide), List.foldl_cons, List.foldl_cons, List.foldl_nil,
      roleIn_skillGoal _ _ (by decide), roleIn_skillGoal _ _ (by decide), hrole]

/-- The role that a request gives its turn. -/
def givenRole (p : AuthPrincipal) (row : Option Stored) : Request → Option PyVal
  | .createTask r => some ((roleIn r.inputPayload).getD (.str p.role))
  | .message _ _ => row.bind fun stored => roleIn stored.state.inputPayload

theorem roleIn_startTurn {g : Api} {p : AuthPrincipal} {row : Option Stored} {r : Request} {t : Stored}
    (h : startTurn g p row r = some t) : roleIn t.state.inputPayload = givenRole p row r := by
  cases r with
  | createTask r =>
    obtain ⟨payload, hpayload, rfl⟩ := Option.map_eq_some_iff.1 h
    obtain ⟨old, -, hturn⟩ := roleIn_prepareTurn g row (if r.userId = [] then p.userId else r.userId)
      r.newSession payload
    rw [hturn, roleIn_prepareTaskRequest hpayload]
    exact Option.some_or
  | message m event =>
    rw [startTurn, streamMessage.eq_def] at h
    split_ifs at h
    cases row with
    | some row => exact roleIn_handleStored h
    | none =>
      cases h
      exact roleIn_handleNewTask g p m

end AgentLangraph.Access
