import AgentLangraph.Lib.PyTree

/-! Structured checkpoints (`structured_checkpoint.py`, `state_field_access.py`): six layers of a
    task's state are captured into one dictionary, which the state carries in its payload and in its
    interrupt context, and restored from it when the task resumes.

    A state is what `merge_state` returns: validated, without the legacy containers. `none` is an
    exception: a value of another shape does not pass the validation. -/

namespace AgentLangraph.Checkpoint
open PyText PyTree

/-- A plan graph whose `meta` is a dictionary, if it is anything. -/
@[ext] structure PlanGraph where
  fields : PyRecord
  meta_dict : ((dict fields.entries).get "meta").truthy → ((dict fields.entries).get "meta").isDict

/-- The channels of `AgentState` a checkpoint is about. -/
structure AgentState where
  taskId : Text
  executionVersion : Option ℤ := some 1
  planGraph : Option PlanGraph := none
  toolResults : Option (List PyRecord) := none
  reasoningResult : Option PyRecord := none
  finalAnswer : Option Text := none
  retrievedKnowledge : Option (List PyRecord) := none
  evidencePackets : Option (List PyRecord) := none
  observation : Option PyRecord := none
  observations : Option (List PyRecord) := none
  backgroundStatus : Option PyRecord := none
  interruptContext : Option PyRecord := none
  inputPayload : PyRecord := PyDict.empty

/-- The settings, and what the code takes from the libraries. -/
structure Surroundings where
  /-- `checkpoint_ttl_seconds()`. -/
  ttlSeconds : ℤ := 604800
  /-- `datetime.fromisoformat`: `none` raises, `some none` is a time without an offset, and a time
      with one is an instant in microseconds. -/
  fromisoformat : Text → Option (Option ℤ)
  /-- `str` of a container. -/
  repr : PyTree → Text
  /-- `str` of the quotient of two counts. -/
  ratio : ℕ → ℕ → Text
  /-- The validation of an integer field. -/
  int? : PyTree → Option ℤ
  int?_int : ∀ n, int? (leaf (.int n)) = some n
  /-- `apply_checkpoint_to_resume_state`, for a task without a structured checkpoint. -/
  resumeLegacy : AgentState → Option AgentState

/-! ### The channels as values -/

def planTree (g : Option PlanGraph) : PyTree := ofRecord (g.map PlanGraph.fields)

def versionTree : Option ℤ → PyTree
  | none => nil
  | some n => leaf (.int n)

def textTree : Option Text → PyTree
  | none => nil
  | some t => leaf (.str t)

/-- The validation of a plan graph, and the look at its `meta`. -/
def toPlanGraph? : PyTree → Option (Option PlanGraph)
  | leaf .none => some none
  | dict es =>
    let d : PyRecord := PyDict.ofList es
    if h : ((dict d.entries).get "meta").truthy → ((dict d.entries).get "meta").isDict then
      some (some ⟨d, h⟩)
    else none
  | _ => none

theorem toPlanGraph?_planTree (g : Option PlanGraph) : toPlanGraph? (planTree g) = some g := by
  cases g with
  | none => rfl
  | some g =>
    have hrebuilt : PyDict.ofList g.fields.entries = g.fields := PyDict.ofList_entries g.fields
    change (if h : ((dict (PyDict.ofList g.fields.entries).entries).get "meta").truthy →
        ((dict (PyDict.ofList g.fields.entries).entries).get "meta").isDict then
      some (some (PlanGraph.mk (PyDict.ofList g.fields.entries) h)) else none) = some (some g)
    rw [dif_pos (by rw [hrebuilt]; exact g.meta_dict)]
    exact congrArg (fun e => some (some e)) (PlanGraph.ext hrebuilt)

/-! ### Progress -/

/-- `(state.get("background_status") or {}).get("progress")`. -/
def backgroundProgress (s : AgentState) : PyTree := (ofRecord s.backgroundStatus).get "progress"

/-- `plan_graph.meta.progress`. -/
def planProgress (g : Option PlanGraph) : PyTree := ((planTree g).get "meta").get "progress"

def progressFromState (s : AgentState) : PyTree :=
  if (backgroundProgress s).isDict then backgroundProgress s
  else if (planProgress s.planGraph).isDict then planProgress s.planGraph
  else nil

/-- `dict(v or {})` of a record. -/
def recordOr (d : Option PyRecord) : PyRecord := d.getD PyDict.empty

/-- `d[key] = v`. -/
def put (d : PyRecord) (key : String) (v : PyTree) : PyRecord := d.set key.toList v

theorem get_put_self (d : PyRecord) (key : String) (v : PyTree) :
    (dict (put d key v).entries).get key = v :=
  congrArg (fun o => o.getD nil) (PyDict.get?_set_self d key.toList v)

theorem get_put_ne (d : PyRecord) {key key' : String} (h : key ≠ key') (v : PyTree) :
    (dict (put d key v).entries).get key' = (dict d.entries).get key' :=
  congrArg (fun o => o.getD nil)
    (PyDict.get?_set_ne d (fun he => h (String.toList_inj.1 he)) v)

/-- The plan graph a progress is written to: `{"nodes": []}` where there is none. -/
def planFields (g : Option PlanGraph) : PyRecord :=
  match g with
  | some g => if g.fields.entries.isEmpty then put PyDict.empty "nodes" (list []) else g.fields
  | none => put PyDict.empty "nodes" (list [])

/-- `dict(v or {})` of a dictionary. -/
def dictOr : PyTree → PyRecord
  | dict es => PyDict.ofList es
  | _ => PyDict.empty

/-- `set_progress_on_state`. -/
def setProgressOnState (s : AgentState) (progress : PyTree) : AgentState :=
  let planMeta := put (dictOr ((dict (planFields s.planGraph).entries).get "meta")) "progress" progress
  { s with
    backgroundStatus := some (put (recordOr s.backgroundStatus) "progress" progress)
    planGraph := some ⟨put (planFields s.planGraph) "meta" (dict planMeta.entries), fun _ => by
      rw [get_put_self]
      rfl⟩ }

/-- Progress that was written is read back. -/
theorem progressFromState_set (s : AgentState) {progress : PyTree} (h : progress.isDict) :
    progressFromState (setProgressOnState s progress) = progress := by
  have hback : backgroundProgress (setProgressOnState s progress) = progress :=
    get_put_self (recordOr s.backgroundStatus) "progress" progress
  rw [progressFromState, hback, if_pos h]

theorem progressFromState_of_not {s : AgentState} (h : ¬ (progressFromState s).isDict) :
    ¬ (backgroundProgress s).isDict ∧ ¬ (planProgress s.planGraph).isDict ∧
      progressFromState s = nil := by
  by_cases hback : (backgroundProgress s).isDict
  · rw [progressFromState, if_pos hback] at h
    exact absurd hback h
  · by_cases hplan : (planProgress s.planGraph).isDict
    · rw [progressFromState, if_neg hback, if_pos hplan] at h
      exact absurd hplan h
    · exact ⟨hback, hplan, by rw [progressFromState, if_neg hback, if_neg hplan]⟩

/-! ### Interrupt context -/

def emptyInterruptContext : PyRecord := PyDict.ofList
  [entry "pause_requested" (leaf (.bool false)),
    entry "cancel_requested" (leaf (.bool false)),
    entry "last_control_event" nil,
    entry "active_step" nil,
    entry "last_committed_step" nil,
    entry "resume_from_checkpoint" nil,
    entry "control_state" (leaf (.str "IDLE".toList)),
    entry "foreground_epoch" (leaf (.int 0)),
    entry "worker_controls" (dict [])]

def ensureInterruptContext (s : AgentState) : PyRecord :=
  emptyInterruptContext.update (recordOr s.interruptContext)

/-! ### Saving -/

/-- `f"{state.get('task_id')}:{state.get('execution_version') or 1}"`. -/
def checkpointRef (s : AgentState) : Text :=
  s.taskId ++ ":".toList ++ (((s.executionVersion.elim PyVal.none PyVal.int).orElse (.int 1)).toText)

/-- `build_structured_checkpoint`, at the time `now`. -/
def buildStructuredCheckpoint (cfg : Surroundings) (now : Text) (s : AgentState) : PyTree := dict
  [entry "checkpoint_ref" (leaf (.str (checkpointRef s))),
    entry "created_at" (leaf (.str now)),
    entry "ttl_seconds" (leaf (.int cfg.ttlSeconds)),
    entry "execution_version" (versionTree s.executionVersion),
    entry "working_memory" (dict
      [entry "progress" (progressFromState s), entry "plan_graph" (planTree s.planGraph)]),
    entry "plan_graph" (planTree s.planGraph),
    entry "completed_actions" (ofRecords s.toolResults),
    entry "draft" (dict
      [entry "reasoning_result" (ofRecord s.reasoningResult),
        entry "final_answer" (textTree s.finalAnswer)]),
    entry "retrieval_cache" (dict
      [entry "retrieved_knowledge" (ofRecords s.retrievedKnowledge),
        entry "evidence_packets" (ofRecords s.evidencePackets)]),
    entry "tool_observations" ((ofRecords s.observations).orElse (ofRecord s.observation)),
    entry "interrupt_context" (dict (ensureInterruptContext s).entries)]

/-- `save_checkpoint_on_state`. -/
def saveCheckpointOnState (cfg : Surroundings) (now : Text) (s : AgentState) : AgentState :=
  let checkpoint := buildStructuredCheckpoint cfg now s
  let committed := dict
    [entry "checkpoint_ref" (checkpoint.get "checkpoint_ref"), entry "at" (checkpoint.get "created_at")]
  let ctx := put (put (ensureInterruptContext s) "last_committed_step" committed)
    "resume_from_checkpoint" checkpoint
  { s with
    interruptContext := some ctx
    inputPayload := s.inputPayload.update (put s.inputPayload "structured_checkpoint" checkpoint) }

/-! ### Restoring -/

/-- `str(v)`. -/
def strOf (cfg : Surroundings) : PyTree → Text
  | leaf v => v.toText
  | v => cfg.repr v

/-- `is_checkpoint_expired`; it raises where the time has no offset. -/
def isCheckpointExpired (cfg : Surroundings) (now : ℤ) (checkpoint : PyTree) : Option Bool :=
  let createdRaw := strOf cfg ((checkpoint.get "created_at").orElse (leaf (.str [])))
  if createdRaw = [] then some true
  else
    match cfg.fromisoformat (createdRaw.flatMap fun c => if c = 'Z' then "+00:00".toList else [c]) with
    | none => some true
    | some none => none
    | some (some created) => some (decide (now - created > 1000000 * cfg.ttlSeconds))

/-- `(v or {}).get(key)`, which raises where `v` is something else. -/
def getOr? (v : PyTree) (key : String) : Option PyTree :=
  if (v.orElse (dict [])).isDict then some ((v.orElse (dict [])).get key) else none

/-- `merge_state(state, observation=value)`: two dictionaries are merged key by key. -/
def mergeObservation : Option PyRecord → Option PyRecord → Option PyRecord
  | some current, some value => some (current.update value)
  | _, value => value

/-- The version of the checkpoint, unless it is `None`. -/
def restoredVersion (cfg : Surroundings) (v : PyTree) (current : Option ℤ) : Option (Option ℤ) :=
  match v with
  | leaf .none => some current
  | v => (cfg.int? v).map some

/-- The reasoning of the checkpoint, if it is true. -/
def restoredReasoning (v : PyTree) (current : Option PyRecord) : Option (Option PyRecord) :=
  if v.truthy then toRecord? v else some current

/-- The layers of a checkpoint in the place of the state's own. -/
def applyLayers (cfg : Surroundings) (checkpoint : PyTree) (s : AgentState) : Option AgentState := do
  let wm := (checkpoint.get "working_memory").orEmpty
  let draft := (checkpoint.get "draft").orEmpty
  let planGraph ← toPlanGraph? ((checkpoint.get "plan_graph").orElse (planTree s.planGraph))
  let toolResults ←
    toRecords? ((checkpoint.get "completed_actions").orElse (ofRecords s.toolResults))
  let retrievedKnowledge ←
    (getOr? (checkpoint.get "retrieval_cache") "retrieved_knowledge").bind toRecords?
  let evidencePackets ←
    (getOr? (checkpoint.get "retrieval_cache") "evidence_packets").bind toRecords?
  let observation ←
    toRecord? ((checkpoint.get "tool_observations").orElse (ofRecord s.observation))
  let executionVersion ←
    restoredVersion cfg (checkpoint.get "execution_version") s.executionVersion
  let reasoningResult ← restoredReasoning (draft.get "reasoning_result") s.reasoningResult
  some { s with
    interruptContext := some (put (ensureInterruptContext s) "resume_from_checkpoint" checkpoint)
    planGraph := planGraph
    toolResults := toolResults
    retrievedKnowledge := retrievedKnowledge
    evidencePackets := evidencePackets
    observation := mergeObservation s.observation observation
    backgroundStatus :=
      if (wm.get "progress").isDict then
        some (put (recordOr s.backgroundStatus) "progress" (wm.get "progress"))
      else s.backgroundStatus
    executionVersion := executionVersion
    reasoningResult := reasoningResult }

/-- `row.get("restored")`, true or not. -/
def rowRestored? : PyTree → Option Bool
  | dict es => some ((dict es).get "restored").truthy
  | _ => none

/-- `checkpoint_recovery_metrics`. -/
def checkpointRecoveryMetrics (cfg : Surroundings) (results : List PyTree) : Option PyTree :=
  (results.mapM rowRestored?).map fun flags => dict
    [entry "attempts" (leaf (.int results.length)),
      entry "successes" (leaf (.int (flags.count true))),
      entry "success_rate" (leaf (.other
        (if results.isEmpty then "1.0".toList else cfg.ratio (flags.count true) results.length)
        (results.isEmpty || flags.count true != 0)))]

/-- `list(bg.get("checkpoint_recovery_history") or [])`. -/
def recoveryHistory (bg : PyRecord) : Option (List PyTree) :=
  (((dict bg.entries).get "checkpoint_recovery_history").orElse (list [])).toList?

/-- The attempt in the background status of the state it came to. -/
def recordRecovery (cfg : Surroundings) (restored : Bool) (reason : Text) (s : AgentState) :
    Option AgentState := do
  let bg := recordOr s.backgroundStatus
  let history ← recoveryHistory bg
  let metrics ← checkpointRecoveryMetrics cfg (history ++
    [dict [entry "restored" (leaf (.bool restored)), entry "reason" (leaf (.str reason))]])
  some { s with backgroundStatus := some (put bg "checkpoint_recovery" metrics) }

/-- `restore_from_structured_checkpoint`, at the instant `now`. -/
def restoreFromStructuredCheckpoint (cfg : Surroundings) (now : ℤ) (s : AgentState) :
    Option AgentState :=
  let checkpoint := (dict s.inputPayload.entries).get "structured_checkpoint"
  if checkpoint.isDict then do
    let expired ← isCheckpointExpired cfg now checkpoint
    if expired then
      let payload := s.inputPayload.erase "structured_checkpoint".toList
      recordRecovery cfg false "expired".toList
        { s with inputPayload := s.inputPayload.update payload }
    else (applyLayers cfg checkpoint s).bind (recordRecovery cfg true "structured".toList)
  else (cfg.resumeLegacy s).bind (recordRecovery cfg true "legacy_fallback".toList)

end AgentLangraph.Checkpoint
