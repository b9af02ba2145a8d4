import AgentLangraph.Checkpoint.Structured

/-! What a task gets back from the checkpoint it saved, and what the checkpoints of a task hold of
    each other.

        restored layer = saved value, if it is true;  else the value of the resuming state

    so an empty or absent layer comes back only where the resuming state has it empty or absent too.
    The interrupt context is saved as it is, and a save or a restore leaves the checkpoint in it. -/

namespace AgentLangraph.Checkpoint
open PyText PyTree

/-! ### What the saved checkpoint answers -/

section Lookups

variable (cfg : Surroundings) (now : Text) (s : AgentState)

theorem saved_isDict : (buildStructuredCheckpoint cfg now s).isDict := rfl

theorem saved_version : (buildStructuredCheckpoint cfg now s).get "execution_version" =
    versionTree s.executionVersion := by
  simp [buildStructuredCheckpoint, get_entry]

theorem saved_memory : (buildStructuredCheckpoint cfg now s).get "working_memory" = dict
    [entry "progress" (progressFromState s), entry "plan_graph" (planTree s.planGraph)] := by
  simp [buildStructuredCheckpoint, get_entry]

theorem saved_plan : (buildStructuredCheckpoint cfg now s).get "plan_graph" =
    planTree s.planGraph := by
  simp [buildStructuredCheckpoint, get_entry]

theorem saved_actions : (buildStructuredCheckpoint cfg now s).get "completed_actions" =
    ofRecords s.toolResults := by
  simp [buildStructuredCheckpoint, get_entry]

theorem saved_draft : (buildStructuredCheckpoint cfg now s).get "draft" = dict
    [entry "reasoning_result" (ofRecord s.reasoningResult),
      entry "final_answer" (textTree s.finalAnswer)] := by
  simp [buildStructuredCheckpoint, get_entry]

theorem saved_cache : (buildStructuredCheckpoint cfg now s).get "retrieval_cache" = dict
    [entry "retrieved_knowledge" (ofRecords s.retrievedKnowledge),
      entry "evidence_packets" (ofRecords s.evidencePackets)] := by
  simp [buildStructuredCheckpoint, get_entry]

theorem saved_observations : (buildStructuredCheckpoint cfg now s).get "tool_observations" =
    (ofRecords s.observations).orElse (ofRecord s.observation) := by
  simp [buildStructuredCheckpoint, get_entry]

end Lookups

/-! ### What a resume puts together -/

/-- A validation reads `a or b` back, whichever of the two it is. -/
theorem valid_orElse {α : Type*} {valid : PyTree → Option α} {tree : α → PyTree}
    (h : ∀ a, valid (tree a) = some a) (a b : α) :
    valid ((tree a).orElse (tree b)) = some (if (tree a).truthy then a else b) := by
  by_cases ha : (tree a).truthy
  · rw [orElse_of_truthy ha, h, if_pos ha]
  · rw [orElse_of_not ha, h, if_neg ha]

/-- The observation a resume writes: the list of observations does not pass for one. -/
def resumedObservation (s s' : AgentState) : Option (Option PyRecord) :=
  if (ofRecords s.observations).truthy then none
  else some (if (ofRecord s.observation).truthy then s.observation else s'.observation)

/-- The state `s'` with the layers saved from `s`. -/
def resumed (checkpoint : PyTree) (s s' : AgentState) (observation : Option PyRecord) :
    AgentState := { s' with
  interruptContext := some (put (ensureInterruptContext s') "resume_from_checkpoint" checkpoint)
  planGraph := if (planTree s.planGraph).truthy then s.planGraph else s'.planGraph
  toolResults := if (ofRecords s.toolResults).truthy then s.toolResults else s'.toolResults
  retrievedKnowledge := s.retrievedKnowledge
  evidencePackets := s.evidencePackets
  observation := mergeObservation s'.observation observation
  backgroundStatus :=
    if (progressFromState s).isDict then
      some (put (recordOr s'.backgroundStatus) "progress" (progressFromState s))
    else s'.backgroundStatus
  executionVersion := s.executionVersion.or s'.executionVersion
  reasoningResult :=
    if (ofRecord s.reasoningResult).truthy then s.reasoningResult else s'.reasoningResult }

theorem observation_valid (s s' : AgentState) :
    toRecord? (((ofRecords s.observations).orElse (ofRecord s.observation)).orElse
      (ofRecord s'.observation)) = resumedObservation s s' := by
  rw [resumedObservation]
  by_cases h : (ofRecords s.observations).truthy
  · rw [orElse_of_truthy h, orElse_of_truthy h, toRecord?_ofRecords h, if_pos h]
  · rw [orElse_of_not h, if_neg h]
    exact valid_orElse toRecord?_ofRecord s.observation s'.observation

theorem version_valid (cfg : Surroundings) (s s' : AgentState) :
    restoredVersion cfg (versionTree s.executionVersion) s'.executionVersion =
      some (s.executionVersion.or s'.executionVersion) := by
  cases s.executionVersion with
  | none => rfl
  | some n => exact congrArg (fun o => Option.map some o) (cfg.int?_int n)

theorem reasoning_valid (s s' : AgentState) :
    restoredReasoning (ofRecord s.reasoningResult) s'.reasoningResult =
      some (if (ofRecord s.reasoningResult).truthy then s.reasoningResult
        else s'.reasoningResult) := by
  rw [restoredReasoning]
  split_ifs
  · exact toRecord?_ofRecord s.reasoningResult
  · rfl

theorem getOr?_dict (es : List (Text × PyTree)) (key : String) :
    getOr? (dict es) key = some ((dict es).get key) := by
  cases es <;> rfl

theorem orEmpty_dict (es : List (Text × PyTree)) : (dict es).orEmpty = dict es := rfl

/-- Of the layers of a saved checkpoint only the observations can fail the validation. -/
theorem applyLayers_saved (cfg : Surroundings) (now : Text) (s s' : AgentState) :
    applyLayers cfg (buildStructuredCheckpoint cfg now s) s' =
      (resumedObservation s s').map (resumed (buildStructuredCheckpoint cfg now s) s s') := by
  have hplan := valid_orElse toPlanGraph?_planTree s.planGraph s'.planGraph
  have hresults := valid_orElse toRecords?_ofRecords s.toolResults s'.toolResults
  have hknowledge := toRecords?_ofRecords s.retrievedKnowledge
  have hevidence := toRecords?_ofRecords s.evidencePackets
  have hversion := version_valid cfg s s'
  have hreasoning := reasoning_valid s s'
  simp only [applyLayers, saved_memory, saved_draft, saved_plan, saved_actions, saved_cache,
    saved_observations, saved_version, getOr?_dict, orEmpty_dict, get_entry, String.reduceEq,
    if_true, if_false, Option.bind_eq_bind, Option.bind_some, hplan, hresults, hknowledge,
    hevidence, observation_valid, hversion, hreasoning]
  cases resumedObservation s s' with
  | none => rfl
  | some observation => rfl

/-! ### The record of the attempt -/

/-- The earlier attempts are rows that can be counted. -/
def HistoryReadable (bg : Option PyRecord) : Prop :=
  ∃ rows flags, recoveryHistory (recordOr bg) = some rows ∧ rows.mapM rowRestored? = some flags

theorem recordRecovery_some {cfg : Surroundings} {restored : Bool} {reason : Text}
    {s r : AgentState} (h : recordRecovery cfg restored reason s = some r) :
    HistoryReadable s.backgroundStatus ∧ ∃ metrics, r = { s with
      backgroundStatus := some (put (recordOr s.backgroundStatus) "checkpoint_recovery" metrics) } := by
  rw [recordRecovery] at h
  obtain ⟨rows, hrows, h⟩ := Option.bind_eq_some_iff.1 h
  obtain ⟨metrics, hmetrics, h⟩ := Option.bind_eq_some_iff.1 h
  obtain ⟨flags, hflags, -⟩ := Option.map_eq_some_iff.1 hmetrics
  rw [List.mapM_append] at hflags
  obtain ⟨before, hbefore, -⟩ := Option.bind_eq_some_iff.1 hflags
  exact ⟨⟨rows, before, hrows, hbefore⟩, metrics, (Option.some.inj h).symm⟩

theorem recordRecovery_isSome {s : AgentState} (h : HistoryReadable s.backgroundStatus)
    (cfg : Surroundings) (restored : Bool) (reason : Text) :
    ∃ r, recordRecovery cfg restored reason s = some r := by
  obtain ⟨rows, flags, hrows, hflags⟩ := h
  have hlast : [dict [entry "restored" (leaf (.bool restored)),
      entry "reason" (leaf (.str reason))]].mapM rowRestored? = some [restored] := by
    rw [List.mapM_cons, rowRestored?, get_entry, if_pos rfl]
    rfl
  have hall : (rows ++ [dict [entry "restored" (leaf (.bool restored)),
      entry "reason" (leaf (.str reason))]]).mapM rowRestored? = some (flags ++ [restored]) := by
    rw [List.mapM_append, hflags, hlast]
    rfl
  exact ⟨_, Option.bind_eq_some_iff.2 ⟨rows, hrows,
    Option.bind_eq_some_iff.2 ⟨_, congrArg (Option.map _) hall, rfl⟩⟩⟩

/-- Writing the progress does not touch the record of the attempts. -/
theorem historyReadable_put (bg : Option PyRecord) (v : PyTree) :
    HistoryReadable (some (put (recordOr bg) "progress" v)) ↔ HistoryReadable bg := by
  have hsame : recoveryHistory (recordOr (some (put (recordOr bg) "progress" v))) =
      recoveryHistory (recordOr bg) :=
    congrArg (fun h => (PyTree.orElse h (list [])).toList?) (get_put_ne _ (by decide) v)
  rw [HistoryReadable, HistoryReadable, hsame]

/-! ### The round trip -/

/-- `==` of two records: the order of the keys does not count. -/
def SameRecord (d e : Option PyRecord) : Prop := d.map PyDict.get? = e.map PyDict.get?

/-- `r` has the layers of `s`. -/
structure Agrees (r s : AgentState) : Prop where
  planGraph : r.planGraph = s.planGraph
  progress : progressFromState r = progressFromState s
  toolResults : r.toolResults = s.toolResults
  retrievedKnowledge : r.retrievedKnowledge = s.retrievedKnowledge
  evidencePackets : r.evidencePackets = s.evidencePackets
  observation : SameRecord r.observation s.observation
  observations : r.observations = s.observations
  reasoningResult : r.reasoningResult = s.reasoningResult
  executionVersion : r.executionVersion = s.executionVersion

/-- Every layer that is empty or absent in the saved state `s` is so in the resuming state `s'`,
    which has no observations of its own and whose record of attempts can be read. -/
structure Recoverable (s s' : AgentState) : Prop where
  planGraph : (planTree s.planGraph).truthy ∨ s'.planGraph = s.planGraph
  progress : (progressFromState s).isDict ∨ ¬ (backgroundProgress s').isDict
  toolResults : (ofRecords s.toolResults).truthy ∨ s'.toolResults = s.toolResults
  noObservations : ¬ (ofRecords s.observations).truthy
  observations : s'.observations = s.observations
  observation : if (ofRecord s.observation).truthy then
      ∀ k, (recordOr s'.observation).get? k ≠ none → (recordOr s.observation).get? k ≠ none
    else SameRecord s'.observation s.observation
  reasoningResult : (ofRecord s.reasoningResult).truthy ∨ s'.reasoningResult = s.reasoningResult
  executionVersion : s.executionVersion ≠ none ∨ s'.executionVersion = none
  history : HistoryReadable s'.backgroundStatus

theorem ite_eq_left_or {α : Type*} {p : Prop} [Decidable p] {a b : α} :
    (if p then a else b) = a ↔ p ∨ b = a := by
  rw [ite_eq_left_iff, or_iff_not_imp_left]

theorem or_eq_left_iff {α : Type*} {a b : Option α} : a.or b = a ↔ a ≠ none ∨ b = none := by
  cases a with
  | none => simp
  | some a => simp

/-- Keys of the resuming state stay in the merged observation. -/
theorem sameRecord_update_iff (d e : PyRecord) :
    SameRecord (some (e.update d)) (some d) ↔ ∀ k, e.get? k ≠ none → d.get? k ≠ none := by
  rw [SameRecord, Option.map_some, Option.map_some, Option.some_inj, funext_iff]
  refine forall_congr' fun k => ?_
  rw [PyDict.get?_update, or_eq_left_iff]
  tauto

theorem sameRecord_update_self (d : PyRecord) : SameRecord (some (d.update d)) (some d) :=
  (sameRecord_update_iff d d).2 fun _ h => h

/-- The observation that is restored is the saved one in this case only. -/
theorem merged_same_iff (s s' : AgentState) :
    SameRecord (mergeObservation s'.observation
        (if (ofRecord s.observation).truthy then s.observation else s'.observation)) s.observation ↔
      if (ofRecord s.observation).truthy then
        ∀ k, (recordOr s'.observation).get? k ≠ none → (recordOr s.observation).get? k ≠ none
      else SameRecord s'.observation s.observation := by
  split_ifs with h
  · obtain ⟨d, hd⟩ : ∃ d, s.observation = some d := by
      cases hs : s.observation with
      | none => rw [hs] at h; exact absurd h Bool.false_ne_true
      | some d => exact ⟨d, rfl⟩
    rw [hd]
    cases s'.observation with
    | none => exact iff_of_true rfl fun k hk => absurd rfl hk
    | some e => exact sameRecord_update_iff d e
  · cases s'.observation with
    | none => exact Iff.rfl
    | some e =>
      have hself := sameRecord_update_self e
      rw [SameRecord] at hself
      change SameRecord (some (e.update e)) s.observation ↔ _
      rw [SameRecord, SameRecord, hself]

theorem resumed_background (checkpoint : PyTree) (s s' : AgentState)
    (observation : Option PyRecord) :
    backgroundProgress (resumed checkpoint s s' observation) =
      if (progressFromState s).isDict then progressFromState s else backgroundProgress s' := by
  change (ofRecord (if (progressFromState s).isDict then
    some (put (recordOr s'.backgroundStatus) "progress" (progressFromState s))
    else s'.backgroundStatus)).get "progress" = _
  split_ifs
  · exact get_put_self _ _ _
  · rfl

/-- Given the plan graph, the progress comes back unless the resuming state has one of its own. -/
theorem resumed_progress_iff {checkpoint : PyTree} {s s' : AgentState}
    {observation : Option PyRecord}
    (hplan : (resumed checkpoint s s' observation).planGraph = s.planGraph) :
    progressFromState (resumed checkpoint s s' observation) = progressFromState s ↔
      (progressFromState s).isDict ∨ ¬ (backgroundProgress s').isDict := by
  have hback := resumed_background checkpoint s s' observation
  by_cases h : (progressFromState s).isDict
  · rw [if_pos h] at hback
    refine iff_of_true ?_ (Or.inl h)
    rw [progressFromState, hback, if_pos h]
  · obtain ⟨-, hplanProgress, hnil⟩ := progressFromState_of_not h
    rw [if_neg h] at hback
    rw [or_iff_right h, hnil, progressFromState, hback, hplan, if_neg hplanProgress]
    by_cases hown : (backgroundProgress s').isDict
    · rw [if_pos hown]
      refine iff_of_false (fun heq => ?_) (not_not_intro hown)
      rw [heq] at hown
      exact absurd hown Bool.false_ne_true
    · rw [if_neg hown]
      exact iff_of_true rfl hown

/-- What is put together from the checkpoint agrees with the saved state in this case only. -/
theorem resumed_agrees_iff {checkpoint : PyTree} {s s' : AgentState} {observation : Option PyRecord}
    (hobs : resumedObservation s s' = some observation)
    (hhistory : HistoryReadable s'.backgroundStatus) :
    Agrees (resumed checkpoint s s' observation) s ↔ Recoverable s s' := by
  have hno : ¬ (ofRecords s.observations).truthy := by
    intro h
    rw [resumedObservation, if_pos h] at hobs
    cases hobs
  rw [resumedObservation, if_neg hno, Option.some_inj] at hobs
  have hmerged := merged_same_iff s s'
  rw [hobs] at hmerged
  constructor
  · intro h
    exact {
      planGraph := ite_eq_left_or.1 h.planGraph
      progress := (resumed_progress_iff h.planGraph).1 h.progress
      toolResults := ite_eq_left_or.1 h.toolResults
      noObservations := hno
      observations := h.observations
      observation := hmerged.1 h.observation
      reasoningResult := ite_eq_left_or.1 h.reasoningResult
      executionVersion := or_eq_left_iff.1 h.executionVersion
      history := hhistory }
  · intro h
    have hplan : (resumed checkpoint s s' observation).planGraph = s.planGraph :=
      ite_eq_left_or.2 h.planGraph
    exact {
      planGraph := hplan
      progress := (resumed_progress_iff hplan).2 h.progress
      toolResults := ite_eq_left_or.2 h.toolResults
      retrievedKnowledge := rfl
      evidencePackets := rfl
      observation := hmerged.2 h.observation
      observations := h.observations
      reasoningResult := ite_eq_left_or.2 h.reasoningResult
      executionVersion := or_eq_left_iff.2 h.executionVersion }

/-- The record of the attempt is not one of the layers. -/
theorem agrees_recorded_iff (r s : AgentState) (metrics : PyTree) :
    Agrees { r with
      backgroundStatus := some (put (recordOr r.backgroundStatus) "checkpoint_recovery" metrics) } s ↔
      Agrees r s := by
  have hback : backgroundProgress { r with
      backgroundStatus := some (put (recordOr r.backgroundStatus) "checkpoint_recovery" metrics) } =
      backgroundProgress r := by
    rw [backgroundProgress, backgroundProgress]
    refine (get_put_ne _ (by decide) metrics).trans ?_
    cases r.backgroundStatus <;> rfl
  have hprogress : progressFromState { r with
      backgroundStatus := some (put (recordOr r.backgroundStatus) "checkpoint_recovery" metrics) } =
      progressFromState r := by
    rw [progressFromState, progressFromState, hback]
  constructor
  · intro h
    exact { h with progress := hprogress.symm.trans h.progress }
  · intro h
    exact { h with progress := hprogress.trans h.progress }

/-- `s'` still carries the checkpoint that was saved from `s`. -/
def Carries (cfg : Surroundings) (saved : Text) (s s' : AgentState) : Prop :=
  s'.inputPayload.get? "structured_checkpoint".toList = some (buildStructuredCheckpoint cfg saved s)

/-- A save leaves the checkpoint in the payload. -/
theorem carries_save (cfg : Surroundings) (saved : Text) (s : AgentState) :
    Carries cfg saved s (saveCheckpointOnState cfg saved s) := by
  rw [Carries, saveCheckpointOnState, PyDict.get?_update, put, PyDict.get?_set_self]
  rfl

theorem restore_carried {cfg : Surroundings} {saved : Text} {now : ℤ} {s s' : AgentState}
    (hcarries : Carries cfg saved s s')
    (hfresh : isCheckpointExpired cfg now (buildStructuredCheckpoint cfg saved s) = some false) :
    restoreFromStructuredCheckpoint cfg now s' =
      ((resumedObservation s s').map (resumed (buildStructuredCheckpoint cfg saved s) s s')).bind
        (recordRecovery cfg true "structured".toList) := by
  have hget : (dict s'.inputPayload.entries).get "structured_checkpoint" =
      buildStructuredCheckpoint cfg saved s :=
    congrArg (fun o => o.getD nil) hcarries
  rw [restoreFromStructuredCheckpoint, hget, ← applyLayers_saved]
  simp only [saved_isDict, hfresh, Option.bind_eq_bind, Option.bind_some, if_true,
    Bool.false_eq_true, if_false]

theorem historyReadable_resumed (checkpoint : PyTree) (s s' : AgentState)
    (observation : Option PyRecord) :
    HistoryReadable (resumed checkpoint s s' observation).backgroundStatus ↔
      HistoryReadable s'.backgroundStatus := by
  change HistoryReadable (if (progressFromState s).isDict then
    some (put (recordOr s'.backgroundStatus) "progress" (progressFromState s))
    else s'.backgroundStatus) ↔ _
  split_ifs
  · exact historyReadable_put s'.backgroundStatus (progressFromState s)
  · exact Iff.rfl

theorem restores_iff {cfg : Surroundings} {saved : Text} {now : ℤ} {s s' : AgentState}
    (hcarries : Carries cfg saved s s')
    (hfresh : isCheckpointExpired cfg now (buildStructuredCheckpoint cfg saved s) = some false) :
    (∃ r, restoreFromStructuredCheckpoint cfg now s' = some r ∧ Agrees r s) ↔ Recoverable s s' := by
  rw [restore_carried hcarries hfresh]
  constructor
  · rintro ⟨r, hr, hagrees⟩
    obtain ⟨r', hr', hrecord⟩ := Option.bind_eq_some_iff.1 hr
    obtain ⟨observation, hobs, rfl⟩ := Option.map_eq_some_iff.1 hr'
    obtain ⟨hhistory, metrics, rfl⟩ := recordRecovery_some hrecord
    exact (resumed_agrees_iff hobs ((historyReadable_resumed _ s s' observation).1 hhistory)).1
      ((agrees_recorded_iff _ s metrics).1 hagrees)
  · intro h
    have hobs : resumedObservation s s' =
        some (if (ofRecord s.observation).truthy then s.observation else s'.observation) :=
      if_neg h.noObservations
    obtain ⟨r, hr⟩ := recordRecovery_isSome ((historyReadable_resumed
      (buildStructuredCheckpoint cfg saved s) s s' _).2 h.history) cfg true "structured".toList
    obtain ⟨-, metrics, hshape⟩ := recordRecovery_some hr
    refine ⟨r, ?_, ?_⟩
    · rw [hobs, Option.map_some, Option.bind_some, hr]
    · rw [hshape]
      exact (agrees_recorded_iff _ s metrics).2 ((resumed_agrees_iff hobs h.history).2 h)

/-! ### Checkpoints inside checkpoints -/

/-- The layers a checkpoint takes from the state it is saved from. -/
def layers (s : AgentState) : List PyTree :=
  [progressFromState s, planTree s.planGraph, ofRecords s.toolResults, ofRecord s.reasoningResult,
    ofRecords s.retrievedKnowledge, ofRecords s.evidencePackets,
    (ofRecords s.observations).orElse (ofRecord s.observation)] ++
    (recordOr s.interruptContext).entries.map Prod.snd

/-- `c` lies somewhere in the layers of `s`. -/
def HeldBy (c : PyTree) (s : AgentState) : Prop := ∃ x ∈ layers s, c.Within x

section Saved

variable (cfg : Surroundings) (now : Text) (s : AgentState)

theorem saved_ne_leaf (v : PyVal) : buildStructuredCheckpoint cfg now s ≠ leaf v := nofun

/-- A checkpoint has eleven entries. -/
theorem saved_ne_dict {es : List (Text × PyTree)} (h : es.length ≠ 11) :
    buildStructuredCheckpoint cfg now s ≠ dict es := by
  intro heq
  exact h (congrArg List.length (PyTree.dict.inj heq).symm)

/-- An interrupt context has a key that no checkpoint has. -/
theorem saved_ne_context (t : AgentState) :
    buildStructuredCheckpoint cfg now s ≠ dict (ensureInterruptContext t).entries := by
  intro heq
  have hget := congrArg (PyDict.assocGet "pause_requested".toList) (PyTree.dict.inj heq)
  have hnone : PyDict.assocGet "pause_requested".toList (ensureInterruptContext t).entries = none := by
    rw [← hget]
    simp only [assocGet_entry, String.reduceEq, if_false]
    rfl
  have hsome : (emptyInterruptContext.get? "pause_requested".toList).isSome := by decide +kernel
  have hor := PyDict.get?_update emptyInterruptContext (recordOr t.interruptContext)
    "pause_requested".toList
  have hnone' := (Option.or_eq_none_iff.1 (hor.symm.trans hnone)).2
  rw [hnone'] at hsome
  exact absurd hsome Bool.false_ne_true

end Saved

def IsCheckpoint (c : PyTree) : Prop := ∃ cfg now s, c = buildStructuredCheckpoint cfg now s

theorem IsCheckpoint.ne_leaf {c : PyTree} (h : IsCheckpoint c) (v : PyVal) : c ≠ leaf v := by
  obtain ⟨cfg, now, s, rfl⟩ := h
  exact saved_ne_leaf cfg now s v

theorem IsCheckpoint.ne_dict {c : PyTree} (h : IsCheckpoint c) {es : List (Text × PyTree)}
    (hes : es.length ≠ 11) : c ≠ dict es := by
  obtain ⟨cfg, now, s, rfl⟩ := h
  exact saved_ne_dict cfg now s hes

/-- The defaults of an interrupt context hold no checkpoint. -/
theorem not_within_default {c : PyTree} (h : IsCheckpoint c) {e : Text × PyTree}
    (he : e ∈ emptyInterruptContext.entries) : ¬ c.Within e.2 := by
  have hempty : ¬ c.Within (dict []) := by
    rw [within_dict_iff (h.ne_dict (by decide))]
    rintro ⟨x, hx, -⟩
    cases hx
  rcases PyDict.mem_entries_foldl_set he with hnil | hdefault
  · cases hnil
  · simp only [List.mem_cons, List.not_mem_nil, or_false] at hdefault
    rcases hdefault with rfl | rfl | rfl | rfl | rfl | rfl | rfl | rfl | rfl
    all_goals first | exact hempty | exact not_within_leaf (h.ne_leaf _)

/-- A checkpoint in the interrupt context was put there. -/
theorem held_context_iff {c : PyTree} (h : IsCheckpoint c) (s : AgentState) :
    (∃ x ∈ (ensureInterruptContext s).entries.map Prod.snd, c.Within x) ↔
      ∃ x ∈ (recordOr s.interruptContext).entries.map Prod.snd, c.Within x := by
  constructor
  · rintro ⟨x, hx, hc⟩
    obtain ⟨e, he, rfl⟩ := List.mem_map.1 hx
    rcases PyDict.mem_entries_update he with hdefault | hown
    · exact absurd hc (not_within_default h hdefault)
    · exact ⟨e.2, List.mem_map_of_mem hown, hc⟩
  · rintro ⟨x, hx, hc⟩
    obtain ⟨⟨k, v⟩, he, rfl⟩ := List.mem_map.1 hx
    refine ⟨v, List.mem_map.2 ⟨(k, v), PyDict.mem_entries.2 ?_, rfl⟩, hc⟩
    rw [ensureInterruptContext, PyDict.get?_update, PyDict.mem_entries.1 he]
    rfl

/-- A checkpoint embeds an earlier one in this case only. -/
theorem embeds_iff {c : PyTree} (h : IsCheckpoint c) (cfg : Surroundings) (now : Text)
    (s : AgentState) : c.Inside (buildStructuredCheckpoint cfg now s) ↔ HeldBy c s := by
  have hleaf (a : PyVal) : ¬ c.Within (leaf a) := not_within_leaf (h.ne_leaf a)
  have hversion : ¬ c.Within (versionTree s.executionVersion) := by
    cases s.executionVersion <;> exact hleaf _
  have hanswer : ¬ c.Within (textTree s.finalAnswer) := by
    cases s.finalAnswer <;> exact hleaf _
  have hcontext : c ≠ dict (ensureInterruptContext s).entries := by
    obtain ⟨cfg', now', t, rfl⟩ := h
    exact saved_ne_context cfg' now' t s
  have hpair {a b : Text × PyTree} : c.Within (dict [a, b]) ↔ c.Within a.2 ∨ c.Within b.2 := by
    rw [within_dict_iff (h.ne_dict (by simp))]
    simp
  have hctx := (within_dict_iff hcontext).trans (held_context_iff h s)
  change (∃ x ∈ [leaf _, leaf _, leaf _, versionTree s.executionVersion, dict [_, _],
    planTree s.planGraph, ofRecords s.toolResults, dict [_, _], dict [_, _], _,
    dict (ensureInterruptContext s).entries], c.Within x) ↔ _
  simp only [List.mem_cons, List.not_mem_nil, or_false, exists_eq_left, hleaf,
    hversion, hpair, hctx, entry, hanswer, false_or, or_false, HeldBy, layers, List.mem_append,
    or_and_right, exists_or, or_assoc, or_self_left]

/-! ### A task that is checkpointed again and again -/

/-- A save of the task, or anything else that happens to its state. -/
inductive Act
  | work (next : AgentState)
  | save (now : Text)

/-- The task, and the checkpoints it has saved. -/
structure Task where
  state : AgentState
  saved : List PyTree := []

def Task.step (cfg : Surroundings) (t : Task) : Act → Task
  | .work next => { t with state := next }
  | .save now =>
    ⟨saveCheckpointOnState cfg now t.state,
      t.saved ++ [buildStructuredCheckpoint cfg now t.state]⟩

def Task.run (cfg : Surroundings) (t : Task) (acts : List Act) : Task := acts.foldl (Task.step cfg) t

/-- No checkpoint embeds one that was saved before it. -/
def Flat (saved : List PyTree) : Prop := saved.Pairwise fun earlier later => ¬ earlier.Inside later

/-- Where the task is checkpointed, none of the layers holds a checkpoint it saved before: the
    interrupt context in particular has lost the one that a save or a restore left in it. -/
def Task.CleanStep (t : Task) : Act → Prop
  | .work _ => True
  | .save _ => ∀ c ∈ t.saved, ¬ HeldBy c t.state

def Task.Clean (cfg : Surroundings) : Task → List Act → Prop
  | _, [] => True
  | t, act :: acts => t.CleanStep act ∧ (t.step cfg act).Clean cfg acts

theorem saved_step {cfg : Surroundings} {t : Task} (h : ∀ c ∈ t.saved, IsCheckpoint c) (act : Act) :
    ∀ c ∈ (t.step cfg act).saved, IsCheckpoint c := by
  intro c hc
  cases act with
  | work next => exact h c hc
  | save now =>
    rcases List.mem_append.1 hc with hc | hc
    · exact h c hc
    · exact ⟨cfg, now, t.state, List.mem_singleton.1 hc⟩

theorem flat_step {cfg : Surroundings} {t : Task} (h : ∀ c ∈ t.saved, IsCheckpoint c) (act : Act) :
    Flat (t.step cfg act).saved ↔ Flat t.saved ∧ t.CleanStep act := by
  cases act with
  | work next => exact (and_iff_left trivial).symm
  | save now =>
    change (t.saved ++ [_]).Pairwise _ ↔ _
    rw [List.pairwise_append, and_iff_right (List.pairwise_singleton _ _)]
    refine and_congr_right fun _ => forall₂_congr fun c hc => ?_
    simp only [List.mem_singleton, forall_eq]
    exact not_congr (embeds_iff (h c hc) cfg now t.state)

theorem flat_run_iff {cfg : Surroundings} : ∀ {acts : List Act} {t : Task},
    (∀ c ∈ t.saved, IsCheckpoint c) →
      (Flat (t.run cfg acts).saved ↔ Flat t.saved ∧ t.Clean cfg acts)
  | [], _, _ => (and_iff_left trivial).symm
  | act :: acts, t, h => by
      change Flat ((t.step cfg act).run cfg acts).saved ↔ _
      rw [flat_run_iff (saved_step h act), flat_step h act, and_assoc]
      rfl

/-- A save leaves the checkpoint in the interrupt context. -/
theorem held_of_context {cfg : Surroundings} {now : Text} {s s' : AgentState}
    (h : s'.interruptContext = (saveCheckpointOnState cfg now s).interruptContext) :
    HeldBy (buildStructuredCheckpoint cfg now s) s' := by
  refine ⟨buildStructuredCheckpoint cfg now s, List.mem_append_right _ ?_, Within.self⟩
  rw [h]
  exact List.mem_map.2 ⟨("resume_from_checkpoint".toList, _),
    PyDict.mem_entries.2 (PyDict.get?_set_self _ _ _), rfl⟩

/-- As long as the interrupt context stays so, the next save embeds the checkpoint and all that is
    in it: the nesting grows by one with every save. -/
theorem embeds_after_save {cfg : Surroundings} {now now' : Text} {s s' : AgentState}
    (h : s'.interruptContext = (saveCheckpointOnState cfg now s).interruptContext) {c : PyTree}
    (hc : c.Within (buildStructuredCheckpoint cfg now s)) :
    c.Inside (buildStructuredCheckpoint cfg now' s') :=
  hc.trans_inside ((embeds_iff ⟨cfg, now, s, rfl⟩ cfg now' s').2 (held_of_context h))

/-! ### The law -/

/-- A resume gives the saved layers back, and a checkpoint embeds no earlier one, in these cases
    only. -/
theorem restores_and_flat_iff (cfg : Surroundings) :
    (∀ (saved : Text) (now : ℤ) (s s' : AgentState), Carries cfg saved s s' →
      isCheckpointExpired cfg now (buildStructuredCheckpoint cfg saved s) = some false →
        ((∃ r, restoreFromStructuredCheckpoint cfg now s' = some r ∧ Agrees r s) ↔
          Recoverable s s')) ∧
      ∀ (s : AgentState) (acts : List Act),
        Flat (Task.run cfg ⟨s, []⟩ acts).saved ↔ Task.Clean cfg ⟨s, []⟩ acts := by
  constructor
  · intro saved now s s' hcarries hfresh
    exact restores_iff hcarries hfresh
  · intro s acts
    have hnone : ∀ c ∈ (⟨s, []⟩ : Task).saved, IsCheckpoint c := fun c hc => absurd hc List.not_mem_nil
    rw [flat_run_iff hnone]
    exact and_iff_right List.Pairwise.nil

/-! ### Two saves of a new task -/

def newYear : Text := "2026-01-01T00:00:00+00:00".toList

def plainSurroundings : Surroundings where
  fromisoformat t := if t = newYear then some (some 1767225600000000) else none
  repr _ := "{}".toList
  ratio _ _ := "1.0".toList
  int? v :=
    match v with
    | leaf (.int n) => some n
    | leaf (.bool b) => some (if b then 1 else 0)
    | _ => none
  int?_int _ := rfl
  resumeLegacy := some

def newTask : AgentState := { taskId := "task-1".toList }

/-- The task has a plan by the time it resumes. -/
def plannedTask : AgentState := { saveCheckpointOnState plainSurroundings newYear newTask with
  planGraph := some ⟨put PyDict.empty "nodes" (list []), by decide⟩ }

theorem new_restored :
    (∃ r, restoreFromStructuredCheckpoint plainSurroundings 1767225660000000
        (saveCheckpointOnState plainSurroundings newYear newTask) = some r ∧ Agrees r newTask) ∧
      Flat (Task.run plainSurroundings ⟨newTask, []⟩ [.save newYear]).saved := by
  have hall := restores_and_flat_iff plainSurroundings
  refine ⟨(hall.1 newYear 1767225660000000 newTask _ (carries_save _ _ _) (by decide +kernel)).2 ?_,
    (hall.2 newTask [.save newYear]).2 ⟨fun c hc => absurd hc List.not_mem_nil, trivial⟩⟩
  exact {
    planGraph := Or.inr rfl
    progress := Or.inr (by decide)
    toolResults := Or.inr rfl
    noObservations := by decide
    observations := rfl
    observation := by
      rw [if_neg (by decide)]
      rfl
    reasoningResult := Or.inr rfl
    executionVersion := Or.inl (by decide)
    history := ⟨[], [], rfl, rfl⟩ }

/-- The plan that came later survives the resume, and the second checkpoint holds the first. -/
theorem checkpoint_forgets :
    (¬ ∃ r, restoreFromStructuredCheckpoint plainSurroundings 1767225660000000 plannedTask = some r ∧
      Agrees r newTask) ∧
      ¬ Flat (Task.run plainSurroundings ⟨newTask, []⟩ [.save newYear, .save newYear]).saved := by
  constructor
  · intro hback
    have hcarries : Carries plainSurroundings newYear newTask plannedTask :=
      carries_save plainSurroundings newYear newTask
    have h := (restores_iff hcarries (by decide +kernel)).1 hback
    rcases h.planGraph with htrue | heq
    · exact absurd htrue (by decide)
    · cases heq
  · intro h
    have hinside := @embeds_after_save plainSurroundings newYear newYear newTask _ (rfl :
      (saveCheckpointOnState plainSurroundings newYear newTask).interruptContext = _) _ Within.self
    exact (List.pairwise_cons.1 h).1 _ (List.mem_singleton_self _) hinside

end AgentLangraph.Checkpoint
