import AgentLangraph.Checkpoint.Structured

/-! Resuming from the last committed step (`execution_control.py`, `state_models.py`). The progress of a task
    is in its background status and in the meta of its plan graph, and every merge folds what an old snapshot
    has under the top-level key `progress` into both. The resume reads that key and merges what it has read:

        progress {..}   read, marked, folded in
        no progress     {} folded in: the work plan is gone -/

namespace AgentLangraph.Checkpoint
open PyText PyTree

/-! ### Saved states -/

/-- A saved state: its channels, and the legacy containers beside them, `progress` among them. -/
structure SavedState where
  channels : AgentState
  progress : Option PyRecord := none
  legacy : String → PyTree := fun _ => nil

/-- The legacy containers that are folded away whatever they are, unless they are `None`. -/
def legacyFields : List String :=
  ["mission_step", "mission_control", "exploration", "subtasks", "worker_results", "react_loop", "step_decision"]

/-- `d[key] = v`, unless `v` is `None`. -/
def putUnlessNone (d : PyRecord) (key : String) : PyTree → PyRecord
  | leaf .none => d
  | v => put d key v

/-- The meta of the plan graph with the legacy containers. -/
def planMeta (s : SavedState) : PyRecord :=
  let d := dictOr ((dict (planFields s.channels.planGraph).entries).get "meta")
  let d := if (s.legacy "mission").isDict then put d "mission" (s.legacy "mission") else d
  let d := s.progress.elim d fun p => put d "progress" (dict p.entries)
  legacyFields.foldl (fun d key => putUnlessNone d key (s.legacy key)) d

/-- The background status with the legacy progress. -/
def backgroundFields (s : SavedState) : PyRecord :=
  s.progress.elim (recordOr s.channels.backgroundStatus) fun p =>
    put (recordOr s.channels.backgroundStatus) "progress" (dict p.entries)

/-- `coerce_agent_state`. -/
def coerceAgentState (s : SavedState) : AgentState :=
  { s.channels with
    planGraph :=
      if (planMeta s).entries.isEmpty then s.channels.planGraph
      else some ⟨put (planFields s.channels.planGraph) "meta" (dict (planMeta s).entries), fun _ => by
        rw [get_put_self]
        rfl⟩
    backgroundStatus :=
      if (backgroundFields s).entries.isEmpty then s.channels.backgroundStatus else some (backgroundFields s) }

/-- What `progress_from_state` reads of a saved state, brought into form as every loaded or merged state is. -/
def savedProgress (s : SavedState) : PyTree := progressFromState (coerceAgentState s)

/-! ### Committing a step -/

def done : PyTree := leaf (.str "done".toList)

/-- `str(row.get("id") or "")`. -/
def idText (cfg : Surroundings) (row : PyTree) : Text := strOf cfg ((row.get "id").orElse (leaf (.str [])))

/-- `str(v or "")`. -/
def textOr (cfg : Surroundings) (v : PyTree) : Text := strOf cfg (v.orElse (leaf (.str [])))

/-- An item that a checkpoint has committed. -/
def committed (item : PyTree) : Bool := item.isDict && (item.get "committed").truthy

/-- A status after the commit: `cancelled` stays. -/
def committedStatus : PyTree → PyTree
  | leaf (.str t) => if t = "cancelled".toList then leaf (.str t) else done
  | _ => done

/-- `if c: row[key] = v`. -/
def withFieldIf (c : Bool) (key : String) (v row : PyTree) : PyTree := if c then row.withField key v else row

/-- The row of a committed item in `update_work_plan_checkpoint`. -/
def commitRow (stepId : Text) (checkpointRef : PyTree) (runId : Text) (attempt : ℤ) (row : PyTree) : PyTree :=
  let row := row.withField "last_step_id" ((leaf (.str stepId)).orElse (row.get "last_step_id"))
  let row := row.withField "committed" (leaf (.bool true))
  let row := withFieldIf checkpointRef.truthy "checkpoint_ref" checkpointRef row
  let row := withFieldIf (runId != []) "last_run_id" (leaf (.str runId)) row
  let row := withFieldIf (attempt != 0) "attempt" (leaf (.int attempt)) row
  row.withField "status" (committedStatus (row.get "status"))

/-- A row of the item that a step is about. -/
def Concerns (cfg : Surroundings) (stepMeta : PyTree) (row : PyTree) : Prop :=
  row.isDict ∧ textOr cfg (stepMeta.get "work_item_id") ≠ [] ∧
    idText cfg row = textOr cfg (stepMeta.get "work_item_id")

instance (cfg : Surroundings) (stepMeta row : PyTree) : Decidable (Concerns cfg stepMeta row) :=
  inferInstanceAs (Decidable (_ ∧ _ ∧ _))

/-- One row of `update_work_plan_checkpoint`. -/
def updateRow (cfg : Surroundings) (run stepMeta checkpointRef : PyTree) (attempt : ℤ) (row : PyTree) : PyTree :=
  let runId := textOr cfg ((stepMeta.get "last_run_id").orElse (run.orEmpty.get "run_id"))
  if Concerns cfg stepMeta row then commitRow (textOr cfg (stepMeta.get "step_id")) checkpointRef runId attempt row
  else row

/-- `update_work_plan_checkpoint`, with the `execution_run` of the state and Python's `int`. -/
def updateWorkPlanCheckpoint (cfg : Surroundings) (int : PyTree → Option ℤ) (run stepMeta checkpointRef : PyTree)
    (s : AgentState) : Option AgentState :=
  let plan := (progressFromState s).get "work_plan"
  match plan.get "items" with
  | list items =>
    (int ((stepMeta.get "attempt").orElse (leaf (.int 0)))).map fun attempt =>
      setProgressOnState s ((progressFromState s).withField "work_plan"
        (plan.withField "items" (list (items.map (updateRow cfg run stepMeta checkpointRef attempt)))))
  | _ => some s

/-- `mark_step_committed`, at the time `now`. -/
def markStepCommitted (cfg : Surroundings) (int : PyTree → Option ℤ) (run : PyTree) (now : Text)
    (stepMeta : PyRecord) (checkpointRef : Option Text) (s : AgentState) : Option AgentState :=
  let refTree := textTree checkpointRef
  let step := put (put stepMeta "status" (leaf (.str "committed".toList))) "updated_at" (leaf (.str now))
  let step := if refTree.truthy then put step "checkpoint_ref" refTree else step
  let ctx := put (put (ensureInterruptContext s) "last_committed_step" (dict step.entries)) "active_step" nil
  let ctx := put ctx "resume_from_checkpoint" (dict
    [entry "step_id" ((dict step.entries).get "step_id"), entry "checkpoint_ref" refTree,
      entry "committed_at" (leaf (.str now))])
  let ctx := put (put (put ctx "control_state" (leaf (.str "IDLE".toList))) "pause_requested" (leaf (.bool false)))
    "cancel_requested" (leaf (.bool false))
  updateWorkPlanCheckpoint cfg int run (dict step.entries) refTree { s with interruptContext := some ctx }

/-! ### Resuming -/

/-- `ctx.get("last_committed_step")`, if it is a dictionary. -/
def lastCommittedStep (s : AgentState) : PyTree :=
  ((dict (ensureInterruptContext s).entries).get "last_committed_step").orEmpty

/-- The item of the step that was committed last. -/
def lastWorkItem (s : AgentState) : PyTree := (lastCommittedStep s).get "work_item_id"

/-- One item of `apply_checkpoint_to_resume_state`. -/
def resumeRow (cfg : Surroundings) (workItemId row : PyTree) : PyTree :=
  if idText cfg row = strOf cfg workItemId ∧ committed row then row.withField "status" done else row

/-- `completed_ids` with the item, if it is committed and not among them. -/
def completedWith (cfg : Surroundings) (workItemId : PyTree) (rows completed : List PyTree) : List PyTree :=
  let wid := strOf cfg workItemId
  if wid ≠ [] ∧ (¬ completed.any fun v => match v with | leaf (.str t) => t == wid | _ => false) ∧
      rows.any fun row => idText cfg row == wid && committed row then
    completed ++ [leaf (.str wid)]
  else completed

/-- The work plan of `apply_checkpoint_to_resume_state`. -/
def resumePlan (cfg : Surroundings) (workItemId plan : PyTree) : Option PyTree := do
  let rows ← ((plan.get "items").orElse (list [])).toList?
  let completed ← ((plan.get "completed_ids").orElse (list [])).toList?
  let rows := rows.map (resumeRow cfg workItemId)
  some (((plan.withField "items" (list rows)).withField "completed_ids"
    (list (completedWith cfg workItemId rows completed))).withField "current_id" nil)

/-- The progress of `apply_checkpoint_to_resume_state`. -/
def resumeProgress (cfg : Surroundings) (workItemId : PyTree) (progress : PyRecord) : Option PyRecord :=
  let plan := (dict progress.entries).get "work_plan"
  if plan.isDict && workItemId.truthy then
    (resumePlan cfg workItemId plan).map fun plan => put progress "work_plan" plan
  else some progress

/-- The payload of `apply_checkpoint_to_resume_state`. -/
def resumePayload (cfg : Surroundings) (checkpointRef stepId : PyTree) (payload : PyRecord) : PyRecord :=
  let payload :=
    if checkpointRef.truthy then put payload "resume_checkpoint_ref" (leaf (.str (strOf cfg checkpointRef)))
    else payload
  let payload :=
    if stepId.truthy then put payload "resume_from_step_id" (leaf (.str (strOf cfg stepId))) else payload
  payload.erase "writing_stopped_for_steer".toList

/-- `record_control_event`, at the time `now`. -/
def recordControlEvent (now event : Text) (detail : PyTree) (s : AgentState) : AgentState :=
  { s with
    interruptContext := some (put (ensureInterruptContext s) "last_control_event" (dict
      [entry "event" (leaf (.str event)), entry "at" (leaf (.str now)), entry "detail" detail])) }

/-- `apply_checkpoint_to_resume_state`, at the time `now`. -/
def applyCheckpointToResumeState (cfg : Surroundings) (now : Text) (s : SavedState) : Option AgentState := do
  let ctx := put (put (put (ensureInterruptContext s.channels) "pause_requested" (leaf (.bool false)))
    "cancel_requested" (leaf (.bool false))) "control_state" (leaf (.str "IDLE".toList))
  let last := lastCommittedStep s.channels
  let resume := ((dict ctx.entries).get "resume_from_checkpoint").orEmpty
  let checkpointRef := (resume.get "checkpoint_ref").orElse (last.get "checkpoint_ref")
  let stepId := (resume.get "step_id").orElse (last.get "step_id")
  let progress ← resumeProgress cfg (last.get "work_item_id") (recordOr s.progress)
  let updated := coerceAgentState { s with
    channels := { s.channels with
      inputPayload := s.channels.inputPayload.update (resumePayload cfg checkpointRef stepId s.channels.inputPayload)
      interruptContext := some ctx }
    progress := some progress }
  some (recordControlEvent now "resume_from_checkpoint".toList
    (dict [entry "checkpoint_ref" checkpointRef, entry "step_id" stepId]) updated)

/-! ### What a checkpoint commits -/

theorem committed_withField {v : PyTree} (h : committed v) {key : String} (hkey : key ≠ "committed") (x : PyTree) :
    committed (v.withField key x) := by
  rw [committed, isDict_withField, get_eq, get?_withField_ne _ hkey, ← get_eq]
  exact h

theorem committed_withFieldIf {v : PyTree} (h : committed v) (c : Bool) {key : String} (hkey : key ≠ "committed")
    (x : PyTree) : committed (withFieldIf c key x v) := by
  rw [withFieldIf]
  split_ifs
  · exact committed_withField h hkey x
  · exact h

/-- The row of a committed item says so. -/
theorem committed_commitRow {row : PyTree} (hrow : row.isDict) (stepId : Text) (checkpointRef : PyTree)
    (runId : Text) (attempt : ℤ) : committed (commitRow stepId checkpointRef runId attempt row) := by
  have hstart : ∀ x, committed ((row.withField "last_step_id" x).withField "committed" (leaf (.bool true))) := by
    intro x
    rw [committed, isDict_withField, isDict_withField, hrow, get_withField_self (by simpa using hrow)]
    rfl
  rw [commitRow]
  refine committed_withField ?_ (by decide) _
  refine committed_withFieldIf ?_ _ (by decide) _
  refine committed_withFieldIf ?_ _ (by decide) _
  exact committed_withFieldIf (hstart _) _ (by decide) _

/-- What a checkpoint commits is read back: the rows of its item are committed, the others as before. -/
theorem update_commits {cfg : Surroundings} {int : PyTree → Option ℤ} {run stepMeta checkpointRef : PyTree}
    {s s' : AgentState} {items : List PyTree}
    (hitems : ((progressFromState s).get "work_plan").get "items" = list items)
    (h : updateWorkPlanCheckpoint cfg int run stepMeta checkpointRef s = some s') :
    ∃ rows, ((progressFromState s').get "work_plan").get "items" = list rows ∧
      List.Forall₂ (fun item row => (Concerns cfg stepMeta item → committed row) ∧
        (¬ Concerns cfg stepMeta item → row = item)) items rows := by
  have hplan : ((progressFromState s).get "work_plan").isDict :=
    isDict_of_get fun hnil => by rw [hitems] at hnil; cases hnil
  have hprogress : (progressFromState s).isDict :=
    isDict_of_get fun hnil => by rw [hnil] at hplan; cases hplan
  rw [updateWorkPlanCheckpoint, hitems] at h
  obtain ⟨attempt, -, rfl⟩ := Option.map_eq_some_iff.1 h
  refine ⟨items.map (updateRow cfg run stepMeta checkpointRef attempt), ?_, ?_⟩
  · rw [progressFromState_set s (by simpa using hprogress), get_withField_self hprogress, get_withField_self hplan]
  · rw [List.forall₂_map_right_iff, List.forall₂_same]
    intro item _
    rw [updateRow]
    constructor
    · intro hitem
      rw [if_pos hitem]
      exact committed_commitRow hitem.1 _ _ _ _
    · exact fun hitem => if_neg hitem

/-! ### What a resume should keep -/

def markDone (item : PyTree) : PyTree := if committed item then item.withField "status" done else item

/-- The progress after a resume: the committed items are done, the other items, the other entries of the work
    plan and the other progress as before. The plan may note what is completed, and leave its current item. -/
structure PlanKept (cfg : Surroundings) (items : List PyTree) (before after : PyTree) : Prop where
  rows : (after.get "work_plan").get "items" = list (items.map markDone)
  progress : ∀ key, key ≠ "work_plan" → after.get? key = before.get? key
  plan : ∀ key, key ∉ ["items", "completed_ids", "current_id"] →
    (after.get "work_plan").get? key = (before.get "work_plan").get? key
  completed : (after.get "work_plan").get? "completed_ids" = (before.get "work_plan").get? "completed_ids" ∨
    ∃ ids added, (((before.get "work_plan").get "completed_ids").orElse (list [])).toList? = some ids ∧
      (after.get "work_plan").get "completed_ids" = list (ids ++ added) ∧
      ∀ v ∈ added, ∃ item ∈ items, committed item ∧ v = leaf (.str (idText cfg item))
  current : (after.get "work_plan").get? "current_id" = (before.get "work_plan").get? "current_id" ∨
    (after.get "work_plan").get "current_id" = nil

/-- The state still has the legacy progress, and what is committed in it is done already or is the item of the
    last committed step. -/
structure Resumable (cfg : Surroundings) (s : SavedState) (items : List PyTree) : Prop where
  legacy : s.progress.isSome
  completed : (lastWorkItem s.channels).truthy →
    ((((savedProgress s).get "work_plan").get "completed_ids").orElse (list [])).toList?.isSome
  last : ∀ item ∈ items, committed item →
    item.get? "status" = some done ∨
      (lastWorkItem s.channels).truthy ∧ idText cfg item = strOf cfg (lastWorkItem s.channels)

/-! ### The legacy progress -/

/-- The legacy progress is what is read once the state is in form. -/
theorem progressFromState_coerce {s : SavedState} {p : PyRecord} (h : s.progress = some p) :
    progressFromState (coerceAgentState s) = dict p.entries := by
  have hget : (dict (backgroundFields s).entries).get "progress" = dict p.entries := by
    rw [backgroundFields, h]
    exact get_put_self _ _ _
  have hempty : (backgroundFields s).entries.isEmpty = false := by
    cases hfields : (backgroundFields s).entries with
    | nil => rw [hfields] at hget; cases hget
    | cons e es => rfl
  have hback : backgroundProgress (coerceAgentState s) = dict p.entries := by
    rw [backgroundProgress, coerceAgentState, hempty]
    exact hget
  rw [progressFromState, hback]
  exact if_pos rfl

theorem progressFromState_recordControlEvent (now event : Text) (detail : PyTree) (s : AgentState) :
    progressFromState (recordControlEvent now event detail s) = progressFromState s := rfl

/-- The progress after a resume is what the resume has made of the legacy one. -/
theorem progress_resumed {cfg : Surroundings} {now : Text} {s : SavedState} {r : AgentState}
    (h : applyCheckpointToResumeState cfg now s = some r) :
    ∃ p, resumeProgress cfg (lastWorkItem s.channels) (recordOr s.progress) = some p ∧
      progressFromState r = dict p.entries := by
  rw [applyCheckpointToResumeState] at h
  obtain ⟨p, hp, hr⟩ := Option.bind_eq_some_iff.1 h
  refine ⟨p, hp, ?_⟩
  rw [← Option.some.inj hr, progressFromState_recordControlEvent]
  exact progressFromState_coerce rfl

/-- Without the legacy progress nothing is left. -/
theorem progress_lost {cfg : Surroundings} {now : Text} {s : SavedState} {r : AgentState}
    (hnone : s.progress = none) (h : applyCheckpointToResumeState cfg now s = some r) :
    progressFromState r = dict [] := by
  obtain ⟨p, hp, hr⟩ := progress_resumed h
  rw [hnone] at hp
  cases hp
  exact hr

/-! ### The items -/

theorem get?_put_ne (d : PyRecord) {key key' : String} (h : key ≠ key') (v : PyTree) :
    (dict (put d key v).entries).get? key' = (dict d.entries).get? key' :=
  get?_withField_ne (dict d.entries) h v

variable {cfg : Surroundings} {workItemId : PyTree}

theorem committed_isDict {item : PyTree} (h : committed item) : item.isDict := by
  rw [committed, Bool.and_eq_true] at h
  exact h.1

/-- The one item that the resume marks is a committed one, so every committed item is marked just where the
    others are done already. -/
theorem map_resumeRow_iff (items : List PyTree) :
    items.map (resumeRow cfg workItemId) = items.map markDone ↔ ∀ item ∈ items, committed item →
      item.get? "status" = some done ∨ idText cfg item = strOf cfg workItemId := by
  rw [List.map_inj_left]
  refine forall₂_congr fun item _ => ?_
  rw [resumeRow, markDone]
  by_cases hcommitted : committed item
  · by_cases hid : idText cfg item = strOf cfg workItemId
    · simp [hcommitted, hid]
    · rw [if_neg fun h => hid h.1, if_pos hcommitted, eq_comm, withField_eq_self_iff (committed_isDict hcommitted)]
      simp [hcommitted, hid]
  · rw [if_neg fun h => hcommitted h.2, if_neg hcommitted]
    simp [hcommitted]

theorem map_markDone_eq_self_iff (items : List PyTree) :
    items = items.map markDone ↔ ∀ item ∈ items, committed item → item.get? "status" = some done := by
  have hid : items = items.map id := (List.map_id items).symm
  conv_lhs => lhs; rw [hid]
  rw [List.map_inj_left]
  refine forall₂_congr fun item _ => ?_
  rw [id_eq, markDone]
  by_cases hcommitted : committed item
  · rw [if_pos hcommitted, eq_comm, withField_eq_self_iff (committed_isDict hcommitted)]
    simp [hcommitted]
  · simp [hcommitted]

/-- The id of an item does not depend on its status. -/
theorem idText_resumeRow (row : PyTree) : idText cfg (resumeRow cfg workItemId row) = idText cfg row := by
  rw [resumeRow]
  split_ifs
  · rw [idText, get_eq, get?_withField_ne _ (by decide), ← get_eq, idText]
  · rfl

theorem committed_resumeRow (row : PyTree) : committed (resumeRow cfg workItemId row) = committed row := by
  rw [resumeRow]
  split_ifs
  · rw [committed, isDict_withField, get_eq, get?_withField_ne _ (by decide), ← get_eq, committed]
  · rfl

/-- What is added to `completed_ids` is the id of a committed item. -/
theorem completedWith_eq (rows completed : List PyTree) :
    ∃ added, completedWith cfg workItemId (rows.map (resumeRow cfg workItemId)) completed = completed ++ added ∧
      ∀ v ∈ added, ∃ item ∈ rows, committed item ∧ v = leaf (.str (idText cfg item)) := by
  rw [completedWith]
  split_ifs with h
  · refine ⟨_, rfl, fun v hv => ?_⟩
    obtain ⟨row, hrow, hcase⟩ := List.any_eq_true.1 h.2.2
    obtain ⟨item, hitem, rfl⟩ := List.mem_map.1 hrow
    rw [idText_resumeRow, committed_resumeRow, Bool.and_eq_true, beq_iff_eq] at hcase
    exact ⟨item, hitem, hcase.2, by rw [List.mem_singleton.1 hv, hcase.1]⟩
  · exact ⟨[], (List.append_nil _).symm, fun v hv => absurd hv List.not_mem_nil⟩

/-! ### The work plan -/

variable {items : List PyTree}

theorem orElse_list (items : List PyTree) : (list items).orElse (list []) = list items := by
  cases items <;> rfl

/-- The resume of a work plan, where its completed ids can be gone through. -/
theorem resumePlan_eq {plan : PyTree} (hitems : plan.get "items" = list items) : resumePlan cfg workItemId plan =
    (((plan.get "completed_ids").orElse (list [])).toList?).map fun completed =>
      ((plan.withField "items" (list (items.map (resumeRow cfg workItemId)))).withField "completed_ids"
        (list (completedWith cfg workItemId (items.map (resumeRow cfg workItemId)) completed))).withField
        "current_id" nil := by
  rw [resumePlan, hitems, orElse_list]
  cases ((plan.get "completed_ids").orElse (list [])).toList? <;> rfl

variable {p p' : PyRecord}

theorem isDict_of_items {plan : PyTree} (hitems : plan.get "items" = list items) : plan.isDict :=
  isDict_of_get fun h => by rw [hitems] at h; cases h

theorem resumeProgress_eq (hitems : ((dict p.entries).get "work_plan").get "items" = list items) :
    resumeProgress cfg workItemId p =
      if workItemId.truthy then
        (resumePlan cfg workItemId ((dict p.entries).get "work_plan")).map fun plan => put p "work_plan" plan
      else some p := by
  rw [resumeProgress, isDict_of_items hitems, Bool.true_and]

/-- What a resume keeps of a progress that it has read, where it comes to an end. -/
theorem planKept_iff (hitems : ((dict p.entries).get "work_plan").get "items" = list items)
    (hp : resumeProgress cfg workItemId p = some p') :
    PlanKept cfg items (dict p.entries) (dict p'.entries) ↔ ∀ item ∈ items, committed item →
      item.get? "status" = some done ∨ workItemId.truthy ∧ idText cfg item = strOf cfg workItemId := by
  rw [resumeProgress_eq hitems] at hp
  split_ifs at hp with htruthy
  · rw [resumePlan_eq hitems] at hp
    obtain ⟨plan, hplan, rfl⟩ := Option.map_eq_some_iff.1 hp
    obtain ⟨completed, hcompleted, rfl⟩ := Option.map_eq_some_iff.1 hplan
    obtain ⟨added, hadded, hmem⟩ := @completedWith_eq cfg workItemId items completed
    have hdict := isDict_of_items hitems
    constructor
    · intro h item hitem hcommitted
      have hrows := h.rows
      rw [get_put_self, get_eq, get?_withField_ne _ (by decide), get?_withField_ne _ (by decide),
        get?_withField_self hdict] at hrows
      exact ((map_resumeRow_iff items).1 (PyTree.list.inj hrows) item hitem hcommitted).imp_right
        fun hid => ⟨htruthy, hid⟩
    · intro h
      have hrows := (map_resumeRow_iff items).2 fun item hitem hcommitted =>
        (h item hitem hcommitted).imp_right And.right
      refine ⟨?_, fun key hkey => get?_put_ne p hkey.symm _, ?_, .inr ⟨completed, added, hcompleted, ?_, hmem⟩,
        .inr ?_⟩
      · rw [get_put_self, get_eq, get?_withField_ne _ (by decide), get?_withField_ne _ (by decide),
          get?_withField_self hdict, hrows]
        rfl
      · intro key hkey
        simp only [List.mem_cons, List.not_mem_nil, or_false, not_or] at hkey
        rw [get_put_self, get?_withField_ne _ (Ne.symm hkey.2.2), get?_withField_ne _ (Ne.symm hkey.2.1),
          get?_withField_ne _ (Ne.symm hkey.1)]
      · rw [get_put_self, get_eq, get?_withField_ne _ (by decide), get?_withField_self (by simpa using hdict), hadded]
        rfl
      · rw [get_put_self, get_withField_self (by simpa using hdict)]
  · cases hp
    constructor
    · intro h item hitem hcommitted
      have hrows := h.rows
      rw [hitems] at hrows
      exact .inl ((map_markDone_eq_self_iff items).1 (PyTree.list.inj hrows) item hitem hcommitted)
    · intro h
      have hrows := (map_markDone_eq_self_iff items).2 fun item hitem hcommitted =>
        (h item hitem hcommitted).resolve_right fun hlast => htruthy hlast.1
      exact ⟨by rw [hitems, ← hrows], fun _ _ => rfl, fun _ _ => rfl, .inl rfl, .inl rfl⟩

/-- A resume ends unless the completed ids cannot be gone through. -/
theorem isSome_resumeProgress (hitems : ((dict p.entries).get "work_plan").get "items" = list items) :
    (resumeProgress cfg workItemId p).isSome ↔ (workItemId.truthy →
      ((((dict p.entries).get "work_plan").get "completed_ids").orElse (list [])).toList?.isSome) := by
  rw [resumeProgress_eq hitems]
  split_ifs with htruthy
  · simp [resumePlan_eq hitems, htruthy]
  · simp [htruthy]

theorem exists_resumed {now : Text} {s : SavedState}
    (hp : resumeProgress cfg (lastWorkItem s.channels) (recordOr s.progress) = some p) :
    ∃ r, applyCheckpointToResumeState cfg now s = some r ∧ progressFromState r = dict p.entries := by
  refine ⟨_, Option.bind_eq_some_iff.2 ⟨p, hp, rfl⟩, ?_⟩
  rw [progressFromState_recordControlEvent]
  exact progressFromState_coerce rfl

/-- A resume keeps the work plan just where the state still has the legacy progress and what is committed is
    done already or the last that was committed. -/
theorem resume_keeps_plan_iff (cfg : Surroundings) (now : Text) (s : SavedState) (items : List PyTree)
    (hitems : ((savedProgress s).get "work_plan").get "items" = list items) :
    (∃ r, applyCheckpointToResumeState cfg now s = some r ∧
      PlanKept cfg items (savedProgress s) (progressFromState r)) ↔ Resumable cfg s items := by
  cases hprogress : s.progress with
  | none =>
    constructor
    · rintro ⟨r, hr, hkept⟩
      have hrows := hkept.rows
      rw [progress_lost hprogress hr] at hrows
      cases hrows
    · intro h
      have hlegacy := h.legacy
      rw [hprogress] at hlegacy
      cases hlegacy
  | some p =>
    have hsaved : savedProgress s = dict p.entries := progressFromState_coerce hprogress
    rw [hsaved] at hitems ⊢
    have hrecord : recordOr s.progress = p := by
      rw [hprogress]
      rfl
    constructor
    · rintro ⟨r, hr, hkept⟩
      obtain ⟨p', hp', hread⟩ := progress_resumed hr
      rw [hrecord] at hp'
      rw [hread] at hkept
      refine ⟨by rw [hprogress]; rfl, ?_, (planKept_iff hitems hp').1 hkept⟩
      rw [hsaved]
      exact (isSome_resumeProgress hitems).1 (by rw [hp']; rfl)
    · rintro ⟨-, hcompleted, hlast⟩
      rw [hsaved] at hcompleted
      obtain ⟨p', hp'⟩ := Option.isSome_iff_exists.1 ((isSome_resumeProgress hitems).2 hcompleted)
      obtain ⟨r, hr, hread⟩ := @exists_resumed cfg p' now s (by rw [hrecord]; exact hp')
      exact ⟨r, hr, by rw [hread]; exact (planKept_iff hitems hp').2 hlast⟩

/-! ### A plan of two steps -/

/-- `int` of an integer. -/
def intOnly : PyTree → Option ℤ
  | leaf (.int n) => some n
  | _ => none

/-- No times, no texts of containers, and the two counts of a ratio left out. -/
def timelessSurroundings : Surroundings where
  fromisoformat := fun _ => none
  repr := fun _ => []
  ratio := fun _ _ => []
  int? := intOnly
  int?_int := fun _ => rfl
  resumeLegacy := some

def step (id status : String) : PyTree :=
  dict [entry "id" (leaf (.str id.toList)), entry "status" (leaf (.str status.toList))]

/-- A work plan of two steps. -/
def twoStepProgress (first : PyTree) : PyRecord := PyDict.ofList [entry "work_plan" (dict
  [entry "items" (list [first, step "body" "pending"]), entry "current_id" (leaf (.str "outline".toList))])]

/-- A snapshot in the old layout, whose first step was committed while it was running. -/
def oldSnapshot : SavedState where
  channels :=
    { taskId := "t".toList
      interruptContext := some (PyDict.ofList
        [entry "last_committed_step" (dict [entry "work_item_id" (leaf (.str "outline".toList))])]) }
  progress := some (twoStepProgress ((step "outline" "running").withField "committed" (leaf (.bool true))))

theorem resume_keeps_plan_iff_oldSnapshot : ∃ r,
    applyCheckpointToResumeState timelessSurroundings "now".toList oldSnapshot = some r ∧
      PlanKept timelessSurroundings
        [(step "outline" "running").withField "committed" (leaf (.bool true)), step "body" "pending"]
        (savedProgress oldSnapshot) (progressFromState r) := by
  refine (resume_keeps_plan_iff timelessSurroundings "now".toList oldSnapshot _ rfl).2 ⟨rfl, fun _ => rfl, ?_⟩
  intro item hitem hcommitted
  rcases List.mem_cons.1 hitem with rfl | hitem
  · exact .inr ⟨rfl, rfl⟩
  · rw [List.mem_singleton.1 hitem] at hcommitted
    cases hcommitted

/-- A task whose first step has just been committed. -/
def committedTask : Option AgentState :=
  markStepCommitted timelessSurroundings intOnly nil "now".toList
    (PyDict.ofList [entry "step_id" (leaf (.str "s1".toList)), entry "work_item_id" (leaf (.str "outline".toList))])
    (some "ref".toList)
    (setProgressOnState { taskId := "t".toList } (dict (twoStepProgress (step "outline" "running")).entries))

/-- Resuming it loses its work plan: a committed step leaves the progress where the resume does not read. -/
theorem resume_loses_plan : ¬ ∀ (cfg : Surroundings) (now : Text) (s : SavedState) (items : List PyTree),
    ((savedProgress s).get "work_plan").get "items" = list items →
    ∃ r, applyCheckpointToResumeState cfg now s = some r ∧
      PlanKept cfg items (savedProgress s) (progressFromState r) := by
  intro h
  obtain ⟨s, hs⟩ : ∃ s, committedTask = some s := ⟨_, rfl⟩
  have hplan : ∃ items, ((savedProgress { channels := s }).get "work_plan").get "items" = list items := by
    cases hs
    exact ⟨_, rfl⟩
  obtain ⟨items, hitems⟩ := hplan
  obtain ⟨r, hr, hkept⟩ := h timelessSurroundings "now".toList { channels := s } items hitems
  have hrows := hkept.rows
  rw [progress_lost rfl hr] at hrows
  cases hrows

end AgentLangraph.Checkpoint
