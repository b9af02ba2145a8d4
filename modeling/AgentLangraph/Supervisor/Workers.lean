import AgentLangraph.Lib.PyTree
import Mathlib.Data.List.Perm.Basic
import Mathlib.Data.List.Nodup

/-! The workers of a supervised task (`worker_executor.py`, `a2a_dispatch.py`, `supervisor_worker_node.py`) and their
    compensation (`supervisor_merge_node.py`). The workers of a round run side by side and are taken as they are
    through; then the critical ones that failed have a second round.

        subtasks ──▶ round ──▶ FAILED, critical ──▶ second round ──▶ merge
                       └─ in any order                  └─ in any order -/

namespace AgentLangraph.Supervisor
open PyText

def completed : Text := "COMPLETED".toList

def failed : Text := "FAILED".toList

/-- What a worker hands back. -/
structure Outcome where
  domain : Text := []
  status : Option Text := none
  summary : Text := []
  error : Option Text := none
  attempts : Option ℤ := none
  toolResults : List PyRecord := []

structure AgentMessage where
  capability : Text
  /-- `payload["goal"]`, else `payload["description"]`. -/
  goal : Text

structure Subtask where
  subtaskId : Text
  domain : Text
  description : Text
  requiredCapability : Option Text := none
  a2aMessage : Option AgentMessage := none
  status : Text := "PENDING".toList
  attempts : Option ℤ := none
  critical : Bool := true
  compensationAttempted : Bool := false

/-- What a subtask meets in a round: the attempts of `execute_domain_worker`, by domain and goal, and the agents behind
    HTTP, with the type of the message that they answer. -/
structure World where
  worker : Text → Text → ℕ → Outcome
  external : AgentMessage → Option (Text × Outcome) := fun _ => none

structure Config where
  /-- `SUPERVISOR_WORKER_RETRIES`. -/
  retries : ℤ
  /-- `resolve_pack_for_capability`. -/
  resolve : Text → Option Text
  lower : Text → Text
  upper : Text → Text

section
variable (cfg : Config)

/-- `execute_domain_worker_with_retry`, with so many attempts left. -/
def retryLoop (worker : ℕ → Outcome) : ℕ → ℕ → Outcome → Outcome
  | 0, _, last => { last with attempts := some (cfg.retries + 1), status := some failed }
  | left + 1, attempt, _ =>
    let last := worker attempt
    if last.status = some completed then { last with attempts := some (attempt + 1) }
    else retryLoop worker left (attempt + 1) last

def executeDomainWorkerWithRetry (worker : ℕ → Outcome) : Outcome :=
  retryLoop cfg worker (cfg.retries + 1).toNat 0 {}

/-- `dispatch_message`: the type of the answer and its payload. -/
def dispatchMessage (w : World) (message : AgentMessage) : Text × Outcome :=
  match w.external message with
  | some answer => answer
  | none =>
    let capability := strip (cfg.lower message.capability)
    match cfg.resolve capability with
    | none => ("error".toList, { error := some ("no worker for capability: ".toList ++ capability) })
    | some domain =>
      let outcome := executeDomainWorkerWithRetry cfg (w.worker domain message.goal)
      (if outcome.status = some completed then "result".toList else "error".toList, outcome)

/-- `_run_one` of `run_subtasks_via_a2a`. -/
def runOneA2a (w : World) (st : Subtask) : Outcome :=
  let message := st.a2aMessage.getD { capability := st.requiredCapability.getD st.domain, goal := st.description }
  let answer := dispatchMessage cfg w message
  { answer.2 with
    domain := st.domain
    status := some (if answer.1 = "result".toList then answer.2.status.getD completed else failed) }

/-- `_run_one` of `run_workers_parallel`. -/
def runOne (w : World) (st : Subtask) : Outcome :=
  executeDomainWorkerWithRetry cfg (w.worker st.domain st.description)

/-! ### A round -/

structure Round where
  results : PyDict Text Outcome := PyDict.empty
  subtasks : List Subtask
  errors : List Text := []
  toolResults : List PyRecord := []

/-- How a round runs a subtask, what it notes on it, and its error. -/
structure Dispatch where
  run : World → Subtask → Outcome
  mark : Outcome → Subtask → Subtask
  error : Subtask → Outcome → Text

def a2a : Dispatch where
  run := runOneA2a cfg
  mark outcome st := { st with status := outcome.status.getD failed }
  error st outcome := "capability ".toList ++ st.requiredCapability.getD "None".toList ++ ": ".toList ++
    outcome.error.getD "failed".toList

def direct : Dispatch where
  run := runOne cfg
  mark outcome st :=
    { st with status := outcome.status.getD failed, attempts := some (outcome.attempts.getD 1) }
  error st outcome := "worker ".toList ++ st.domain ++ ": ".toList ++ outcome.error.getD "failed after retries".toList

/-- `use_a2a`. -/
def dispatchOf (subtasks : List Subtask) : Dispatch :=
  if subtasks.any fun st => st.a2aMessage.isSome || st.requiredCapability.any (· ≠ []) then a2a cfg
  else direct cfg

end

section
variable (d : Dispatch) (worlds : Text → World)

def Dispatch.outcome (st : Subtask) : Outcome := d.run (worlds st.subtaskId) st

def Dispatch.fails (st : Subtask) : Bool := (d.outcome worlds st).status = some failed

/-- A subtask as its round leaves it. -/
def Dispatch.after (st : Subtask) : Subtask := d.mark (d.outcome worlds st) st

/-- A future that is through: the worker of the subtask at the index. -/
def Round.take (r : Round) (i : ℕ) : Round :=
  match r.subtasks[i]? with
  | none => r
  | some st =>
    let outcome := d.outcome worlds st
    { results := r.results.set st.subtaskId outcome
      subtasks := r.subtasks.set i (d.after worlds st)
      errors := if d.fails worlds st then r.errors ++ [d.error st outcome] else r.errors
      toolResults := r.toolResults ++ outcome.toolResults }

/-- The loop over `as_completed`, in the order in which the workers are through. -/
def round (order : List ℕ) (subtasks : List Subtask) : Round :=
  order.foldl (Round.take d worlds) { subtasks := subtasks }

end

/-! ### The nodes -/

structure SupervisorState where
  subtasks : List Subtask
  workerResults : PyDict Text Outcome := PyDict.empty
  toolResults : List PyRecord := []
  errors : List Text := []

section
variable (cfg : Config) (worlds : Text → World)

/-- `supervisor_worker_node`, where nothing raises. -/
def supervisorWorker (order : List ℕ) (s : SupervisorState) : SupervisorState :=
  let r := round (dispatchOf cfg s.subtasks) worlds order s.subtasks
  { subtasks := r.subtasks, workerResults := r.results, toolResults := r.toolResults, errors := s.errors ++ r.errors }

/-- A subtask that is to be compensated. -/
def Subtask.due (st : Subtask) : Bool := st.status = failed && st.critical && !st.compensationAttempted

/-- `_retry_failed_workers`. -/
def retryFailedWorkers (order : List ℕ) (s : SupervisorState) : SupervisorState :=
  let failedCritical := s.subtasks.filter Subtask.due
  if failedCritical.isEmpty then s
  else
    let r := round (dispatchOf cfg failedCritical) worlds order failedCritical
    let updated := r.subtasks.map fun st => { st with compensationAttempted := true }
    { subtasks := s.subtasks.map fun st =>
        if st.subtaskId ∈ failedCritical.map Subtask.subtaskId then
          (updated.find? fun x => x.subtaskId = st.subtaskId).getD st
        else st
      workerResults := s.workerResults.update r.results
      toolResults := s.toolResults ++ r.toolResults
      errors := s.errors ++ r.errors }

/-- `supervisor_merge_node` has nothing to merge. -/
def degraded (s : SupervisorState) : Bool :=
  !s.workerResults.entries.isEmpty &&
    s.workerResults.entries.all fun e => cfg.upper (e.2.status.getD []) = failed

end

/-! ### The attempts of a worker -/

section
variable {cfg : Config}

end

/-! ### A round, whatever the order -/

section
variable {d : Dispatch} {worlds : Text → World} {subtasks : List Subtask} {order : List ℕ}

/-- The subtasks in the order in which their workers are through. -/
def through (subtasks : List Subtask) (order : List ℕ) : List Subtask := order.filterMap fun i => subtasks[i]?

theorem through_range : ∀ subtasks : List Subtask, through subtasks (List.range subtasks.length) = subtasks
  | [] => rfl
  | st :: subtasks => by
    rw [through, List.length_cons, List.range_succ_eq_map, List.filterMap_cons, List.filterMap_map]
    exact congrArg (st :: ·) (through_range subtasks)

theorem through_perm (h : order.Perm (List.range subtasks.length)) : (through subtasks order).Perm subtasks :=
  (h.filterMap _).trans (.of_eq (through_range subtasks))

theorem through_concat (i : ℕ) :
    through subtasks (order ++ [i]) = through subtasks order ++ subtasks[i]?.toList := by
  rw [through, List.filterMap_append, ← through]
  cases hi : subtasks[i]? <;> simp [hi]

theorem getElem?_round (hnodup : order.Nodup) : ∀ i : ℕ, (round d worlds order subtasks).subtasks[i]? =
    subtasks[i]?.map fun st => if i ∈ order then d.after worlds st else st := by
  induction order using List.reverseRecOn with
  | nil => simp [round]
  | append_singleton order j ih =>
    obtain ⟨hbefore, -, hlast⟩ := List.nodup_append.1 hnodup
    have hnew : j ∉ order := fun hj => hlast j hj j (List.mem_singleton_self j) rfl
    intro i
    have hj := ih hbefore j
    simp only [hnew, if_false, Option.map_id'] at hj
    rw [round, List.foldl_append, ← round, List.foldl_cons, List.foldl_nil, Round.take, hj]
    cases hst : subtasks[j]? with
    | none =>
      rw [ih hbefore i]
      by_cases hij : i = j
      · simp [hij, hst]
      · simp [hij]
    | some st =>
      by_cases hij : i = j
      · subst hij
        rw [hst] at hj
        have hlt := (List.getElem?_eq_some_iff.1 hj).1
        simp [List.getElem?_set_self hlt, hst]
      · simp [List.getElem?_set_ne (Ne.symm hij), ih hbefore i, hij]

/-- What a round comes to beside the marks, when its workers are through in this order. -/
theorem round_eq (hnodup : order.Nodup) :
    (round d worlds order subtasks).results =
        .ofList ((through subtasks order).map fun st => (st.subtaskId, d.outcome worlds st)) ∧
      (round d worlds order subtasks).errors =
        ((through subtasks order).filter (d.fails worlds)).map (fun st => d.error st (d.outcome worlds st)) ∧
      (round d worlds order subtasks).toolResults =
        (through subtasks order).flatMap fun st => (d.outcome worlds st).toolResults := by
  induction order using List.reverseRecOn with
  | nil => exact ⟨rfl, rfl, rfl⟩
  | append_singleton order j ih =>
    obtain ⟨hbefore, -, hlast⟩ := List.nodup_append.1 hnodup
    have hnew : j ∉ order := fun hj => hlast j hj j (List.mem_singleton_self j) rfl
    have hj := @getElem?_round d worlds subtasks _ hbefore j
    simp only [hnew, if_false, Option.map_id'] at hj
    obtain ⟨hresults, herrors, htools⟩ := ih hbefore
    rw [through_concat, round, List.foldl_append, ← round, List.foldl_cons, List.foldl_nil, Round.take, hj]
    cases subtasks[j]? with
    | none => simpa using ⟨hresults, herrors, htools⟩
    | some st =>
      simp only [hresults, herrors, htools]
      refine ⟨?_, ?_, by simp⟩
      · simp [PyDict.ofList, List.foldl_append]
      · split_ifs with hfails <;> simp [List.filter_append, hfails]

/-- A round marks every subtask where it stands. -/
theorem subtasks_round (horder : order.Perm (List.range subtasks.length)) :
    (round d worlds order subtasks).subtasks = subtasks.map (d.after worlds) := by
  refine List.ext_getElem? fun i => ?_
  rw [getElem?_round (horder.nodup_iff.2 List.nodup_range), List.getElem?_map]
  cases hst : subtasks[i]? with
  | none => rfl
  | some st =>
    have hmem : i ∈ order := horder.mem_iff.2 (List.mem_range.2 (List.getElem?_eq_some_iff.1 hst).1)
    simp [hmem]

/-- The results of a round are those of its subtasks. -/
theorem get?_round (hids : (subtasks.map Subtask.subtaskId).Nodup)
    (horder : order.Perm (List.range subtasks.length)) {id : Text} {outcome : Outcome} :
    (round d worlds order subtasks).results.get? id = some outcome ↔
      ∃ st ∈ subtasks, st.subtaskId = id ∧ d.outcome worlds st = outcome := by
  have hperm := through_perm horder
  have hnodup : (((through subtasks order).map fun st => (st.subtaskId, d.outcome worlds st)).map Prod.fst).Nodup := by
    rw [List.map_map]
    exact (hperm.map _).nodup_iff.2 hids
  rw [(round_eq (horder.nodup_iff.2 List.nodup_range)).1, ← PyDict.mem_entries, PyDict.entries_ofList hnodup]
  simp [hperm.mem_iff]

end

/-! ### Two rounds -/

section
variable (cfg : Config) (worlds worlds' : Text → World) (s : SupervisorState)

def Dispatch.errorsOf (d : Dispatch) (worlds : Text → World) (subtasks : List Subtask) : List Text :=
  (subtasks.filter (d.fails worlds)).map fun st => d.error st (d.outcome worlds st)

def Dispatch.toolResultsOf (d : Dispatch) (worlds : Text → World) (subtasks : List Subtask) : List PyRecord :=
  subtasks.flatMap fun st => (d.outcome worlds st).toolResults

def first : Dispatch := dispatchOf cfg s.subtasks

/-- The subtasks that have a second round. -/
def compensated : List Subtask := (s.subtasks.map ((first cfg s).after worlds)).filter Subtask.due

def second : Dispatch := dispatchOf cfg (compensated cfg worlds s)

/-- What the last round of a subtask came to. -/
def lastOutcome (st : Subtask) : Outcome :=
  if ((first cfg s).after worlds st).due then (second cfg worlds s).outcome worlds' ((first cfg s).after worlds st)
  else (first cfg s).outcome worlds st

def lastSubtask (st : Subtask) : Subtask :=
  if ((first cfg s).after worlds st).due then
    { (second cfg worlds s).after worlds' ((first cfg s).after worlds st) with compensationAttempted := true }
  else (first cfg s).after worlds st

/-- The subtasks are where they were, each with what its last round came to; a failed one that is critical has had
    one more round, and none has another. -/
structure Settled (final : SupervisorState) : Prop where
  subtasks : final.subtasks = s.subtasks.map (lastSubtask cfg worlds worlds' s)
  results : ∀ id outcome, final.workerResults.get? id = some outcome ↔
    ∃ st ∈ s.subtasks, st.subtaskId = id ∧ lastOutcome cfg worlds worlds' s st = outcome
  errors : final.errors.Perm (s.errors ++ ((first cfg s).errorsOf worlds s.subtasks ++
    (second cfg worlds s).errorsOf worlds' (compensated cfg worlds s)))
  toolResults : final.toolResults.Perm ((first cfg s).toolResultsOf worlds s.subtasks ++
    (second cfg worlds s).toolResultsOf worlds' (compensated cfg worlds s))
  once : ∀ worlds'' order, retryFailedWorkers cfg worlds'' order final = final
  merged : degraded cfg final = true ↔ s.subtasks ≠ [] ∧
    ∀ st ∈ s.subtasks, cfg.upper ((lastOutcome cfg worlds worlds' s st).status.getD []) = failed

end

section
variable {cfg : Config} {worlds worlds' : Text → World} {s : SupervisorState} {d : Dispatch} {subtasks : List Subtask}
  {order : List ℕ}

theorem subtaskId_after (st : Subtask) : ((dispatchOf cfg subtasks).after worlds st).subtaskId = st.subtaskId := by
  rw [Dispatch.after, dispatchOf]
  split_ifs <;> rfl

theorem errors_round (horder : order.Perm (List.range subtasks.length)) :
    (round d worlds order subtasks).errors.Perm (d.errorsOf worlds subtasks) := by
  rw [(round_eq (horder.nodup_iff.2 List.nodup_range)).2.1]
  exact ((through_perm horder).filter _).map _

theorem toolResults_round (horder : order.Perm (List.range subtasks.length)) :
    (round d worlds order subtasks).toolResults.Perm (d.toolResultsOf worlds subtasks) := by
  rw [(round_eq (horder.nodup_iff.2 List.nodup_range)).2.2]
  exact (through_perm horder).flatMap_right _

theorem find?_subtaskId {st : Subtask} : ∀ {subtasks : List Subtask}, (subtasks.map Subtask.subtaskId).Nodup →
    st ∈ subtasks → (subtasks.find? fun x => x.subtaskId = st.subtaskId) = some st
  | x :: subtasks, hids, hst => by
    rw [List.map_cons, List.nodup_cons] at hids
    rw [List.find?_cons]
    rcases List.mem_cons.1 hst with rfl | hrest
    · simp
    · have hne : x.subtaskId ≠ st.subtaskId := fun h => hids.1 (h ▸ List.mem_map_of_mem hrest)
      simpa [hne] using find?_subtaskId hids.2 hrest

/-- A compensation leaves a subtask that is due with its second round, and every other as it is. -/
theorem subtasks_retryFailedWorkers (hids : (s.subtasks.map Subtask.subtaskId).Nodup)
    (horder : order.Perm (List.range (s.subtasks.filter Subtask.due).length)) :
    (retryFailedWorkers cfg worlds order s).subtasks = s.subtasks.map fun st =>
      if st.due then
        { (dispatchOf cfg (s.subtasks.filter Subtask.due)).after worlds st with compensationAttempted := true }
      else st := by
  rw [retryFailedWorkers]
  dsimp only
  split_ifs with hnone
  · have hdue : ∀ st ∈ s.subtasks, ¬ st.due := List.filter_eq_nil_iff.1 (List.isEmpty_iff.1 hnone)
    exact (List.map_id' _).symm.trans (List.map_congr_left fun st hst => (if_neg (hdue st hst)).symm)
  · refine List.map_congr_left fun st hst => ?_
    have hmem : st.subtaskId ∈ (s.subtasks.filter Subtask.due).map Subtask.subtaskId ↔ st.due = true := by
      rw [List.mem_map]
      constructor
      · rintro ⟨x, hx, hid⟩
        rw [List.mem_filter] at hx
        rw [← List.inj_on_of_nodup_map hids hx.1 hst hid]
        exact hx.2
      · exact fun hdue => ⟨st, List.mem_filter.2 ⟨hst, hdue⟩, rfl⟩
    by_cases hdue : st.due = true
    · have hfound := find?_subtaskId (hids.sublist (List.filter_sublist.map _)) (List.mem_filter.2 ⟨hst, hdue⟩)
      rw [if_pos (hmem.2 hdue), if_pos hdue, subtasks_round horder, List.map_map, List.find?_map]
      simp only [Function.comp_def, subtaskId_after]
      rw [hfound]
      rfl
    · rw [if_neg (fun h => hdue (hmem.1 h)), if_neg hdue]

theorem get?_retryFailedWorkers (hids : (s.subtasks.map Subtask.subtaskId).Nodup)
    (horder : order.Perm (List.range (s.subtasks.filter Subtask.due).length)) (id : Text) (outcome : Outcome) :
    (retryFailedWorkers cfg worlds order s).workerResults.get? id = some outcome ↔
      (∃ st ∈ s.subtasks, st.due = true ∧ st.subtaskId = id ∧
        (dispatchOf cfg (s.subtasks.filter Subtask.due)).outcome worlds st = outcome) ∨
      (∀ st ∈ s.subtasks, st.due = true → st.subtaskId ≠ id) ∧ s.workerResults.get? id = some outcome := by
  have hround := fun o => @get?_round (dispatchOf cfg (s.subtasks.filter Subtask.due)) worlds _ _
    (hids.sublist (List.filter_sublist.map _)) horder id o
  simp only [List.mem_filter, and_assoc] at hround
  rw [retryFailedWorkers]
  dsimp only
  split_ifs with hnone
  · have hdue : ∀ st ∈ s.subtasks, ¬ st.due := List.filter_eq_nil_iff.1 (List.isEmpty_iff.1 hnone)
    constructor
    · exact fun h => .inr ⟨fun st hst hdue' => absurd hdue' (hdue st hst), h⟩
    · rintro (⟨st, hst, hdue', -⟩ | ⟨-, h⟩)
      · exact absurd hdue' (hdue st hst)
      · exact h
  · rw [PyDict.get?_update, Option.or_eq_some_iff, hround]
    refine or_congr_right (and_congr_left' ?_)
    rw [Option.eq_none_iff_forall_ne_some]
    constructor
    · exact fun h st hst hdue hid => h _ ((hround _).2 ⟨st, hst, hdue, hid, rfl⟩)
    · intro h o ho
      obtain ⟨st, hst, hdue, hid, -⟩ := (hround o).1 ho
      exact h st hst hdue hid

theorem not_due_lastSubtask (st : Subtask) : (lastSubtask cfg worlds worlds' s st).due = false := by
  rw [lastSubtask]
  split_ifs with hdue
  · simp [Subtask.due]
  · simpa using hdue

theorem retryFailedWorkers_of_not_due (h : ∀ st ∈ s.subtasks, st.due = false) :
    retryFailedWorkers cfg worlds order s = s := by
  rw [retryFailedWorkers]
  exact if_pos (List.isEmpty_iff.2 (List.filter_eq_nil_iff.2 fun st hst => by simp [h st hst]))

/-- What a compensation appends. -/
theorem appended_retryFailedWorkers
    (horder : order.Perm (List.range (s.subtasks.filter Subtask.due).length)) :
    (retryFailedWorkers cfg worlds order s).errors.Perm (s.errors ++
        (dispatchOf cfg (s.subtasks.filter Subtask.due)).errorsOf worlds (s.subtasks.filter Subtask.due)) ∧
      (retryFailedWorkers cfg worlds order s).toolResults.Perm (s.toolResults ++
        (dispatchOf cfg (s.subtasks.filter Subtask.due)).toolResultsOf worlds (s.subtasks.filter Subtask.due)) := by
  rw [retryFailedWorkers]
  dsimp only
  split_ifs with hnone
  · rw [List.isEmpty_iff.1 hnone]
    simp [Dispatch.errorsOf, Dispatch.toolResultsOf]
  · exact ⟨(errors_round horder).append_left _, (toolResults_round horder).append_left _⟩

theorem degraded_iff {last : Subtask → Outcome} (h : ∀ id outcome, s.workerResults.get? id = some outcome ↔
    ∃ st ∈ subtasks, st.subtaskId = id ∧ last st = outcome) :
    degraded cfg s = true ↔ subtasks ≠ [] ∧ ∀ st ∈ subtasks, cfg.upper ((last st).status.getD []) = failed := by
  have hmem : ∀ e, e ∈ s.workerResults.entries ↔ ∃ st ∈ subtasks, st.subtaskId = e.1 ∧ last st = e.2 :=
    fun e => PyDict.mem_entries.trans (h e.1 e.2)
  have hempty : s.workerResults.entries = [] ↔ subtasks = [] := by
    rw [List.eq_nil_iff_forall_not_mem, List.eq_nil_iff_forall_not_mem]
    constructor
    · exact fun hnone st hst => hnone (st.subtaskId, last st) ((hmem _).2 ⟨st, hst, rfl, rfl⟩)
    · rintro hnone e he
      obtain ⟨st, hst, -⟩ := (hmem e).1 he
      exact hnone st hst
  rw [degraded, Bool.and_eq_true, Bool.not_eq_true', ← Bool.not_eq_true, List.isEmpty_iff, hempty, List.all_eq_true]
  refine and_congr_right fun _ => ?_
  constructor
  · exact fun hall st hst => of_decide_eq_true (hall (st.subtaskId, last st) ((hmem _).2 ⟨st, hst, rfl, rfl⟩))
  · rintro hall e he
    obtain ⟨st, hst, -, hlast⟩ := (hmem e).1 he
    exact decide_eq_true (hlast ▸ hall st hst)

/-- Two subtasks; the worker of the first one fails in the first round. -/
def twoSubtasks : SupervisorState where
  subtasks := [⟨"a".toList, "code".toList, [], some "code".toList, none, "PENDING".toList, none, true, false⟩,
    ⟨"b".toList, "document".toList, [], some "document".toList, none, "PENDING".toList, none, true, false⟩]

def oneRetry : Config := ⟨1, some, id, id⟩

def worldWithout (domain : String) : World where
  worker d _ _ := { status := some (if d = domain.toList then failed else completed) }

/-- In whatever order the workers of the two rounds are through, the supervisor comes to the same. -/
theorem workers_settled (cfg : Config) (worlds worlds' : Text → World) {s : SupervisorState}
    (hids : (s.subtasks.map Subtask.subtaskId).Nodup) {order order' : List ℕ}
    (horder : order.Perm (List.range s.subtasks.length))
    (horder' : order'.Perm (List.range (compensated cfg worlds s).length)) :
    Settled cfg worlds worlds' s
      (retryFailedWorkers cfg worlds' order' (supervisorWorker cfg worlds order s)) := by
  have hsubtasks : (supervisorWorker cfg worlds order s).subtasks = s.subtasks.map ((first cfg s).after worlds) :=
    subtasks_round horder
  have hids' : ((supervisorWorker cfg worlds order s).subtasks.map Subtask.subtaskId).Nodup := by
    rw [hsubtasks, List.map_map]
    exact (List.map_congr_left fun st _ => subtaskId_after st) ▸ hids
  have hdue : (supervisorWorker cfg worlds order s).subtasks.filter Subtask.due = compensated cfg worlds s := by
    rw [hsubtasks]
    rfl
  rw [← hdue] at horder'
  have hlast := @subtasks_retryFailedWorkers cfg worlds' _ _ hids' horder'
  have happended := @appended_retryFailedWorkers cfg worlds' _ _ horder'
  have hresults : ∀ id outcome, (retryFailedWorkers cfg worlds' order'
      (supervisorWorker cfg worlds order s)).workerResults.get? id = some outcome ↔
        ∃ st ∈ s.subtasks, st.subtaskId = id ∧ lastOutcome cfg worlds worlds' s st = outcome := by
    intro id outcome
    rw [get?_retryFailedWorkers hids' horder', hdue, hsubtasks]
    have hround : (supervisorWorker cfg worlds order s).workerResults.get? id = some outcome ↔
        ∃ st ∈ s.subtasks, st.subtaskId = id ∧ (first cfg s).outcome worlds st = outcome := get?_round hids horder
    rw [hround]
    simp only [List.mem_map, exists_exists_and_eq_and, forall_exists_index, and_imp, forall_apply_eq_imp_iff₂,
      first, subtaskId_after]
    constructor
    · rintro (⟨st, hst, hdue, hid, houtcome⟩ | ⟨hnone, st, hst, hid, houtcome⟩)
      · exact ⟨st, hst, hid, (if_pos hdue).trans houtcome⟩
      · exact ⟨st, hst, hid, (if_neg fun hdue => hnone st hst hdue hid).trans houtcome⟩
    · rintro ⟨st, hst, hid, houtcome⟩
      rw [lastOutcome] at houtcome
      split_ifs at houtcome with hdue
      · exact .inl ⟨st, hst, hdue, hid, houtcome⟩
      · refine .inr ⟨fun st' hst' hdue' hid' => hdue ?_, st, hst, hid, houtcome⟩
        rw [List.inj_on_of_nodup_map hids hst hst' (hid.trans hid'.symm)]
        exact hdue'
  rw [hdue, hsubtasks, List.map_map] at hlast
  rw [hdue] at happended
  refine ⟨hlast, hresults, ?_, ?_, fun worlds'' order'' => retryFailedWorkers_of_not_due ?_, degraded_iff hresults⟩
  · refine happended.1.trans ?_
    rw [← List.append_assoc]
    exact ((errors_round horder).append_left _).append_right _
  · exact happended.2.trans ((toolResults_round horder).append_right _)
  · rw [hlast]
    simp only [List.mem_map, forall_exists_index, and_imp, forall_apply_eq_imp_iff₂]
    exact fun st _ => not_due_lastSubtask st

theorem workers_settled_second_round :
    Settled oneRetry (fun _ => worldWithout "code") (fun _ => worldWithout "image") twoSubtasks
      (retryFailedWorkers oneRetry (fun _ => worldWithout "image") [0]
        (supervisorWorker oneRetry (fun _ => worldWithout "code") [1, 0] twoSubtasks)) :=
  workers_settled oneRetry _ _ (by decide +kernel) (by decide +kernel) (by decide +kernel)

end

end AgentLangraph.Supervisor
