import AgentLangraph.Artifact.Files
import AgentLangraph.Lib.Ranked
import AgentLangraph.Lib.SqlLike
import Mathlib.Data.Char
import Mathlib.Data.List.Dedup
import Mathlib.Data.List.Lex

/-! What is removed of a task that is deleted (`task_cleanup.py`, `artifact_tools.py`): its directory, which
    is named by what is left of its id, and its checkpoint threads, which are named by the id and the turn and
    are found by the same remains of the id.

        id ── clean ──┬──▶ directory
         │            └──▶ thread_id LIKE 'clean:t%' ──┬──▶ threads
         └── id, id:t1, id:t2, … ─────────────────────┘ -/

namespace AgentLangraph.Session
open PyText SqlLike Ranked
open AgentLangraph.Artifact (Disk Path taskDir)

/-- `graph_thread_id`. -/
def graphThreadId (taskId : Text) (turn : ℕ) : Text := taskId ++ ":t".toList ++ (toString turn).toList

/-- A row of `checkpoints` or `writes`. -/
structure CheckpointRow where
  threadId : Text
  data : Text := []
  deriving DecidableEq

/-- What is stored of the tasks on the disk and with the checkpoints. -/
structure Remains where
  disk : Disk
  checkpoints : List CheckpointRow
  writes : List CheckpointRow

/-- `CHECKPOINT_BACKEND`. -/
inductive Backend
  | sqlite | postgres
  deriving DecidableEq

/-- How `LIKE` compares characters: SQLite leaves the case of ASCII letters aside. -/
def Backend.fold : Backend → Char → Char
  | .sqlite => Char.toLower
  | .postgres => id

/-- `_scan_checkpoint_threads_sqlite`, and the same for Postgres. -/
def scanCheckpointThreads (b : Backend) (w : Remains) (taskId : Text) : List Text :=
  ((w.checkpoints ++ w.writes).map CheckpointRow.threadId).filter fun thread =>
    thread = taskId ∨ like b.fold (taskId ++ ":t%".toList) thread

/-- `_scan_checkpoint_thread_ids`. -/
def scanCheckpointThreadIds (b : Backend) (w : Remains) (taskId : Text) : List Text :=
  if taskDir taskId = [] then [] else scanCheckpointThreads b w (taskDir taskId)

/-- The turns that are expected. -/
def expectedTurns (maxTurnHint : ℕ) : ℕ := max 1 (if maxTurnHint = 0 then 1 else maxTurnHint) + 4

/-- `_discover_checkpoint_thread_ids`. -/
def discoverCheckpointThreadIds (b : Backend) (w : Remains) (taskId : Text) (maxTurnHint : ℕ) : List Text :=
  sortBy id (taskId :: (List.range (expectedTurns maxTurnHint)).map (fun k => graphThreadId taskId (k + 1)) ++
    scanCheckpointThreadIds b w taskId).dedup

/-- `reset_thread`: the checkpointer deletes a thread. -/
def resetThread (w : Remains) (thread : Text) : Remains :=
  { w with
    checkpoints := w.checkpoints.filter (·.threadId ≠ thread)
    writes := w.writes.filter (·.threadId ≠ thread) }

/-- `delete_checkpoints_for_task`, where no reset fails. -/
def deleteCheckpointsForTask (b : Backend) (w : Remains) (taskId : Text) (maxTurnHint : ℕ) : ℕ × Remains :=
  let threads := discoverCheckpointThreadIds b w taskId maxTurnHint
  (threads.length, threads.foldl resetThread w)

/-- `delete_task_artifact_dir`, where `rmtree` does not fail. -/
def deleteTaskArtifactDir (d : Disk) (taskId : Text) : Bool × Disk :=
  if taskDir taskId = [] then (false, d)
  else if [taskDir taskId] ∉ d.dirs then (true, d)
  else (true,
    { d with
      files := d.files.filterKeys fun p => p.head? ≠ some (taskDir taskId)
      dirs := d.dirs.filter fun p => p.head? ≠ some (taskDir taskId) })

/-- `purge_task_remains`, as far as the disk and the checkpoints go. -/
def purgeTaskRemains (b : Backend) (w : Remains) (taskId : Text) (sessionTurnHint : ℕ) : Remains :=
  (deleteCheckpointsForTask b { w with disk := (deleteTaskArtifactDir w.disk taskId).2 } taskId
    sessionTurnHint).2

/-! ### What a task has there -/

/-- A thread of the task: that of its own id, and those of its turns. -/
def IsThreadOf (taskId thread : Text) : Prop :=
  thread = taskId ∨ ∃ turn, 1 ≤ turn ∧ thread = graphThreadId taskId turn

/-- A file in the directory of the task, if it can have one. -/
def IsFileOf (taskId : Text) (p : Path) : Prop := taskDir taskId ≠ [] ∧ p.head? = some (taskDir taskId)

/-- Whatever is stored, a purge of `t` leaves the files and the threads of `u` as they are; and the two have
    different directories, if any. -/
structure PurgeConfined (b : Backend) (hint : ℕ) (t u : Text) : Prop where
  files : ∀ (w : Remains) (p : Path), IsFileOf u p →
    (purgeTaskRemains b w t hint).disk.files.get? p = w.disk.files.get? p
  threads : ∀ (w : Remains) (thread : Text), IsThreadOf u thread →
    (purgeTaskRemains b w t hint).checkpoints.filter (·.threadId = thread) =
        w.checkpoints.filter (·.threadId = thread) ∧
      (purgeTaskRemains b w t hint).writes.filter (·.threadId = thread) =
        w.writes.filter (·.threadId = thread)
  directories : taskDir u ≠ [] → taskDir t ≠ taskDir u

/-- The ids are apart: neither is a thread of the other, and what is left of `t`, if anything, is not what is
    left of `u`, and as a pattern neither fits `u` nor, with a turn behind it, the beginning of `u`. -/
def Apart (b : Backend) (hint : ℕ) (t u : Text) : Prop :=
  (∀ turn, 1 ≤ turn → t ≠ graphThreadId u turn) ∧
    (∀ turn, 1 ≤ turn → turn ≤ expectedTurns hint → u ≠ graphThreadId t turn) ∧
    (taskDir t = [] ∨ taskDir t ≠ taskDir u ∧ like b.fold (taskDir t) u = false ∧
      like b.fold (taskDir t ++ ":t%".toList) u = false)

/-! ### The files -/

theorem mem_taskDir {taskId : Text} {c : Char} (h : c ∈ taskDir taskId) :
    c.isAlphanum = true ∨ c = '-' ∨ c = '_' := by
  simpa [taskDir, or_assoc] using (List.mem_filter.1 h).2

theorem colon_not_mem_taskDir (taskId : Text) : ':' ∉ taskDir taskId := fun h => by
  simpa using mem_taskDir h

theorem percent_not_mem_taskDir (taskId : Text) : '%' ∉ taskDir taskId := fun h => by
  simpa using mem_taskDir h

/-- What is left of an id is all left of it again. -/
theorem taskDir_taskDir (taskId : Text) : taskDir (taskDir taskId) = taskDir taskId := by
  rw [taskDir, taskDir, List.filter_filter]
  exact List.filter_congr fun c _ => Bool.and_self _

theorem purgeTaskRemains_disk (b : Backend) (w : Remains) (t : Text) (hint : ℕ) :
    (purgeTaskRemains b w t hint).disk = (deleteTaskArtifactDir w.disk t).2 := by
  have hfold : ∀ (threads : List Text) (w : Remains), (threads.foldl resetThread w).disk = w.disk := by
    intro threads
    induction threads with
    | nil => exact fun w => rfl
    | cons thread threads ih => exact fun w => ih (resetThread w thread)
  exact hfold _ _

/-- A purge removes the files below the directory of its task, and no others. -/
theorem files_purge {b : Backend} {w : Remains} {t : Text} {hint : ℕ} {p : Path}
    (h : p.head? ≠ some (taskDir t)) :
    (purgeTaskRemains b w t hint).disk.files.get? p = w.disk.files.get? p := by
  rw [purgeTaskRemains_disk, deleteTaskArtifactDir]
  by_cases hnil : taskDir t = []
  · rw [if_pos hnil]
  · by_cases hdir : [taskDir t] ∈ w.disk.dirs
    · rw [if_neg hnil, if_neg (not_not.2 hdir), PyDict.get?_filterKeys, if_pos (by simpa using h)]
    · rw [if_neg hnil, if_pos hdir]

/-! ### The threads -/

/-- A thread that a purge of `t` removes, if there is one of its name. -/
def IsPurged (b : Backend) (hint : ℕ) (t thread : Text) : Prop :=
  thread = t ∨ (∃ turn, 1 ≤ turn ∧ turn ≤ expectedTurns hint ∧ thread = graphThreadId t turn) ∨
    taskDir t ≠ [] ∧ (thread = taskDir t ∨ like b.fold (taskDir t ++ ":t%".toList) thread = true)

theorem mem_discoverCheckpointThreadIds {b : Backend} {w : Remains} {t : Text} {hint : ℕ} {r : CheckpointRow}
    (hr : r ∈ w.checkpoints ++ w.writes) :
    r.threadId ∈ discoverCheckpointThreadIds b w t hint ↔ IsPurged b hint t r.threadId := by
  have hmem : r.threadId ∈ (w.checkpoints ++ w.writes).map CheckpointRow.threadId := List.mem_map_of_mem hr
  have hturns : r.threadId ∈ (List.range (expectedTurns hint)).map (fun k => graphThreadId t (k + 1)) ↔
      ∃ turn, 1 ≤ turn ∧ turn ≤ expectedTurns hint ∧ r.threadId = graphThreadId t turn := by
    rw [List.mem_map]
    constructor
    · rintro ⟨k, hk, heq⟩
      exact ⟨k + 1, by omega, List.mem_range.1 hk, heq.symm⟩
    · rintro ⟨turn, hone, hle, heq⟩
      refine ⟨turn - 1, List.mem_range.2 (by omega), ?_⟩
      rw [Nat.sub_add_cancel hone, heq]
  have hscan : r.threadId ∈ scanCheckpointThreadIds b w t ↔ taskDir t ≠ [] ∧
      (r.threadId = taskDir t ∨ like b.fold (taskDir t ++ ":t%".toList) r.threadId = true) := by
    rw [scanCheckpointThreadIds]
    split_ifs with hnil
    · simp [hnil]
    · rw [scanCheckpointThreads, List.mem_filter, and_iff_right hmem]
      simp [hnil]
  rw [discoverCheckpointThreadIds, mem_sortBy, List.mem_dedup, List.cons_append, List.mem_cons,
    List.mem_append, hturns, hscan, IsPurged]

theorem foldl_resetThread : ∀ (threads : List Text) (w : Remains),
    (threads.foldl resetThread w).checkpoints = w.checkpoints.filter (·.threadId ∉ threads) ∧
      (threads.foldl resetThread w).writes = w.writes.filter (·.threadId ∉ threads)
  | [], w => by simp
  | thread :: threads, w => by
      obtain ⟨hcheckpoints, hwrites⟩ := foldl_resetThread threads (resetThread w thread)
      rw [List.foldl_cons, hcheckpoints, hwrites, resetThread]
      simp only [List.filter_filter, List.mem_cons, not_or]
      refine ⟨List.filter_congr fun r _ => ?_, List.filter_congr fun r _ => ?_⟩
      · rw [Bool.decide_and, Bool.and_comm]
      · rw [Bool.decide_and, Bool.and_comm]

/-- A purge leaves the rows of a thread, whatever is stored, exactly when it does not remove the thread. -/
theorem threads_purge_iff (b : Backend) (hint : ℕ) (t thread : Text) :
    (∀ w : Remains, (purgeTaskRemains b w t hint).checkpoints.filter (·.threadId = thread) =
          w.checkpoints.filter (·.threadId = thread) ∧
        (purgeTaskRemains b w t hint).writes.filter (·.threadId = thread) =
          w.writes.filter (·.threadId = thread)) ↔ ¬ IsPurged b hint t thread := by
  constructor
  · intro hkept hpurged
    let w : Remains := ⟨{}, [⟨thread, []⟩], []⟩
    have hmem : thread ∈ discoverCheckpointThreadIds b { w with disk := (deleteTaskArtifactDir w.disk t).2 }
        t hint := (mem_discoverCheckpointThreadIds (r := ⟨thread, []⟩) (.head _)).2 hpurged
    have hrows := (hkept w).1
    rw [purgeTaskRemains, deleteCheckpointsForTask, (foldl_resetThread _ _).1, List.filter_cons,
      if_neg (by simpa using hmem)] at hrows
    simp [w] at hrows
  · intro hnot w
    have hrows : ∀ rows, rows ⊆ w.checkpoints ++ w.writes →
        (rows.filter (·.threadId ∉ discoverCheckpointThreadIds b
          { w with disk := (deleteTaskArtifactDir w.disk t).2 } t hint)).filter (·.threadId = thread) =
        rows.filter (·.threadId = thread) := by
      intro rows hsub
      rw [List.filter_filter]
      refine List.filter_congr fun r hr => ?_
      by_cases hthread : r.threadId = thread
      · have hfound : r.threadId ∈ discoverCheckpointThreadIds b
            { w with disk := (deleteTaskArtifactDir w.disk t).2 } t hint ↔ IsPurged b hint t r.threadId :=
          mem_discoverCheckpointThreadIds (w := { w with disk := (deleteTaskArtifactDir w.disk t).2 })
            (hsub hr)
        have hout := mt hfound.1 (hthread ▸ hnot)
        simp only [hout, not_false_eq_true, decide_true, Bool.and_true]
      · simp [hthread]
    rw [purgeTaskRemains, deleteCheckpointsForTask, (foldl_resetThread _ _).1, (foldl_resetThread _ _).2]
    exact ⟨hrows _ (List.subset_append_left _ _), hrows _ (List.subset_append_right _ _)⟩

/-! ### Threads of other tasks -/

theorem colon_not_mem_toString (n : ℕ) : ':' ∉ (toString n).toList := by
  intro h
  have hdigits : (toString n).toList = Nat.toDigits 10 n := by simp [Nat.repr]
  rw [hdigits] at h
  simpa using Nat.isDigit_of_mem_toDigits (by decide) (by decide) h

theorem toLower_colon (d : Char) : Char.toLower ':' = d.toLower ↔ d = ':' := by
  constructor
  · intro h
    have hcolon : ':' = d.toLower := h
    delta Char.toLower at hcolon
    split at hcolon
    · rename_i hletter
      -- a capital becomes a small letter, and the colon is none
      have hval : 58 = (d.val.toNat + 32) % 2 ^ 32 := congrArg (fun c : Char => c.val.toNat) hcolon
      have hlow : 65 ≤ d.val.toNat := hletter.1
      have hhigh : d.val.toNat ≤ 90 := hletter.2
      omega
    · exact hcolon.symm
  · rintro rfl
    rfl

/-- A colon matches itself only. -/
theorem fold_colon (b : Backend) (d : Char) : b.fold ':' = b.fold d ↔ d = ':' := by
  cases b with
  | postgres => exact eq_comm
  | sqlite => exact toLower_colon d

/-- Whether a pattern fits the beginning of a thread of a turn is decided by the id: either it fits the
    whole id, or the beginning of it. -/
theorem begins_graphThreadId (b : Backend) (turn : ℕ) : ∀ {p : Text} (u : Text), '%' ∉ p →
    begins b.fold (p ++ ":t".toList) (graphThreadId u turn) =
      (like b.fold p u || begins b.fold (p ++ ":t".toList) u)
  | [], [], _ => by simp [graphThreadId, begins, like]
  | [], [d], _ => by
      have ht : b.fold 't' ≠ b.fold ':' := fun h => absurd ((fold_colon b 't').1 h.symm) (by decide)
      simp [graphThreadId, begins, like, ht]
  | [], d :: e :: u, _ => by simp [graphThreadId, begins, like]
  | c :: p, [], h => by
      have hdigits : ':' ∉ 't' :: (toString turn).toList := by simpa using colon_not_mem_toString turn
      have hbegins : begins b.fold (p ++ ":t".toList) ('t' :: (toString turn).toList) = false :=
        begins_of_not_mem (by decide) (fold_colon b) ['t'] p hdigits
      rw [List.mem_cons, not_or] at h
      rw [like_cons_nil (Ne.symm h.1), List.cons_append, graphThreadId]
      simp only [List.nil_append, begins, Bool.or_self]
      simpa [begins] using fun _ => hbegins
  | c :: p, d :: u, h => by
      rw [List.mem_cons, not_or] at h
      have ih := begins_graphThreadId b turn u h.2
      have hcons : graphThreadId (d :: u) turn = d :: graphThreadId u turn := rfl
      rw [hcons, List.cons_append, begins, ih, like_cons (Ne.symm h.1), begins, Bool.and_or_distrib_left]

/-- The id can be read off a thread of a turn. -/
theorem graphThreadId_left_inj {t u : Text} {n m : ℕ} (h : graphThreadId t n = graphThreadId u m) :
    t = u := by
  have hturn (n : ℕ) : ':' ∉ 't' :: (toString n).toList := by simpa using colon_not_mem_toString n
  have hsplit : t ++ ':' :: 't' :: (toString n).toList = u ++ ':' :: 't' :: (toString m).toList := by
    simpa [graphThreadId] using h
  -- the longer one would have its colon among the digits of the other
  rcases List.append_eq_append_iff.1 hsplit with ⟨rest, rfl, hrest⟩ | ⟨rest, rfl, hrest⟩
  · cases rest with
    | nil => exact (List.append_nil t).symm
    | cons c rest =>
      rw [List.cons_append, List.cons.injEq] at hrest
      exact absurd (hrest.2 ▸ List.mem_append_right rest (List.mem_cons_self ..)) (hturn n)
  · cases rest with
    | nil => exact List.append_nil u
    | cons c rest =>
      rw [List.cons_append, List.cons.injEq] at hrest
      exact absurd (hrest.2 ▸ List.mem_append_right rest (List.mem_cons_self ..)) (hturn m)

theorem colon_mem_graphThreadId (t : Text) (turn : ℕ) : ':' ∈ graphThreadId t turn := by
  simp [graphThreadId]

/-- The pattern that the scan looks for fits what begins as it does before its `%`. -/
theorem like_turns (b : Backend) (t x : Text) :
    like b.fold (taskDir t ++ ":t%".toList) x = begins b.fold (taskDir t ++ ":t".toList) x := by
  have hpercent : '%' ∉ taskDir t ++ ":t".toList := by simpa using percent_not_mem_taskDir t
  have hpattern : taskDir t ++ ":t%".toList = (taskDir t ++ ":t".toList) ++ ['%'] := by simp
  rw [hpattern, like_percent x hpercent]

/-- THE OWN THREAD OF ANOTHER TASK: it is removed as a turn of `t`, or because its id is found. -/
theorem isPurged_self_iff {b : Backend} {hint : ℕ} {t u : Text} (hne : t ≠ u) :
    IsPurged b hint t u ↔ (∃ turn, 1 ≤ turn ∧ turn ≤ expectedTurns hint ∧ u = graphThreadId t turn) ∨
      taskDir t ≠ [] ∧ (u = taskDir t ∨ like b.fold (taskDir t ++ ":t%".toList) u = true) := by
  rw [IsPurged, or_iff_right (Ne.symm hne)]

/-- THE TURNS OF ANOTHER TASK: the thread is the id of `t`, or what is found are all the turns of `u`. -/
theorem isPurged_turn_iff {b : Backend} {hint : ℕ} {t u : Text} (hne : t ≠ u) (turn : ℕ) :
    IsPurged b hint t (graphThreadId u turn) ↔ t = graphThreadId u turn ∨
      taskDir t ≠ [] ∧
        (like b.fold (taskDir t) u = true ∨ like b.fold (taskDir t ++ ":t%".toList) u = true) := by
  have hturns : ¬ ∃ n, 1 ≤ n ∧ n ≤ expectedTurns hint ∧ graphThreadId u turn = graphThreadId t n := by
    rintro ⟨n, _, _, heq⟩
    exact hne (graphThreadId_left_inj heq).symm
  have hdir : graphThreadId u turn ≠ taskDir t := fun heq =>
    colon_not_mem_taskDir t (heq ▸ colon_mem_graphThreadId u turn)
  rw [IsPurged, or_iff_right hturns, or_iff_right hdir, like_turns, like_turns,
    begins_graphThreadId b turn u (percent_not_mem_taskDir t), Bool.or_eq_true, eq_comm]

/-- What is left of `t` is `u` only where the two have the same directory. -/
theorem ne_taskDir {t u : Text} (h : taskDir t ≠ taskDir u) : u ≠ taskDir t := by
  intro heq
  rw [heq, taskDir_taskDir] at h
  exact h rfl

/-- CONFINED DELETION: the purge of a task leaves the files and the threads of another task in place, whatever
    is stored, and has another directory, exactly when their ids are apart. -/
theorem purge_confined_iff (b : Backend) (hint : ℕ) {t u : Text} (hne : t ≠ u) :
    PurgeConfined b hint t u ↔ Apart b hint t u := by
  constructor
  · rintro ⟨-, hthreads, hdirs⟩
    have hself := (threads_purge_iff b hint t u).1 fun w => hthreads w u (.inl rfl)
    have hturn (turn : ℕ) (hone : 1 ≤ turn) : ¬ IsPurged b hint t (graphThreadId u turn) :=
      (threads_purge_iff b hint t _).1 fun w => hthreads w _ (.inr ⟨turn, hone, rfl⟩)
    rw [isPurged_self_iff hne, not_or] at hself
    refine ⟨fun turn hone heq => hturn turn hone ((isPurged_turn_iff hne turn).2 (.inl heq)),
      fun turn hone hle heq => hself.1 ⟨turn, hone, hle, heq⟩, ?_⟩
    by_cases hnil : taskDir t = []
    · exact .inl hnil
    · have hfound := (isPurged_turn_iff hne 1).not.1 (hturn 1 le_rfl)
      rw [not_or, not_and, not_or, Bool.not_eq_true, Bool.not_eq_true] at hfound
      refine .inr ⟨?_, hfound.2 hnil⟩
      by_cases hother : taskDir u = []
      · rwa [hother]
      · exact hdirs hother
  · rintro ⟨hthread, hturns, hpattern⟩
    have hdirs : taskDir u ≠ [] → taskDir t ≠ taskDir u := by
      rcases hpattern with hnil | ⟨hdir, -⟩
      · rw [hnil]
        exact Ne.symm
      · exact fun _ => hdir
    refine ⟨fun w p hfile => files_purge ?_, fun w thread hthread' => ?_, hdirs⟩
    · rw [hfile.2]
      exact fun heq => hdirs hfile.1 (Option.some.inj heq).symm
    · refine (threads_purge_iff b hint t thread).2 ?_ w
      rcases hthread' with rfl | ⟨turn, hone, rfl⟩
      · rw [isPurged_self_iff hne, not_or]
        refine ⟨fun ⟨turn, hone, hle, heq⟩ => hturns turn hone hle heq, ?_⟩
        rcases hpattern with hnil | ⟨hdir, -, hlike⟩
        · exact fun hfound => hfound.1 hnil
        · rw [hlike]
          exact fun hfound => hfound.2.elim (ne_taskDir hdir) Bool.false_ne_true
      · rw [isPurged_turn_iff hne, not_or]
        refine ⟨hthread turn hone, ?_⟩
        rcases hpattern with hnil | ⟨-, hself, hlike⟩
        · exact fun hfound => hfound.1 hnil
        · rw [hself, hlike]
          exact fun hfound => hfound.2.elim Bool.false_ne_true Bool.false_ne_true

/-- The underscore that an id may have stands for any character when its threads are looked for. -/
theorem wildcard_purges_other : ¬ ∀ t u : Text, t ≠ [] → u ≠ [] → t ≠ u → PurgeConfined .sqlite 1 t u := by
  intro hconfined
  have hkept := hconfined "a_c".toList "abc".toList (by decide) (by decide) (by decide)
  have hpurged : IsPurged .sqlite 1 "a_c".toList (graphThreadId "abc".toList 9) :=
    .inr (.inr ⟨by decide, .inr (by decide +kernel)⟩)
  exact (threads_purge_iff _ _ _ _).1 (fun w => hkept.threads w _ (.inr ⟨9, by decide, rfl⟩)) hpurged

theorem dashed_ids_confined : PurgeConfined .sqlite 1 "a-c".toList "abc".toList := by
  refine (purge_confined_iff .sqlite 1 (by decide)).2 ⟨fun turn _ heq => ?_, fun turn _ _ heq => ?_, ?_⟩
  · exact absurd (heq ▸ colon_mem_graphThreadId _ turn) (by decide)
  · exact absurd (heq ▸ colon_mem_graphThreadId _ turn) (by decide)
  · exact .inr (by decide +kernel)

end AgentLangraph.Session
