import AgentLangraph.Queue.Claim

/-! Whether the queue heeds how long an item has waited. The aged priority is compared only among candidates that
    were picked without it: a page of 50 rows by raw priority, or the one member of the sorted set with the highest
    score, which is that of its enqueue.

        pending ──raw priority──▶ candidates ──aged priority──▶ the item -/

namespace AgentLangraph.Queue
open PyText Trace

variable (cfg : Settings)

/-! ### One call by itself -/

/-- `pop_highest_pending`. -/
def TaskQueue.popHighestPending (s : TaskQueue) : Option Text × TaskQueue :=
  match zmax s.zset with
  | none => (none, s)
  | some q => (some q, { s with zset := s.zset.filter fun e => e.1 ≠ q })

/-- The row is marked as taken and returned. -/
def TaskQueue.handOut (s : TaskQueue) (row : Row) (now : ℚ) : Option Row × TaskQueue :=
  (some row, { s with table := take s.table row.queueId now, handed := row.queueId :: s.handed })

/-- `_claim_by_id`. -/
def TaskQueue.claimById (s : TaskQueue) (queueId : Text) (now : ℚ) : Option Row × TaskQueue :=
  match selectById s.table queueId with
  | none => (none, s)
  | some row => s.handOut row now

/-- `effective_priority_from_row`. -/
def aged (now : ℚ) (row : Row) : ℤ := effectivePriority cfg now row.priority row.enqueuedAt

/-- The part of `dequeue_next` that asks the database. -/
def TaskQueue.dequeueSelected (s : TaskQueue) (user : Option Text) (now : ℚ) : Option Row × TaskQueue :=
  match maxBy (aged cfg now) (selectPending s.table user) with
  | none => (none, s)
  | some best => s.handOut best now

/-- `dequeue_next`. -/
def TaskQueue.dequeueNext (s : TaskQueue) (user : Option Text) (now : ℚ) : Option Row × TaskQueue :=
  if cfg.celery ∧ user = none then
    match s.popHighestPending with
    | (none, s) => s.dequeueSelected cfg user now
    | (some q, s) =>
      match s.claimById q now with
      | (some item, s) => (some item, s)
      | (none, s) => s.dequeueSelected cfg user now
  else s.dequeueSelected cfg user now

/-- The pending items, of the given user if one is given. -/
def pendingOf (table : List Row) (user : Option Text) : List Row :=
  table.filter fun r => r.status = .pending && ((user.getD []) = [] || r.userId = user.getD [])

/-- No pending item has a higher aged priority than the one that is returned. -/
def TaskQueue.RespectsAging (s : TaskQueue) (user : Option Text) (now : ℚ) : Prop :=
  ∀ item, (s.dequeueNext cfg user now).1 = some item → ∀ r ∈ pendingOf s.table user, aged cfg now r ≤ aged cfg now item

/-- What a call chooses from: the pending row of the member that is highest in the sorted set, and where there is
    none, or the set is not asked, the page of 50. -/
def TaskQueue.candidates (s : TaskQueue) (user : Option Text) : List Row :=
  match (if cfg.celery ∧ user = none then (zmax s.zset).bind (selectById s.table) else none) with
  | some row => [row]
  | none => selectPending s.table user

/-- Every pending item has a candidate that is as high now. -/
def TaskQueue.Covered (s : TaskQueue) (user : Option Text) (now : ℚ) : Prop :=
  ∀ r ∈ pendingOf s.table user, ∃ c ∈ s.candidates cfg user, aged cfg now r ≤ aged cfg now c

variable {cfg}

/-! ### The worker that is alone -/

/-- The queue with one worker. -/
def TaskQueue.alone (s : TaskQueue) (user : Option Text) (phase : Phase) : TaskQueue :=
  { s with workers := [⟨user, phase⟩] }

theorem step_alone (s : TaskQueue) (user : Option Text) (phase : Phase) (now : ℚ) :
    (s.alone user phase).step cfg (.step 0 now) =
      let next := s.statement cfg ⟨user, phase⟩ now
      next.1.alone user next.2 := by
  rw [TaskQueue.step, TaskQueue.alone]
  dsimp only [List.getElem?_cons_zero]
  cases phase with
  | popping =>
    rw [TaskQueue.statement, TaskQueue.statement]
    dsimp only
    cases zmax s.zset <;> rfl
  | claiming q =>
    rw [TaskQueue.statement, TaskQueue.statement]
    dsimp only
    cases selectById s.table q <;> rfl
  | selecting =>
    rw [TaskQueue.statement, TaskQueue.statement]
    dsimp only
    cases maxBy (fun r : Row => effectivePriority cfg now r.priority r.enqueuedAt) (selectPending s.table user) <;> rfl
  | taking row => rfl
  | returned item => rfl

/-- What a worker that is alone has come to, a number of statements later. -/
theorem steps_alone (n : ℕ) (s : TaskQueue) (user : Option Text) (phase : Phase) (now : ℚ) :
    run (TaskQueue.step cfg) (s.alone user phase) (List.replicate (n + 1) (.step 0 now)) =
      let next := s.statement cfg ⟨user, phase⟩ now
      run (TaskQueue.step cfg) (next.1.alone user next.2) (List.replicate n (.step 0 now)) := by
  rw [List.replicate_succ, run_cons, step_alone]

theorem returned_alone (n : ℕ) (s : TaskQueue) (user : Option Text) (item : Option Row) (now : ℚ) :
    run (TaskQueue.step cfg) (s.alone user (.returned item)) (List.replicate n (.step 0 now)) =
      s.alone user (.returned item) := by
  induction n with
  | zero => rfl
  | succ n ih =>
    rw [steps_alone]
    exact ih

/-- From the `SELECT` on there are two statements, or one. -/
theorem selecting_alone (n : ℕ) (s : TaskQueue) (user : Option Text) (now : ℚ) :
    run (TaskQueue.step cfg) (s.alone user .selecting) (List.replicate (n + 2) (.step 0 now)) =
      (s.dequeueSelected cfg user now).2.alone user (.returned (s.dequeueSelected cfg user now).1) := by
  rw [steps_alone, TaskQueue.statement, TaskQueue.dequeueSelected]
  dsimp only
  unfold aged
  cases maxBy (fun r : Row => effectivePriority cfg now r.priority r.enqueuedAt) (selectPending s.table user) with
  | none => exact returned_alone (n + 1) s user none now
  | some best =>
    dsimp only
    rw [steps_alone]
    exact returned_alone n _ user (some best) now

/-- A worker that no other gets between returns after four statements, at the latest, what the call returns. -/
theorem worker_alone (s : TaskQueue) (user : Option Text) (now : ℚ) (hworkers : s.workers = []) :
    run (TaskQueue.step cfg) s (.dequeue user :: List.replicate 4 (.step 0 now)) =
      (s.dequeueNext cfg user now).2.alone user (.returned (s.dequeueNext cfg user now).1) := by
  have hstart : s.step cfg (.dequeue user) = s.alone user (firstPhase cfg user) := by
    rw [TaskQueue.step, hworkers, List.nil_append, TaskQueue.alone]
  rw [run_cons, hstart, firstPhase, TaskQueue.dequeueNext]
  split_ifs with hasked
  · rw [steps_alone, TaskQueue.statement, TaskQueue.popHighestPending]
    dsimp only
    cases zmax s.zset with
    | none => exact selecting_alone 1 s user now
    | some q =>
      dsimp only
      rw [steps_alone, TaskQueue.statement, TaskQueue.claimById]
      dsimp only
      cases selectById s.table q with
      | none => exact selecting_alone 0 _ user now
      | some row =>
        dsimp only
        rw [steps_alone]
        exact returned_alone 1 _ user (some row) now
  · exact selecting_alone 2 s user now

/-! ### The largest of the candidates -/

theorem le_maxBy {key : Row → ℤ} {rows : List Row} {best : Row} (h : maxBy key rows = some best) :
    ∀ r ∈ rows, key r ≤ key best := by
  have hfold : ∀ (rows : List Row) (x : Row),
      ∀ r ∈ x :: rows, key r ≤ key (rows.foldl (fun best x => if key best < key x then x else best) x) := by
    intro rows
    induction rows with
    | nil =>
      intro x r hr
      rw [List.mem_singleton.1 hr]
      exact le_rfl
    | cons y rows ih =>
      intro x r hr
      rw [List.foldl_cons]
      have hchosen := ih (if key x < key y then y else x) _ List.mem_cons_self
      rcases List.mem_cons.1 hr with rfl | hr
      · refine le_trans ?_ hchosen
        split_ifs with hlt
        · exact le_of_lt hlt
        · exact le_rfl
      · rcases List.mem_cons.1 hr with rfl | hr
        · refine le_trans ?_ hchosen
          split_ifs with hlt
          · exact le_rfl
          · exact not_lt.1 hlt
        · exact ih _ r (List.mem_cons_of_mem _ hr)
  cases rows with
  | nil => exact nofun
  | cons x rows =>
    rw [maxBy, Option.some.injEq] at h
    rw [← h]
    exact hfold rows x

theorem mem_pendingOf {table : List Row} {user : Option Text} {r : Row} (h : r ∈ selectPending table user) :
    r ∈ pendingOf table user := by
  have hsorted := List.mem_of_mem_take h
  rwa [(List.perm_insertionSort _ _).mem_iff] at hsorted

/-- A call returns the candidate with the highest aged priority. -/
theorem dequeueNext_eq (s : TaskQueue) (user : Option Text) (now : ℚ) :
    (s.dequeueNext cfg user now).1 = maxBy (aged cfg now) (s.candidates cfg user) := by
  have hselected (s' : TaskQueue) (htable : s'.table = s.table) :
      (s'.dequeueSelected cfg user now).1 = maxBy (aged cfg now) (selectPending s.table user) := by
    rw [TaskQueue.dequeueSelected, htable]
    cases maxBy (aged cfg now) (selectPending s.table user) <;> rfl
  rw [TaskQueue.dequeueNext, TaskQueue.candidates]
  split_ifs with hasked
  · rw [TaskQueue.popHighestPending]
    cases hpop : zmax s.zset with
    | none => exact hselected s rfl
    | some q =>
      dsimp only
      rw [TaskQueue.claimById, Option.bind_some]
      cases hrow : selectById s.table q with
      | none => exact hselected _ rfl
      | some row => rfl
  · exact hselected s rfl

theorem candidates_ne_nil {s : TaskQueue} {user : Option Text} {r : Row} (h : r ∈ pendingOf s.table user) :
    s.candidates cfg user ≠ [] := by
  rw [TaskQueue.candidates]
  split
  · exact List.cons_ne_nil _ _
  · intro hnil
    have hlength := congrArg List.length hnil
    rw [selectPending, List.length_take, List.length_insertionSort, List.length_nil] at hlength
    have hpos : 0 < (pendingOf s.table user).length := List.length_pos_of_mem h
    rw [pendingOf] at hpos
    omega

/-- The item that is returned has the highest aged priority of all exactly when the candidates, chosen by raw
    priority, cover the pending items. -/
theorem respectsAging_iff (s : TaskQueue) (user : Option Text) (now : ℚ) :
    s.RespectsAging cfg user now ↔ s.Covered cfg user now := by
  rw [TaskQueue.RespectsAging, dequeueNext_eq]
  constructor
  · intro h r hr
    obtain ⟨c, cs, hcandidates⟩ := List.exists_cons_of_ne_nil (candidates_ne_nil hr)
    obtain ⟨best, hbest⟩ : ∃ best, maxBy (aged cfg now) (s.candidates cfg user) = some best :=
      ⟨_, by rw [hcandidates]; rfl⟩
    exact ⟨best, mem_of_maxBy hbest, h best hbest r hr⟩
  · intro hcovered item hitem r hr
    obtain ⟨c, hc, hle⟩ := hcovered r hr
    exact hle.trans (le_maxBy hitem c hc)

/-! ### When the page is enough -/

instance : Std.Total before where
  total a b := by
    rcases lt_trichotomy a.priority b.priority with hlt | heq | hgt
    · exact Or.inr (Or.inl hlt)
    · rcases le_total a.enqueuedAt b.enqueuedAt with hle | hle
      · exact Or.inl (Or.inr ⟨heq, hle⟩)
      · exact Or.inr (Or.inr ⟨heq.symm, hle⟩)
    · exact Or.inl (Or.inl hgt)

instance : IsTrans Row before where
  trans a b c hab hbc := by
    rcases hab with hab | ⟨hab, hab'⟩
    · rcases hbc with hbc | ⟨hbc, -⟩
      · exact Or.inl (hbc.trans hab)
      · exact Or.inl (hbc ▸ hab)
    · rcases hbc with hbc | ⟨hbc, hbc'⟩
      · exact Or.inl (hab ▸ hbc)
      · exact Or.inr ⟨hab.trans hbc, hab'.trans hbc'⟩

theorem aged_mono {a b : Row} (hpriority : a.priority = b.priority) (hfirst : a.enqueuedAt ≤ b.enqueuedAt) (now : ℚ) :
    aged cfg now b ≤ aged cfg now a := by
  rw [aged, aged, effectivePriority, effectivePriority, hpriority]
  split_ifs with hoff
  · exact le_rfl
  · have hpos : (0 : ℚ) ≤ cfg.starvationSec := by exact_mod_cast le_of_lt (not_le.1 hoff)
    have hage : (now - b.enqueuedAt) / cfg.starvationSec ≤ (now - a.enqueuedAt) / cfg.starvationSec :=
      div_le_div_of_nonneg_right (by linarith) hpos
    exact Int.add_le_add_left (min_le_min_right _ (Int.floor_le_floor hage)) _

/-- An item with fewer than 50 others of a higher raw priority is covered by the page. -/
theorem covered_of_few {table : List Row} {user : Option Text} {r : Row} (hr : r ∈ pendingOf table user)
    (hfew : (pendingOf table user).countP (fun x => r.priority < x.priority) < 50) (now : ℚ) :
    ∃ c ∈ selectPending table user, aged cfg now r ≤ aged cfg now c := by
  let sorted := (pendingOf table user).insertionSort before
  have hperm : sorted.Perm (pendingOf table user) := List.perm_insertionSort _ _
  have hpage : selectPending table user = sorted.take 50 := rfl
  rw [hpage]
  by_cases hin : r ∈ sorted.take 50
  · exact ⟨r, hin, le_rfl⟩
  -- the page is full, and not all of it has a higher raw priority
  have hrest : r ∈ sorted.drop 50 := by
    have hmem := hperm.mem_iff.2 hr
    rw [← List.take_append_drop 50 sorted, List.mem_append] at hmem
    exact hmem.resolve_left hin
  have hfull : (sorted.take 50).length = 50 := by
    have hlength := List.length_pos_of_mem hrest
    rw [List.length_drop] at hlength
    rw [List.length_take]
    omega
  obtain ⟨c, hc, hlow⟩ : ∃ c ∈ sorted.take 50, ¬ r.priority < c.priority := by
    by_contra hall
    have hcount : (sorted.take 50).countP (fun x => r.priority < x.priority) = 50 := by
      refine (List.countP_eq_length.2 fun c hc => ?_).trans hfull
      by_contra hnot
      exact hall ⟨c, hc, fun h => hnot (decide_eq_true h)⟩
    have hle := (List.take_sublist 50 sorted).countP_le (p := fun x => r.priority < x.priority)
    rw [hcount, hperm.countP_eq] at hle
    omega
  have hsorted : sorted.Pairwise before := List.pairwise_insertionSort before _
  rw [← List.take_append_drop 50 sorted, List.pairwise_append] at hsorted
  rcases hsorted.2.2 c hc r hrest with hlt | ⟨hsame, hfirst⟩
  · exact absurd hlt hlow
  · exact ⟨c, hc, aged_mono hsame hfirst now⟩

/-! ### An item that is passed over -/

def oldItem : Row where
  queueId := "old".toList
  userId := "u".toList
  priority := 0
  enqueuedAt := 0

/-- An item of priority 1, enqueued after 1000 seconds. -/
def youngItem (i : ℕ) : Row where
  queueId := Nat.toDigits 10 i
  userId := "u".toList
  priority := 1
  enqueuedAt := 1000

/-- The database by itself. -/
def sqlQueue : Settings := { celery := false }

def celeryQueue : Settings := { celery := true }

/-- After 1000 seconds the old item has priority 3; it is behind fifty of priority 1. -/
def crowded : TaskQueue := { table := (List.range 50).map youngItem ++ [oldItem] }

/-- With the sorted set one is enough. -/
def mirrored : TaskQueue where
  table := [oldItem, youngItem 0]
  zset := [("old".toList, 0), ("0".toList, 1)]

theorem crowded_returns : (crowded.dequeueNext sqlQueue none 1000).1 = some (youngItem 0) := by decide +kernel

theorem mirrored_returns : (mirrored.dequeueNext celeryQueue none 1000).1 = some (youngItem 0) := by decide +kernel

/-- A younger item of a lower priority comes first, from the database and from the sorted set. -/
theorem passes_over : (¬ ∀ (cfg : Settings) (s : TaskQueue) (user : Option Text) (now : ℚ), cfg.celery = false →
      s.RespectsAging cfg user now) ∧
    ¬ ∀ (cfg : Settings) (s : TaskQueue) (user : Option Text) (now : ℚ), cfg.celery = true →
      s.RespectsAging cfg user now := by
  constructor
  · intro h
    have hle := h sqlQueue crowded none 1000 rfl _ crowded_returns oldItem (by decide +kernel)
    exact absurd hle (by decide +kernel)
  · intro h
    have hle := h celeryQueue mirrored none 1000 rfl _ mirrored_returns oldItem (by decide +kernel)
    exact absurd hle (by decide +kernel)

/-! ### One consumer -/

section
variable (cfg : Settings)

/-- What comes to a queue with one consumer: each call is through before the next one. -/
inductive Op
  | enqueue (row : Row) (now : ℚ)
  | dequeue (user : Option Text) (now : ℚ)
  /-- `mark_completed`, or `mark_failed`, of one that was handed out. -/
  | finish (i : ℕ) (failed : Bool)

/-- `mark_completed` and `mark_failed`. -/
def TaskQueue.mark (s : TaskQueue) (queueId : Text) (status : Status) : TaskQueue :=
  { s with table := s.table.map fun r => if r.queueId = queueId then { r with status := status } else r }

def TaskQueue.act (s : TaskQueue) : Op → TaskQueue
  | .enqueue row now => (s.step cfg (.insert row)).step cfg (.push now)
  | .dequeue user now => (s.dequeueNext cfg user now).2
  | .finish i failed =>
    match s.handed[i]? with
    | none => s
    | some q => s.mark q (if failed then .failed else .completed)

/-- The items that are pending are those that were not handed out, and none was handed out twice. -/
structure TaskQueue.Accounted (s : TaskQueue) : Prop where
  keys : (s.table.map Row.queueId).Nodup
  handed_nodup : s.handed.Nodup
  handed_subset : s.handed ⊆ s.table.map Row.queueId
  pending_iff : ∀ row ∈ s.table, row.status = .pending ↔ row.queueId ∉ s.handed

end

theorem mem_pendingOf_iff {table : List Row} {user : Option Text} {r : Row} : r ∈ pendingOf table user ↔
    r ∈ table ∧ r.status = .pending ∧ (user.getD [] = [] ∨ r.userId = user.getD []) := by
  rw [pendingOf, List.mem_filter]
  simp

theorem mem_pendingOf_of_candidates {s : TaskQueue} {user : Option Text} {r : Row} (h : r ∈ s.candidates cfg user) :
    r ∈ pendingOf s.table user := by
  rw [TaskQueue.candidates] at h
  split at h
  next row hrow =>
    split_ifs at hrow with hasked
    obtain ⟨q, -, hselect⟩ := Option.bind_eq_some_iff.1 hrow
    have hpending := List.find?_some hselect
    rw [List.mem_singleton.1 h, mem_pendingOf_iff, hasked.2]
    simp only [Bool.and_eq_true, decide_eq_true_eq] at hpending
    exact ⟨mem_of_selectById hselect, hpending.2, .inl rfl⟩
  next => exact mem_pendingOf h

/-- A call marks the row that it returns, and changes no other. -/
theorem dequeueNext_marks (s : TaskQueue) (user : Option Text) (now : ℚ) :
    ((s.dequeueNext cfg user now).1 = none ∧ (s.dequeueNext cfg user now).2.table = s.table ∧
      (s.dequeueNext cfg user now).2.handed = s.handed) ∨
    ∃ row, (s.dequeueNext cfg user now).1 = some row ∧
      (s.dequeueNext cfg user now).2.table = take s.table row.queueId now ∧
      (s.dequeueNext cfg user now).2.handed = row.queueId :: s.handed := by
  have hselected (s' : TaskQueue) (htable : s'.table = s.table) (hhanded : s'.handed = s.handed) :
      ((s'.dequeueSelected cfg user now).1 = none ∧ (s'.dequeueSelected cfg user now).2.table = s.table ∧
        (s'.dequeueSelected cfg user now).2.handed = s.handed) ∨
      ∃ row, (s'.dequeueSelected cfg user now).1 = some row ∧
        (s'.dequeueSelected cfg user now).2.table = take s.table row.queueId now ∧
        (s'.dequeueSelected cfg user now).2.handed = row.queueId :: s.handed := by
    rw [TaskQueue.dequeueSelected]
    cases maxBy (aged cfg now) (selectPending s'.table user) with
    | none => exact .inl ⟨rfl, htable, hhanded⟩
    | some best =>
      rw [← htable, ← hhanded]
      exact .inr ⟨best, rfl, rfl, rfl⟩
  rw [TaskQueue.dequeueNext]
  split_ifs
  · rw [TaskQueue.popHighestPending]
    cases zmax s.zset with
    | none => exact hselected s rfl rfl
    | some q =>
      dsimp only
      rw [TaskQueue.claimById]
      cases selectById s.table q with
      | none => exact hselected _ rfl rfl
      | some row => exact .inr ⟨row, rfl, rfl, rfl⟩
  · exact hselected s rfl rfl

/-- A call returns one of the pending items, and nothing only where there is none. -/
theorem mem_dequeueNext (cfg : Settings) (s : TaskQueue) (user : Option Text) (now : ℚ) :
    ((s.dequeueNext cfg user now).1 = none ↔ pendingOf s.table user = []) ∧
      ∀ item ∈ (s.dequeueNext cfg user now).1, item ∈ pendingOf s.table user := by
  rw [dequeueNext_eq]
  refine ⟨⟨fun hnone => ?_, fun hnil => ?_⟩, fun item hitem => mem_pendingOf_of_candidates (mem_of_maxBy hitem)⟩
  · refine List.eq_nil_iff_forall_not_mem.2 fun r hr => ?_
    obtain ⟨c, cs, hcandidates⟩ := List.exists_cons_of_ne_nil (@candidates_ne_nil cfg _ _ _ hr)
    rw [hcandidates] at hnone
    cases hnone
  · cases hbest : maxBy (aged cfg now) (s.candidates cfg user) with
    | none => rfl
    | some best =>
      have hin := mem_pendingOf_of_candidates (mem_of_maxBy hbest)
      rw [hnil] at hin
      cases hin

theorem TaskQueue.Accounted.congr {s s' : TaskQueue} (h : s.Accounted) (htable : s'.table = s.table)
    (hhanded : s'.handed = s.handed) : s'.Accounted := by
  refine ⟨htable ▸ h.keys, hhanded ▸ h.handed_nodup, ?_, ?_⟩
  · rw [htable, hhanded]
    exact h.handed_subset
  · rw [htable, hhanded]
    exact h.pending_iff

theorem TaskQueue.Accounted.take {s s' : TaskQueue} (h : s.Accounted) {row : Row} (hrow : row ∈ pendingOf s.table none)
    {now : ℚ} (htable : s'.table = Queue.take s.table row.queueId now) (hhanded : s'.handed = row.queueId :: s.handed) :
    s'.Accounted := by
  rw [mem_pendingOf_iff] at hrow
  have hnew := (h.pending_iff row hrow.1).1 hrow.2.1
  refine ⟨?_, ?_, ?_, ?_⟩
  · rw [htable, map_queueId_take]
    exact h.keys
  · rw [hhanded]
    exact List.nodup_cons.2 ⟨hnew, h.handed_nodup⟩
  · rw [hhanded, htable, map_queueId_take]
    exact List.cons_subset.2 ⟨List.mem_map_of_mem hrow.1, h.handed_subset⟩
  · rw [htable, hhanded]
    intro r' hr'
    obtain ⟨r, hr, rfl⟩ := List.mem_map.1 hr'
    have hpending := h.pending_iff r hr
    by_cases hid : r.queueId = row.queueId
    · have hmarked := hpending.2 (hid ▸ hnew)
      simp [hid, hmarked]
    · simp [hid, hpending]

theorem act_enqueue (s : TaskQueue) (row : Row) (now : ℚ) : (s.act cfg (.enqueue row now)).handed = s.handed ∧
    (s.act cfg (.enqueue row now)).table = if row.queueId ∈ s.table.map Row.queueId then s.table
      else s.table ++ [{ row with status := .pending }] := by
  have hpush (s' : TaskQueue) : (s'.step cfg (.push now)).handed = s'.handed ∧
      (s'.step cfg (.push now)).table = s'.table := by
    rw [TaskQueue.step]
    split <;> exact ⟨rfl, rfl⟩
  rw [TaskQueue.act, (hpush _).1, (hpush _).2, TaskQueue.step]
  split_ifs <;> exact ⟨rfl, rfl⟩

theorem TaskQueue.Accounted.mark {s : TaskQueue} (h : s.Accounted) {q : Text} (hq : q ∈ s.handed) {status : Status}
    (hstatus : status ≠ .pending) : (s.mark q status).Accounted := by
  have hids : (s.table.map fun r => if r.queueId = q then { r with status := status } else r).map Row.queueId =
      s.table.map Row.queueId := by
    rw [List.map_map]
    refine List.map_congr_left fun r _ => ?_
    rw [Function.comp_apply]
    split_ifs <;> rfl
  refine ⟨hids.symm ▸ h.keys, h.handed_nodup, fun x hx => hids.symm ▸ h.handed_subset hx, fun r' hr' => ?_⟩
  obtain ⟨r, hr, rfl⟩ := List.mem_map.1 hr'
  by_cases hid : r.queueId = q
  · simp [hid, TaskQueue.mark, hq, hstatus]
  · simpa [hid, TaskQueue.mark] using h.pending_iff r hr

theorem TaskQueue.Accounted.act {s : TaskQueue} (h : s.Accounted) (op : Op) : (s.act cfg op).Accounted := by
  cases op with
  | enqueue row now =>
    obtain ⟨hhanded, htable⟩ := @act_enqueue cfg s row now
    split_ifs at htable with hkey
    · exact h.congr htable hhanded
    · refine ⟨?_, hhanded ▸ h.handed_nodup, ?_, ?_⟩
      · rw [htable, List.map_append]
        exact h.keys.append (List.nodup_singleton _) (List.disjoint_singleton.2 hkey)
      · rw [htable, hhanded, List.map_append]
        exact List.Subset.trans h.handed_subset (List.subset_append_left ..)
      · rw [htable, hhanded]
        intro r hr
        rcases List.mem_append.1 hr with hr | hr
        · exact h.pending_iff r hr
        · rw [List.mem_singleton.1 hr]
          exact ⟨fun _ hin => hkey (h.handed_subset hin), fun _ => rfl⟩
  | dequeue user now =>
    rcases @dequeueNext_marks cfg s user now with ⟨-, htable, hhanded⟩ | ⟨row, hitem, htable, hhanded⟩
    · exact h.congr htable hhanded
    · have hin := (mem_dequeueNext cfg s user now).2 row hitem
      rw [mem_pendingOf_iff] at hin
      exact h.take (mem_pendingOf_iff.2 ⟨hin.1, hin.2.1, .inl rfl⟩) htable hhanded
  | finish i failed =>
    rw [TaskQueue.act]
    cases hi : s.handed[i]? with
    | none => exact h
    | some q => exact h.mark (List.mem_of_getElem? hi) (by cases failed <;> simp)

theorem TaskQueue.Accounted.perm {s : TaskQueue} (h : s.Accounted) :
    (s.handed ++ (pendingOf s.table none).map Row.queueId).Perm (s.table.map Row.queueId) := by
  have hpending : ((pendingOf s.table none).map Row.queueId).Nodup := h.keys.sublist (List.filter_sublist.map _)
  refine (List.perm_ext_iff_of_nodup (h.handed_nodup.append hpending ?_) h.keys).2 fun q => ?_
  · intro q hq hin
    obtain ⟨r, hr, rfl⟩ := List.mem_map.1 hin
    rw [mem_pendingOf_iff] at hr
    exact (h.pending_iff r hr.1).1 hr.2.1 hq
  · rw [List.mem_append]
    constructor
    · rintro (hq | hq)
      · exact h.handed_subset hq
      · exact (List.filter_sublist.map _).subset hq
    · intro hq
      obtain ⟨r, hr, rfl⟩ := List.mem_map.1 hq
      by_cases hhanded : r.queueId ∈ s.handed
      · exact .inl hhanded
      · exact .inr (List.mem_map_of_mem (mem_pendingOf_iff.2 ⟨hr, (h.pending_iff r hr).2 hhanded, .inl rfl⟩))

theorem accounted_run (cfg : Settings) (ops : List Op) : (run (TaskQueue.act cfg) {} ops).Accounted := by
  have hempty : TaskQueue.Accounted {} := ⟨.nil, .nil, List.nil_subset _, nofun⟩
  exact @run_inv _ _ (TaskQueue.act cfg) TaskQueue.Accounted (fun _ => True) (fun _ op hs _ => hs.act op) ops {} hempty
    fun _ _ => trivial

/-- One consumer gets every item once: at any time what was handed out and what is pending are the items of the queue,
    each of them once. A call returns a pending item, of its user if it has one, and nothing only where there is
    none. -/
theorem handed_once (cfg : Settings) (ops : List Op) :
    let s := run (TaskQueue.act cfg) {} ops
    (s.handed ++ (pendingOf s.table none).map Row.queueId).Perm (s.table.map Row.queueId) ∧
      (s.table.map Row.queueId).Nodup ∧
      ∀ user now, ((s.dequeueNext cfg user now).1 = none ↔ pendingOf s.table user = []) ∧
        ∀ item ∈ (s.dequeueNext cfg user now).1, item ∈ pendingOf s.table user := by
  have haccounted := accounted_run cfg ops
  exact ⟨haccounted.perm, haccounted.keys, fun user now => mem_dequeueNext cfg _ user now⟩

/-! ### The poller -/

section
variable (cfg : Settings) (start : Row → Bool)

/-- The loop of `_process_task_queue`, with the times at which it asks the queue; an item whose `start_task` raises is
    failed. -/
def TaskQueue.poll : List ℚ → TaskQueue → TaskQueue
  | [], s => s
  | now :: nows, s =>
    match s.dequeueNext cfg none now with
    | (none, s) => s
    | (some item, s) => poll nows (s.mark item.queueId (if start item then .completed else .failed))

/-- `_process_task_queue`. -/
def TaskQueue.processTaskQueue (s : TaskQueue) (nows : List ℚ) : TaskQueue :=
  if cfg.celery then s else s.poll cfg start nows

/-- What has become of a row: it is as it was, or it was run and has the status of its outcome. -/
def Row.Served (row row' : Row) : Prop :=
  row' = row ∨ row.status = .pending ∧ row'.queueId = row.queueId ∧
    row'.status = if start row then .completed else .failed

/-- So many items have been served, or all that were pending. -/
structure TaskQueue.Polled (n : ℕ) (s s' : TaskQueue) : Prop where
  accounted : s'.Accounted
  served : List.Forall₂ (Row.Served start) s.table s'.table
  left : (pendingOf s'.table none).length = (pendingOf s.table none).length - n

end

section
variable {start : Row → Bool}

theorem Row.Served.trans {a b c : Row} (hab : Row.Served start a b) (hbc : Row.Served start b c) :
    Row.Served start a c := by
  rcases hab with rfl | ⟨hpending, hid, hstatus⟩
  · exact hbc
  · rcases hbc with rfl | ⟨hpending', -, -⟩
    · exact .inr ⟨hpending, hid, hstatus⟩
    · -- what was run is not pending any more
      rw [hstatus] at hpending'
      split_ifs at hpending'

theorem forall₂_served_trans : ∀ {as bs cs : List Row}, List.Forall₂ (Row.Served start) as bs →
    List.Forall₂ (Row.Served start) bs cs → List.Forall₂ (Row.Served start) as cs
  | _, _, _, .nil, .nil => .nil
  | _, _, _, .cons hab has, .cons hbc hbs => .cons (hab.trans hbc) (forall₂_served_trans has hbs)

theorem forall₂_served_refl (rows : List Row) : List.Forall₂ (Row.Served start) rows rows :=
  List.forall₂_same.2 fun _ _ => .inl rfl

theorem TaskQueue.Polled.trans {s s' s'' : TaskQueue} {m n : ℕ} (h : TaskQueue.Polled start m s s')
    (h' : TaskQueue.Polled start n s' s'') : TaskQueue.Polled start (m + n) s s'' where
  accounted := h'.accounted
  served := forall₂_served_trans h.served h'.served
  left := by rw [h'.left, h.left, Nat.sub_sub]

/-- One item of a tick. -/
theorem polled_item {s : TaskQueue} (h : s.Accounted) {now : ℚ} {item : Row}
    (hitem : (s.dequeueNext cfg none now).1 = some item) :
    TaskQueue.Polled start 1 s
      ((s.dequeueNext cfg none now).2.mark item.queueId (if start item then .completed else .failed)) := by
  have hpending := (mem_dequeueNext cfg s none now).2 item hitem
  rcases @dequeueNext_marks cfg s none now with ⟨hnone, -⟩ | ⟨row, hrow, htable, hhanded⟩
  · rw [hnone] at hitem
    cases hitem
  · rw [hitem, Option.some.injEq] at hrow
    subst hrow
    have hin := mem_pendingOf_iff.1 hpending
    have hserved : List.Forall₂ (Row.Served start) s.table ((take s.table item.queueId now).map fun r =>
        if r.queueId = item.queueId then { r with status := if start item then .completed else .failed } else r) := by
      rw [take, List.map_map, List.forall₂_map_right_iff, List.forall₂_same]
      intro r hr
      by_cases hid : r.queueId = item.queueId
      · rw [List.inj_on_of_nodup_map h.keys hr hin.1 hid]
        exact .inr ⟨hin.2.1, by simp [hin.2.1], by simp [hin.2.1]⟩
      · exact .inl (by simp [hid])
    have hafter : ((s.dequeueNext cfg none now).2.mark item.queueId
        (if start item then .completed else .failed)).Accounted :=
      (h.take hpending htable hhanded).mark (by simp [hhanded]) (by split_ifs <;> simp)
    refine ⟨hafter, by rw [TaskQueue.mark, htable]; exact hserved, ?_⟩
    -- one more was handed out, of as many
    have hbefore := h.perm.length_eq
    have hcount := hafter.perm.length_eq
    have hlength := hserved.length_eq
    simp only [TaskQueue.mark, htable, hhanded, List.length_append, List.length_map, List.length_cons]
      at hbefore hcount hlength ⊢
    omega

/-- A call that finds nothing leaves the table, and there was nothing. -/
theorem polled_none {s : TaskQueue} (h : s.Accounted) {now : ℚ} (hnone : (s.dequeueNext cfg none now).1 = none)
    (n : ℕ) : TaskQueue.Polled start n s (s.dequeueNext cfg none now).2 := by
  have hnil := (mem_dequeueNext cfg s none now).1.1 hnone
  rcases @dequeueNext_marks cfg s none now with ⟨-, htable, hhanded⟩ | ⟨row, hrow, -, -⟩
  · refine ⟨h.congr htable hhanded, ?_, ?_⟩
    · rw [htable]
      exact forall₂_served_refl _
    · rw [htable, hnil, List.length_nil, Nat.zero_sub]
  · rw [hnone] at hrow
    cases hrow

/-- A tick serves as many items as it may, or all that are pending. -/
theorem polled_poll : ∀ (nows : List ℚ) {s : TaskQueue}, s.Accounted →
    TaskQueue.Polled start nows.length s (s.poll cfg start nows)
  | [], s, h => ⟨h, forall₂_served_refl _, rfl⟩
  | now :: nows, s, h => by
    rw [TaskQueue.poll, List.length_cons, Nat.add_comm]
    split
    next s' hcall =>
      have hnone := @polled_none _ start _ h _ (congrArg Prod.fst hcall) (1 + nows.length)
      rwa [hcall] at hnone
    next item s' hcall =>
      have hitem := @polled_item _ start _ h _ _ (congrArg Prod.fst hcall)
      rw [hcall] at hitem
      exact hitem.trans (polled_poll nows hitem.accounted)

theorem polled_run (hcelery : cfg.celery = false) : ∀ (ticks : List (List ℚ)) {s : TaskQueue}, s.Accounted →
    TaskQueue.Polled start (ticks.map List.length).sum s (run (TaskQueue.processTaskQueue cfg start) s ticks)
  | [], s, h => ⟨h, forall₂_served_refl _, rfl⟩
  | nows :: ticks, s, h => by
    have htick : TaskQueue.Polled start nows.length s (s.processTaskQueue cfg start nows) := by
      rw [TaskQueue.processTaskQueue, hcelery]
      exact polled_poll nows h
    rw [List.map_cons, List.sum_cons]
    exact htick.trans (polled_run hcelery ticks htick.accounted)

end

/-- Whatever has come to a queue before, some ticks of the poller serve as many items as they may take together, or all
    that are pending: each of these is run once and keeps the status of its outcome, and no other item is changed. -/
theorem ticks_serve (cfg : Settings) (hcelery : cfg.celery = false) (start : Row → Bool) (ops : List Op)
    (ticks : List (List ℚ)) :
    let s := run (TaskQueue.act cfg) {} ops
    let s' := run (TaskQueue.processTaskQueue cfg start) s ticks
    List.Forall₂ (Row.Served start) s.table s'.table ∧
      (pendingOf s'.table none).length = (pendingOf s.table none).length - (ticks.map List.length).sum := by
  have hpolled := @polled_run _ start hcelery ticks _ (accounted_run cfg ops)
  exact ⟨hpolled.served, hpolled.left⟩

/-- A tick of two items leaves one of three. -/
theorem ticks_serve_two : (pendingOf (run (TaskQueue.processTaskQueue sqlQueue fun row => row.queueId ≠ "old".toList)
    (run (TaskQueue.act sqlQueue) {} [.enqueue oldItem 0, .enqueue (youngItem 0) 0, .enqueue (youngItem 1) 0])
    [[1000, 1001]]).table none).length = 1 := by
  have h := ticks_serve sqlQueue rfl (fun row => row.queueId ≠ "old".toList)
    [.enqueue oldItem 0, .enqueue (youngItem 0) 0, .enqueue (youngItem 1) 0] [[1000, 1001]]
  rw [h.2]
  rfl

end AgentLangraph.Queue
