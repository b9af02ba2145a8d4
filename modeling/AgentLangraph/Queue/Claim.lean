import AgentLangraph.Queue.Store
import AgentLangraph.Lib.Trace

/-! Whether an item of the queue is handed out once. What a worker returns is the row it has read,
    whether or not its `UPDATE` has changed that row: two workers that read the same row before either
    marks it both return it. -/

namespace AgentLangraph.Queue
open PyText Trace Party

variable (cfg : Settings)

/-- No item is handed out twice, and what is handed out is marked as taken. -/
def TaskQueue.Once (s : TaskQueue) : Prop :=
  s.handed.Nodup ∧ ∀ row ∈ s.table, row.queueId ∈ s.handed → row.status = .running

/-- The `UPDATE` that a worker comes to changes a row. -/
def TaskQueue.Claims (s : TaskQueue) : Event → Prop
  | .step i _ => ∀ w ∈ s.workers[i]?, ∀ row, w.phase = .taking row →
    0 < taken s.table row.queueId
  | _ => True

/-- The pending rows are those that were not handed out. -/
structure TaskQueue.Sound (s : TaskQueue) : Prop where
  keys : (s.table.map Row.queueId).Nodup
  pending : ∀ row ∈ s.table, row.queueId ∉ s.handed → row.status = .pending
  running : ∀ row ∈ s.table, row.queueId ∈ s.handed → row.status = .running
  handed : ∀ q ∈ s.handed, q ∈ s.table.map Row.queueId
  taking : ∀ w ∈ s.workers, ∀ row, w.phase = .taking row → row.queueId ∈ s.table.map Row.queueId

variable {cfg}

/-! ### What the statements read -/

theorem mem_of_selectById {table : List Row} {q : Text} {row : Row}
    (h : selectById table q = some row) : row ∈ table := List.mem_of_find?_eq_some h

theorem mem_of_selectPending {table : List Row} {user : Option Text} {row : Row}
    (h : row ∈ selectPending table user) : row ∈ table := by
  have hsorted := List.mem_of_mem_take h
  rw [(List.perm_insertionSort _ _).mem_iff] at hsorted
  exact List.mem_of_mem_filter hsorted

theorem mem_of_maxBy {key : Row → ℤ} : ∀ {rows : List Row} {best : Row},
    maxBy key rows = some best → best ∈ rows
  | r :: rows, best, h => by
      have hfold : ∀ (rows : List Row) (r : Row),
          rows.foldl (fun best x => if key best < key x then x else best) r ∈ r :: rows := by
        intro rows
        induction rows with
        | nil => intro r; exact List.mem_singleton.2 rfl
        | cons x rows ih =>
          intro r
          rw [List.foldl_cons]
          split_ifs
          · exact List.mem_cons_of_mem _ (ih x)
          · rcases List.mem_cons.1 (ih r) with hr | hr
            · rw [hr]
              exact List.mem_cons_self
            · exact List.mem_cons_of_mem _ (List.mem_cons_of_mem _ hr)
      rw [maxBy, Option.some.injEq] at h
      exact h ▸ hfold rows r

theorem map_queueId_take (table : List Row) (q : Text) (now : ℚ) :
    (take table q now).map Row.queueId = table.map Row.queueId := by
  rw [take, List.map_map]
  refine List.map_congr_left fun r _ => ?_
  rw [Function.comp_apply]
  split_ifs <;> rfl

/-- An `UPDATE` changes a row exactly when the item was not handed out. -/
theorem taken_pos_iff {s : TaskQueue} (h : s.Sound) {q : Text}
    (hq : q ∈ s.table.map Row.queueId) : 0 < taken s.table q ↔ q ∉ s.handed := by
  rw [taken, List.countP_pos_iff]
  constructor
  · rintro ⟨row, hrow, hpending⟩ hhanded
    simp only [Bool.and_eq_true, decide_eq_true_eq] at hpending
    have hrunning := h.running row hrow (hpending.1 ▸ hhanded)
    rw [hpending.2] at hrunning
    cases hrunning
  · intro hnot
    obtain ⟨row, hrow, rfl⟩ := List.mem_map.1 hq
    exact ⟨row, hrow, by simp [h.pending row hrow hnot]⟩

variable (cfg) in
/-- A statement reads, and may choose a row of the table; or it marks the row that it chose. -/
theorem statement_cases (s : TaskQueue) (w : Worker) (now : ℚ) :
    ((∀ row, w.phase ≠ .taking row) ∧ (s.statement cfg w now).1.table = s.table ∧
        (s.statement cfg w now).1.handed = s.handed ∧
        ∀ row, (s.statement cfg w now).2 = .taking row → row ∈ s.table) ∨
      ∃ row, w.phase = .taking row ∧
        s.statement cfg w now = ({ s with
          table := take s.table row.queueId now
          handed := row.queueId :: s.handed }, .returned (some row)) := by
  rw [TaskQueue.statement]
  cases hphase : w.phase with
  | popping =>
    left
    dsimp only
    cases zmax s.zset <;> exact ⟨by simp, rfl, rfl, fun row h => by cases h⟩
  | claiming q =>
    left
    dsimp only
    cases hread : selectById s.table q with
    | none => exact ⟨by simp, rfl, rfl, fun row h => by cases h⟩
    | some found =>
      refine ⟨by simp, rfl, rfl, fun row h => ?_⟩
      obtain rfl : found = row := by simpa using h
      exact mem_of_selectById hread
  | selecting =>
    left
    dsimp only
    cases hread : maxBy (fun r => effectivePriority cfg now r.priority r.enqueuedAt)
        (selectPending s.table w.user) with
    | none => exact ⟨by simp, rfl, rfl, fun row h => by cases h⟩
    | some found =>
      refine ⟨by simp, rfl, rfl, fun row h => ?_⟩
      obtain rfl : found = row := by simpa using h
      exact mem_of_selectPending (mem_of_maxBy hread)
  | taking row => exact Or.inr ⟨row, rfl, rfl⟩
  | returned item => exact Or.inl ⟨by simp, rfl, rfl, fun row h => by cases h⟩

theorem step_step {s : TaskQueue} {i : ℕ} {w : Worker} (h : s.workers[i]? = some w) (now : ℚ) :
    s.step cfg (.step i now) = { (s.statement cfg w now).1 with
      workers := s.workers.set i { w with phase := (s.statement cfg w now).2 } } := by
  simp only [TaskQueue.step, h]

theorem step_step_none {s : TaskQueue} {i : ℕ} (h : s.workers[i]? = none) (now : ℚ) :
    s.step cfg (.step i now) = s := by
  simp only [TaskQueue.step, h]

/-! ### The rows and what was handed out -/

theorem TaskQueue.Sound.insert {s : TaskQueue} (h : s.Sound) {row : Row}
    (hkey : row.queueId ∉ s.table.map Row.queueId) (unpushed : List Row) :
    { s with table := s.table ++ [{ row with status := .pending }],
             unpushed := unpushed : TaskQueue }.Sound := by
  have hmem : ∀ q ∈ s.table.map Row.queueId,
      q ∈ (s.table ++ [{ row with status := .pending }]).map Row.queueId := fun q hq => by
    rw [List.map_append]
    exact List.mem_append_left _ hq
  refine ⟨?_, ?_, ?_, fun q hq => hmem q (h.handed q hq),
    fun w hw r hr => hmem _ (h.taking w hw r hr)⟩
  · rw [List.map_append, List.nodup_append]
    refine ⟨h.keys, List.nodup_singleton _, fun q hq q' hq' => ?_⟩
    rw [List.map_cons, List.map_nil, List.mem_singleton] at hq'
    rintro rfl
    exact hkey (hq' ▸ hq)
  · intro r hr hnot
    rcases List.mem_append.1 hr with hr | hr
    · exact h.pending r hr hnot
    · rw [List.mem_singleton.1 hr]
  · intro r hr hhanded
    rcases List.mem_append.1 hr with hr | hr
    · exact h.running r hr hhanded
    · -- A key that is new was never handed out.
      rw [List.mem_singleton.1 hr] at hhanded
      exact absurd (h.handed _ hhanded) hkey

theorem TaskQueue.Sound.take {s : TaskQueue} (h : s.Sound) {q : Text}
    (hq : q ∈ s.table.map Row.queueId) (now : ℚ) :
    { s with table := Queue.take s.table q now, handed := q :: s.handed : TaskQueue }.Sound := by
  have hrow : ∀ r' ∈ Queue.take s.table q now, ∃ r ∈ s.table, r'.queueId = r.queueId ∧
      r'.status = if r.queueId = q ∧ r.status = .pending then .running else r.status := by
    intro r' hr'
    obtain ⟨r, hr, rfl⟩ := List.mem_map.1 hr'
    refine ⟨r, hr, ?_⟩
    split_ifs <;> exact ⟨rfl, rfl⟩
  refine ⟨?_, ?_, ?_, ?_, ?_⟩
  · rw [map_queueId_take]
    exact h.keys
  · intro r' hr' hnot
    obtain ⟨r, hr, hkey, hstatus⟩ := hrow r' hr'
    rw [hkey, List.mem_cons, not_or] at hnot
    rw [hstatus, if_neg (by simp [hnot.1])]
    exact h.pending r hr hnot.2
  · intro r' hr' hhanded
    obtain ⟨r, hr, hkey, hstatus⟩ := hrow r' hr'
    rw [hkey, List.mem_cons] at hhanded
    rw [hstatus]
    split_ifs with hmarked
    · rfl
    · by_cases hbefore : r.queueId ∈ s.handed
      · exact h.running r hr hbefore
      · have hpending := h.pending r hr hbefore
        exact absurd ⟨hhanded.resolve_right hbefore, hpending⟩ hmarked
  · intro q' hq'
    rw [map_queueId_take]
    rcases List.mem_cons.1 hq' with rfl | hq'
    · exact hq
    · exact h.handed q' hq'
  · intro w hw r hr
    rw [map_queueId_take]
    exact h.taking w hw r hr

theorem TaskQueue.Sound.step {s : TaskQueue} (h : s.Sound) (e : Event) : (s.step cfg e).Sound := by
  cases e with
  | insert row =>
    rw [TaskQueue.step]
    by_cases hkey : row.queueId ∈ s.table.map Row.queueId
    · rw [if_pos hkey]
      exact h
    · rw [if_neg hkey]
      exact h.insert hkey _
  | push now =>
    rw [TaskQueue.step]
    cases s.unpushed with
    | nil => exact h
    | cons row rows => exact ⟨h.keys, h.pending, h.running, h.handed, h.taking⟩
  | dequeue user =>
    refine ⟨h.keys, h.pending, h.running, h.handed, fun w hw row hrow => ?_⟩
    rcases List.mem_append.1 hw with hw | hw
    · exact h.taking w hw row hrow
    · rw [List.mem_singleton.1 hw] at hrow
      simp only [firstPhase] at hrow
      split_ifs at hrow
  | step i now =>
    cases hi : s.workers[i]? with
    | none =>
      rw [step_step_none hi]
      exact h
    | some w =>
      rw [step_step hi]
      rcases statement_cases cfg s w now with
        ⟨-, htable, hhanded, hchosen⟩ | ⟨row, hw, hnext⟩
      · refine ⟨?_, ?_, ?_, ?_, ?_⟩ <;> simp only [htable, hhanded]
        · exact h.keys
        · exact h.pending
        · exact h.running
        · exact h.handed
        · refine forall_set h.taking fun row hrow => ?_
          exact List.mem_map_of_mem (hchosen row hrow)
      · have hrow := h.taking w (List.mem_of_getElem? hi) row hw
        have htake := h.take hrow now
        rw [hnext]
        refine ⟨htake.keys, htake.pending, htake.running, htake.handed, ?_⟩
        exact forall_set htake.taking fun r hr => by cases hr

/-! ### Handed out once -/

theorem once_step_iff {s : TaskQueue} (h : s.Sound) (honce : s.handed.Nodup) (e : Event) :
    (s.step cfg e).Once ↔ s.Claims e := by
  have hsound : (s.step cfg e).Sound := h.step e
  have hrunning : (s.step cfg e).Once ↔ (s.step cfg e).handed.Nodup :=
    and_iff_left hsound.running
  rw [hrunning]
  cases e with
  | insert row =>
    rw [TaskQueue.step]
    split_ifs <;> exact iff_of_true honce trivial
  | push now =>
    rw [TaskQueue.step]
    cases s.unpushed <;> exact iff_of_true honce trivial
  | dequeue user => exact iff_of_true honce trivial
  | step i now =>
    rw [TaskQueue.Claims]
    cases hi : s.workers[i]? with
    | none =>
      rw [step_step_none hi]
      exact iff_of_true honce (by simp)
    | some w =>
      simp only [Option.mem_some_iff, forall_eq']
      rcases statement_cases cfg s w now with ⟨hnone, -, hhanded, -⟩ | ⟨row, hw, hnext⟩
      · rw [step_step hi]
        dsimp only
        rw [hhanded]
        exact iff_of_true honce fun row hrow => absurd hrow (hnone row)
      · have hrow := h.taking w (List.mem_of_getElem? hi) row hw
        rw [step_step hi, hnext]
        dsimp only
        rw [List.nodup_cons, and_iff_left honce, ← taken_pos_iff h hrow, hw]
        simp

/-- Every item is handed out once exactly when every `UPDATE` that a worker comes to changes a row,
    that is, none comes after that of another worker which read the same row. -/
theorem once_iff (cfg : Settings) (trace : List Event) :
    Along (TaskQueue.step cfg) (fun s e => (s.step cfg e).Once) {} trace ↔
      Along (TaskQueue.step cfg) TaskQueue.Claims {} trace := by
  refine along_iff (I := fun s => s.Sound ∧ s.handed.Nodup)
    (fun s e h => once_step_iff h.1 h.2 e)
    (fun s e h hclaims => ⟨h.1.step e, ((once_step_iff h.1 h.2 e).2 hclaims).1⟩) trace _ ?_
  exact ⟨⟨List.nodup_nil, by simp, by simp, by simp, by simp⟩, List.nodup_nil⟩

def oneItem : Row := { queueId := "q1".toList, userId := "u1".toList, enqueuedAt := 0 }

/-- Two workers, of which both read before either marks. -/
def twoWorkers : List Event :=
  [.insert oneItem, .dequeue none, .dequeue none, .step 0 1, .step 1 1, .step 0 2, .step 1 2]

def sqlite : Settings := { celery := false }

/-- Both return the same item. -/
theorem twoWorkers_return_same :
    ¬ Along (TaskQueue.step sqlite) (fun s e => (s.step sqlite e).Once) {} twoWorkers := by
  rintro ⟨-, -, -, -, -, -, hlast, -⟩
  exact absurd hlast.1 (by decide +kernel)

end AgentLangraph.Queue
