import AgentLangraph.Lib.PyText
import AgentLangraph.Lib.Party
import Mathlib.Algebra.Order.Floor.Defs
import Mathlib.Data.Rat.Floor
import Mathlib.Data.List.Sort

/-! The task queue (`task_queue_store.py`, `celery_queue.py`, `queue_priority.py`). An item is a row
    of the database and, with the Celery backend, a member of a sorted set. A worker chooses an item
    with one statement and marks it as taken with another; each statement is a step, and the steps of
    the workers come in any order.

        popping ─▶ claiming q ─▶ taking row ─▶ returned (some row)
           └──────▶ selecting ─────┘  └──────▶ returned none -/

namespace AgentLangraph.Queue
open PyText

inductive Status
  | pending | running | completed | failed
  deriving DecidableEq

/-- A row of `task_queue`; times are seconds. -/
structure Row where
  queueId : Text
  userId : Text
  taskType : Text := []
  inputPayload : Text := []
  priority : ℤ := 0
  status : Status := .pending
  source : Text := []
  sourceRef : Option Text := none
  enqueuedAt : ℚ
  startedAt : Option ℚ := none
  deriving DecidableEq

structure Settings where
  /-- `QUEUE_BACKEND` is `celery`, and its Redis is there. -/
  celery : Bool
  starvationSec : ℤ := 300
  starvationMaxBoost : ℤ := 3

/-- `effective_priority`: the longer an item waits the higher. -/
def effectivePriority (cfg : Settings) (now : ℚ) (priority : ℤ) (enqueuedAt : ℚ) : ℤ :=
  if cfg.starvationSec ≤ 0 then priority
  else priority + min ⌊(now - enqueuedAt) / cfg.starvationSec⌋ cfg.starvationMaxBoost

/-! ### The statements -/

/-- `ORDER BY priority DESC, enqueued_at ASC`. -/
def before (a b : Row) : Prop :=
  b.priority < a.priority ∨ (a.priority = b.priority ∧ a.enqueuedAt ≤ b.enqueuedAt)

instance : DecidableRel before := fun _ _ => inferInstanceAs (Decidable (_ ∨ _))

/-- The `SELECT` of the pending items, of one user if one is given. -/
def selectPending (table : List Row) (user : Option Text) : List Row :=
  let rows := table.filter fun r =>
    r.status = .pending && ((user.getD []) = [] || r.userId = user.getD [])
  (rows.insertionSort before).take 50

/-- `max(rows, key=...)`: the first of the largest. -/
def maxBy (key : Row → ℤ) : List Row → Option Row
  | [] => none
  | r :: rows => some (rows.foldl (fun best x => if key best < key x then x else best) r)

/-- The `SELECT` of a pending item by its key. -/
def selectById (table : List Row) (queueId : Text) : Option Row :=
  table.find? fun r => r.queueId = queueId && r.status = .pending

/-- `UPDATE ... SET status = 'RUNNING' ... WHERE queue_id = ? AND status = 'PENDING'`. -/
def take (table : List Row) (queueId : Text) (now : ℚ) : List Row :=
  table.map fun r =>
    if r.queueId = queueId ∧ r.status = .pending then
      { r with status := .running, startedAt := some now }
    else r

/-- How many rows that `UPDATE` changes. -/
def taken (table : List Row) (queueId : Text) : ℕ :=
  table.countP fun r => r.queueId = queueId && r.status = .pending

/-- `zadd`. -/
def zadd (zset : List (Text × ℤ)) (queueId : Text) (score : ℤ) : List (Text × ℤ) :=
  zset.filter (fun e => e.1 ≠ queueId) ++ [(queueId, score)]

/-- The member that `zpopmax` takes: the highest score, of these the last by name. -/
def zmax : List (Text × ℤ) → Option Text
  | [] => none
  | e :: es =>
    some (es.foldl (fun best x =>
      if best.2 < x.2 ∨ (best.2 = x.2 ∧ best.1 < x.1) then x else best) e).1

/-! ### Workers -/

inductive Phase
  | popping
  | claiming (queueId : Text)
  | selecting
  /-- A row was read as pending and is to be marked as taken. -/
  | taking (row : Row)
  | returned (item : Option Row)
  deriving DecidableEq

/-- A call of `dequeue_next`. -/
structure Worker where
  user : Option Text
  phase : Phase
  deriving DecidableEq

structure TaskQueue where
  table : List Row := []
  zset : List (Text × ℤ) := []
  /-- Rows that `enqueue` has inserted and not yet pushed. -/
  unpushed : List Row := []
  workers : List Worker := []
  /-- The keys of the items that were returned, the last one first. -/
  handed : List Text := []
  deriving DecidableEq

inductive Event
  /-- The `INSERT` of `enqueue`. -/
  | insert (row : Row)
  /-- The first push that is due. -/
  | push (now : ℚ)
  | dequeue (user : Option Text)
  /-- The next statement of a worker. -/
  | step (i : ℕ) (now : ℚ)
  deriving DecidableEq

variable (cfg : Settings)

def firstPhase (user : Option Text) : Phase :=
  if cfg.celery ∧ user = none then .popping else .selecting

/-- The statement of a worker: the queue without its workers, and the phase after it. -/
def TaskQueue.statement (s : TaskQueue) (w : Worker) (now : ℚ) : TaskQueue × Phase :=
  match w.phase with
  | .popping =>
    match zmax s.zset with
    | none => (s, .selecting)
    | some q => ({ s with zset := s.zset.filter fun e => e.1 ≠ q }, .claiming q)
  | .claiming q =>
    match selectById s.table q with
    | none => (s, .selecting)
    | some row => (s, .taking row)
  | .selecting =>
    let key := fun r : Row => effectivePriority cfg now r.priority r.enqueuedAt
    match maxBy key (selectPending s.table w.user) with
    | none => (s, .returned none)
    | some best => (s, .taking best)
  | .taking row =>
    ({ s with table := take s.table row.queueId now, handed := row.queueId :: s.handed },
      .returned (some row))
  | .returned item => (s, .returned item)

/-- The key of a row is the primary key, so a second row of that key is an error. -/
def TaskQueue.step (s : TaskQueue) : Event → TaskQueue
  | .insert row =>
    if row.queueId ∈ s.table.map Row.queueId then s
    else
      { s with
        table := s.table ++ [{ row with status := .pending }]
        unpushed := if cfg.celery then s.unpushed ++ [row] else s.unpushed }
  | .push now =>
    match s.unpushed with
    | [] => s
    | row :: rows =>
      { s with
        zset := zadd s.zset row.queueId (effectivePriority cfg now row.priority row.enqueuedAt)
        unpushed := rows }
  | .dequeue user =>
    { s with workers := s.workers ++ [{ user := user, phase := firstPhase cfg user }] }
  | .step i now =>
    match s.workers[i]? with
    | none => s
    | some w =>
      let next := s.statement cfg w now
      { next.1 with workers := s.workers.set i { w with phase := next.2 } }

end AgentLangraph.Queue
