import AgentLangraph.Lib.Keyset
import AgentLangraph.Lib.PyVal
import AgentLangraph.Lib.Trace

/-! The events of the messages of one task, as `ChatMessageStore` keeps them: a table with
    `UNIQUE (task_id, seq)`, its next sequence number, and the two ways to read it. -/

namespace AgentLangraph.Events
open PyText

/-- A row of `chat_message_events`. -/
structure Event where
  messageId : Text
  seq : ℤ
  eventType : Text
  delta : Text
  metaJson : Fields
  deriving DecidableEq

/-- The rows of the task, in the order in which they were stored. -/
structure EventLog where
  rows : List Event
  unique : (rows.map Event.seq).Nodup

namespace EventLog

/-- `SELECT COALESCE(MAX(seq), 0) + 1`. -/
def nextEventSeq (log : EventLog) : ℤ := (log.rows.map Event.seq).max?.getD 0 + 1

/-- A plain `INSERT`; nothing where it raises `IntegrityError`. -/
def appendEvent (log : EventLog) (e : Event) : Option EventLog :=
  if h : e.seq ∈ log.rows.map Event.seq then none
  else some ⟨log.rows ++ [e], by
    rw [List.map_append, List.map_singleton]
    exact (List.nodup_middle.2 (List.nodup_cons.2 ⟨by simpa using h, by simpa using log.unique⟩))⟩

/-- `seq > after_seq ORDER BY seq ASC LIMIT limit`. -/
def listEvents (log : EventLog) (afterSeq : ℤ) (limit : ℕ) : List Event :=
  Keyset.page Event.seq log.rows afterSeq limit

/-- The stored events with `lo < seq <= hi`, in the order of their numbers. -/
def between (log : EventLog) (lo hi : ℤ) : List Event := Keyset.between Event.seq log.rows lo hi

/-- `list_events_json`. -/
structure EventsPage where
  afterSeq : ℤ
  events : List Event
  lastEventSeq : ℤ
  hasMore : Bool

def listEventsJson (log : EventLog) (afterSeq : ℤ) (limit : ℕ) : EventsPage :=
  let events := log.listEvents afterSeq limit
  { afterSeq := afterSeq
    events := events
    lastEventSeq := Keyset.cursor Event.seq afterSeq events
    hasMore := decide (limit ≤ events.length) }

theorem appendEvent_eq_some {log log' : EventLog} {e : Event} (h : log.appendEvent e = some log') :
    e.seq ∉ log.rows.map Event.seq ∧ log'.rows = log.rows ++ [e] := by
  rw [appendEvent] at h
  split_ifs at h with hclash
  rw [Option.some.injEq] at h
  exact ⟨hclash, by rw [← h]⟩

/-- The next number is above every number of the log. -/
theorem lt_nextEventSeq {log : EventLog} {e : Event} (h : e ∈ log.rows) :
    e.seq < log.nextEventSeq := by
  have hmem : e.seq ∈ log.rows.map Event.seq := List.mem_map_of_mem h
  rw [nextEventSeq]
  cases hmax : (log.rows.map Event.seq).max? with
  | none => simp [List.max?_eq_none_iff.1 hmax] at hmem
  | some m =>
    have hle := (List.max?_eq_some_iff.1 hmax).2 _ hmem
    simp only [Option.getD_some]
    omega

/-- A page that is not full has all events after its start. -/
theorem mem_of_not_hasMore {log : EventLog} {afterSeq : ℤ} {limit : ℕ}
    (h : (log.listEventsJson afterSeq limit).hasMore = false) {e : Event} (he : e ∈ log.rows)
    (hafter : afterSeq < e.seq) : e ∈ (log.listEventsJson afterSeq limit).events := by
  have hshort := of_decide_eq_false h
  have hlength := Keyset.length_page Event.seq log.rows afterSeq limit
  change e ∈ Keyset.page Event.seq log.rows afterSeq limit
  change ¬ limit ≤ (Keyset.page Event.seq log.rows afterSeq limit).length at hshort
  rw [Keyset.page, List.take_of_length_le]
  · simp [Keyset.mem_sorted, he, hafter]
  · rw [Keyset.sorted, List.length_insertionSort, ← List.countP_eq_length_filter]
    omega

end EventLog

/-! ### Readers

    A reader takes page after page, each behind the last event that it has: `fetchAllSessionEvents` and the resumed
    stream of the client, which may break off in the middle of a page, and the loops of `chat_message_service.py`.
    Between two pages the run may store events. -/

structure Reader where
  log : EventLog
  lastSeq : ℤ
  got : List Event

inductive ReaderMove
  | append (e : Event)
  /-- A page is read, and so many of its events arrive. -/
  | read (limit arrived : ℕ)

def Reader.start (log : EventLog) (afterSeq : ℤ) : Reader := { log := log, lastSeq := afterSeq, got := [] }

def Reader.step (r : Reader) : ReaderMove → Reader
  | .append e => { r with log := (r.log.appendEvent e).getD r.log }
  | .read limit arrived =>
    let events := (r.log.listEventsJson r.lastSeq limit).events.take arrived
    { r with lastSeq := Keyset.cursor Event.seq r.lastSeq events, got := r.got ++ events }

/-- The reader has the stored events up to its last number, each once and in order, and a page that is not full
    brings all that is missing. -/
structure Reader.Whole (afterSeq : ℤ) (r : Reader) : Prop where
  le : afterSeq ≤ r.lastSeq
  got : r.got = r.log.between afterSeq r.lastSeq
  rest : ∀ limit, (r.log.listEventsJson r.lastSeq limit).hasMore = false →
    ∀ e ∈ r.log.rows, afterSeq < e.seq → e ∈ r.got ++ (r.log.listEventsJson r.lastSeq limit).events

/-- No event is stored behind the reader. -/
def Reader.Ahead (afterSeq : ℤ) (r : Reader) : ReaderMove → Prop
  | .append e => e.seq ∈ r.log.rows.map Event.seq ∨ e.seq ≤ afterSeq ∨ r.lastSeq < e.seq
  | .read _ _ => True

theorem Reader.whole_of {afterSeq : ℤ} {r : Reader} (hle : afterSeq ≤ r.lastSeq)
    (hgot : r.got = r.log.between afterSeq r.lastSeq) : r.Whole afterSeq := by
  refine ⟨hle, hgot, fun limit hshort e he hafter => ?_⟩
  rw [List.mem_append, hgot, EventLog.between, Keyset.mem_between]
  rcases le_or_gt e.seq r.lastSeq with hbehind | hahead
  · exact Or.inl ⟨he, hafter, hbehind⟩
  · exact Or.inr (EventLog.mem_of_not_hasMore hshort he hahead)

theorem Reader.whole_start (log : EventLog) (afterSeq : ℤ) : (Reader.start log afterSeq).Whole afterSeq :=
  whole_of le_rfl (Keyset.between_self log.rows afterSeq).symm

/-- A part of a page is a shorter page. -/
theorem Reader.Whole.read {afterSeq : ℤ} {r : Reader} (h : r.Whole afterSeq) (limit arrived : ℕ) :
    (r.step (.read limit arrived)).Whole afterSeq := by
  have hpart : (r.log.listEventsJson r.lastSeq limit).events.take arrived =
      Keyset.page Event.seq r.log.rows r.lastSeq (min arrived limit) := List.take_take
  have hle := Keyset.le_cursor_page Event.seq r.log.rows r.lastSeq (min arrived limit)
  have hpage := Keyset.page_eq_between r.log.unique r.lastSeq (min arrived limit)
  rw [Reader.step, hpart]
  refine whole_of (h.le.trans hle) ?_
  change r.got ++ _ = Keyset.between Event.seq r.log.rows afterSeq _
  rw [← Keyset.between_append r.log.unique h.le hle, ← hpage]
  exact congrArg (· ++ _) h.got

theorem Reader.Whole.append_iff {afterSeq : ℤ} {r : Reader} (h : r.Whole afterSeq) (e : Event) :
    (r.step (.append e)).Whole afterSeq ↔ r.Ahead afterSeq (.append e) := by
  rw [Reader.step, Reader.Ahead, EventLog.appendEvent]
  by_cases hclash : e.seq ∈ r.log.rows.map Event.seq
  · rw [dif_pos hclash]
    exact iff_of_true h (Or.inl hclash)
  rw [dif_neg hclash, or_iff_right hclash]
  constructor
  · intro hwhole
    by_contra hbehind
    rw [not_or, not_le, not_lt] at hbehind
    -- it is stored behind the reader, which does not have it
    have hmem : e ∈ r.got := by
      have hgot : r.got = Keyset.between Event.seq (r.log.rows ++ [e]) afterSeq r.lastSeq := hwhole.got
      rw [hgot, Keyset.mem_between]
      exact ⟨by simp, hbehind⟩
    rw [h.got, EventLog.between, Keyset.mem_between] at hmem
    exact hclash (List.mem_map_of_mem hmem.1)
  · intro hahead
    refine whole_of h.le (h.got.trans (Keyset.between_concat r.log.rows ?_).symm)
    omega

/-- STEP: a reader that has everything up to its last number keeps it so exactly when nothing is stored behind it. -/
theorem Reader.Whole.step_iff {afterSeq : ℤ} {r : Reader} (h : r.Whole afterSeq) (m : ReaderMove) :
    (r.step m).Whole afterSeq ↔ r.Ahead afterSeq m := by
  cases m with
  | append e => exact h.append_iff e
  | read limit arrived => exact iff_of_true (h.read limit arrived) trivial

/-- RUN: however the pages are cut and wherever they break off, a reader has exactly the stored events up to its last
    number, in order and each once, as long as no event is stored behind it, and no longer. -/
theorem reads_on_iff (log : EventLog) (afterSeq : ℤ) (trace : List ReaderMove) :
    Trace.Along Reader.step (fun r m => (r.step m).Whole afterSeq) (.start log afterSeq) trace ↔
      Trace.Along Reader.step (Reader.Ahead afterSeq) (.start log afterSeq) trace :=
  Trace.along_iff (fun _ m h => Reader.Whole.step_iff h m) (fun _ m h hm => (Reader.Whole.step_iff h m).2 hm) trace _
    (Reader.whole_start log afterSeq)

end AgentLangraph.Events
