import AgentLangraph.Events.Store
import AgentLangraph.Lib.Trace
import Mathlib.Data.Rat.Defs

/-! `iter_resumed_sse`, which replays the stored events to a client that has come back. It reads the
    events in pages; the number that it reports at the end comes from a read of its own. Between any
    two of its statements the run may store events. -/

namespace AgentLangraph.Events
open Trace

/-- The arguments of `iter_resumed_sse`. -/
structure Request where
  afterSeq : ℤ
  tailLive : Bool
  maxTailSeconds : ℚ

/-- What a poll of a tail sees: the registry, the live entry of the task and the time. -/
structure Poll where
  graphActive : Bool
  live : Option Bool
  elapsed : ℚ

inductive Phase
  | paging
  | polling
  | viewing
  | counting
  | ended (lastEventSeq : ℤ)
  deriving DecidableEq

/-- The generator, with the log that it reads. -/
structure Replay where
  log : EventLog
  cursor : ℤ
  yielded : List Event
  phase : Phase

inductive Move
  | append (e : Event)
  | next (poll : Poll)

variable (req : Request)

/-- The task is neither active nor live, or the tail has taken too long. -/
def Poll.leaves (p : Poll) : Bool :=
  !p.graphActive && !p.live.getD false || decide (req.maxTailSeconds ≤ p.elapsed)

def Replay.start (log : EventLog) : Replay :=
  { log := log, cursor := req.afterSeq, yielded := [], phase := .paging }

/-- The next statement of the generator. -/
def Replay.next (s : Replay) (poll : Poll) : Replay :=
  match s.phase with
  | .paging =>
    let events := s.log.listEvents s.cursor 500
    { s with
      cursor := Keyset.cursor Event.seq s.cursor events
      yielded := s.yielded ++ events
      phase := .polling }
  | .polling => { s with phase := if !req.tailLive || poll.leaves req then .viewing else .paging }
  | .viewing =>
    match s.log.listEvents 0 1 with
    | [] => { s with phase := .ended s.cursor }
    | _ :: _ => { s with phase := .counting }
  | .counting =>
    { s with phase := .ended (Keyset.cursor Event.seq s.cursor (s.log.listEvents 0 5000)) }
  | .ended _ => s

/-- What is stored after the end is no longer looked at. -/
def Replay.step (s : Replay) (m : Move) : Replay :=
  match s.phase, m with
  | .ended _, _ => s
  | _, .next poll => s.next req poll
  | _, .append e =>
    match s.log.appendEvent e with
    | none => s
    | some log => { s with log := log }

/-- The events that were replayed are those up to the number that is reported. -/
def Replay.Complete (s : Replay) : Prop :=
  ∀ last, s.phase = .ended last → s.yielded = s.log.between req.afterSeq last

/-- How many events have a number in `(0, c]`. -/
def EventLog.upTo (log : EventLog) (c : ℤ) : ℕ := log.rows.countP fun e => 0 < e.seq ∧ e.seq ≤ c

/-- No event is stored behind the cursor; and when the last number is read, the cursor is past all
    events that this read can see, and past no event that it cannot see. -/
def Replay.Keeps (s : Replay) (m : Move) : Prop :=
  match s.phase, m with
  | .ended _, _ => True
  | .counting, .next _ =>
    min 5000 (s.log.rows.countP fun e => 0 < e.seq) ≤ s.log.upTo s.cursor ∧
      (req.afterSeq < s.cursor → s.log.upTo s.cursor ≤ 5000)
  | _, .next _ => True
  | _, .append e => e.seq ∈ s.log.rows.map Event.seq ∨ e.seq ≤ req.afterSeq ∨ s.cursor < e.seq

/-- The cursor is on the last event that was replayed. -/
structure Replay.OnRow (s : Replay) : Prop where
  le : req.afterSeq ≤ s.cursor
  mem : req.afterSeq < s.cursor → ∃ e ∈ s.yielded, e.seq = s.cursor

/-- What was replayed is what is stored up to the cursor. -/
structure Replay.Caught (s : Replay) : Prop extends s.OnRow req where
  yielded : s.yielded = s.log.between req.afterSeq s.cursor
  complete : s.Complete req

/-- The replay has passed by an event, or has ended with another number than that of its cursor. -/
def Replay.Missed (s : Replay) : Prop :=
  ¬ s.Complete req ∨ s.OnRow req ∧
    ∃ e ∈ s.log.rows, req.afterSeq < e.seq ∧ e.seq ≤ s.cursor ∧ e ∉ s.yielded

variable {req} {s : Replay}

theorem step_ended {last : ℤ} (h : s.phase = .ended last) (m : Move) : s.step req m = s := by
  simp only [Replay.step, h]

/-- A page is appended, and the cursor goes on to its end. -/
theorem step_paging (h : s.phase = .paging) (poll : Poll) :
    s.step req (.next poll) = { s with
      cursor := Keyset.cursor Event.seq s.cursor (s.log.listEvents s.cursor 500)
      yielded := s.yielded ++ s.log.listEvents s.cursor 500
      phase := .polling } := by
  simp only [Replay.step, Replay.next, h]

theorem not_ended_of_complete (h : ∀ last, s.phase ≠ .ended last) : s.Complete req :=
  fun last hlast => absurd hlast (h last)

/-- A number is reported either with the log empty, or after the second read. -/
theorem step_of_not_paging (hended : ∀ last, s.phase ≠ .ended last) (hpaging : s.phase ≠ .paging)
    (poll : Poll) : ∃ phase, s.step req (.next poll) = { s with phase := phase } ∧
      ∀ last, phase = .ended last → last = s.cursor ∨ s.phase = .counting ∧
        last = Keyset.cursor Event.seq s.cursor (s.log.listEvents 0 5000) := by
  cases hphase : s.phase with
  | paging => exact absurd hphase hpaging
  | polling =>
    refine ⟨if !req.tailLive || poll.leaves req then .viewing else .paging, ?_, ?_⟩
    · simp only [Replay.step, Replay.next, hphase]
    · intro last hlast
      split_ifs at hlast
  | viewing =>
    cases hview : s.log.listEvents 0 1 with
    | nil =>
      refine ⟨.ended s.cursor, by simp only [Replay.step, Replay.next, hphase, hview], ?_⟩
      rintro last hlast
      cases hlast
      exact Or.inl rfl
    | cons e events =>
      refine ⟨.counting, by simp only [Replay.step, Replay.next, hphase, hview], ?_⟩
      rintro last hlast
      cases hlast
  | counting =>
    refine ⟨.ended (Keyset.cursor Event.seq s.cursor (s.log.listEvents 0 5000)), ?_, ?_⟩
    · simp only [Replay.step, Replay.next, hphase]
    · rintro last hlast
      cases hlast
      exact Or.inr ⟨rfl, rfl⟩
  | ended last => exact absurd hphase (hended last)

/-- Where the cursor is past a number of the log, the replay is right exactly when it is at it. -/
theorem yielded_eq_between_iff (h : s.Caught req) {e : Event} (he : e ∈ s.log.rows) :
    s.yielded = s.log.between req.afterSeq e.seq ↔
      e.seq ≤ s.cursor ∧ (req.afterSeq < s.cursor → s.cursor ≤ e.seq) := by
  rw [h.yielded, EventLog.between, EventLog.between, Keyset.between_eq_iff s.log.unique]
  constructor
  · intro hall
    constructor
    · by_contra hlt
      rw [not_le] at hlt
      exact hlt.not_ge ((hall e he (h.le.trans_lt hlt)).2 le_rfl)
    · intro hafter
      obtain ⟨y, hy, hcursor⟩ := h.mem hafter
      rw [h.yielded, EventLog.between, Keyset.mem_between] at hy
      rw [← hcursor]
      exact (hall y hy.1 hy.2.1).1 hy.2.2
  · rintro ⟨hle, hcursor⟩ a - hafter
    exact ⟨fun ha => ha.trans (hcursor (hafter.trans_le ha)), fun ha => ha.trans hle⟩

/-- The number of the second read is right exactly when the cursor is past all events that the read
    can see, and past no other. -/
theorem yielded_eq_iff (h : s.Caught req) :
    s.yielded = s.log.between req.afterSeq
        (Keyset.cursor Event.seq s.cursor (s.log.listEvents 0 5000)) ↔
      min 5000 (s.log.rows.countP fun e => 0 < e.seq) ≤ s.log.upTo s.cursor ∧
        (req.afterSeq < s.cursor → s.log.upTo s.cursor ≤ 5000) := by
  have hlength := Keyset.length_page Event.seq s.log.rows 0 5000
  rcases eq_or_ne (s.log.listEvents 0 5000) [] with hnil | hne
  · -- Without rows the number is that of the cursor.
    have hupTo : s.log.upTo s.cursor ≤ s.log.rows.countP fun e => 0 < e.seq :=
      List.countP_mono_left fun e _ he => by
        simp only [decide_eq_true_eq] at he ⊢
        exact he.1
    rw [show Keyset.page Event.seq s.log.rows 0 5000 = [] from hnil, List.length_nil] at hlength
    simp only [hnil, Keyset.cursor, List.getLast?_nil, Option.map_none, Option.getD_none]
    exact iff_of_true h.yielded ⟨by omega, fun _ => by omega⟩
  · have hcut := Keyset.cut s.log.unique hne
    have hnonneg := Keyset.le_cursor_page Event.seq s.log.rows 0 5000
    obtain ⟨b, hb, hlast⟩ := hcut.mem
    have hcursor : Keyset.cursor Event.seq s.cursor (s.log.listEvents 0 5000) = b.seq := by
      rw [hlast, Keyset.cursor_of_ne_nil Event.seq hne s.cursor 0]
      rfl
    rw [hcursor, yielded_eq_between_iff h (Keyset.mem_of_mem_page hb).1, hlast, hcut.last_le_iff]
    refine and_congr_right fun _ => forall_congr' fun hafter => ?_
    obtain ⟨y, hy, hy'⟩ := h.mem hafter
    rw [h.yielded, EventLog.between, Keyset.mem_between] at hy
    rw [← hy']
    rcases le_or_gt y.seq 0 with hneg | hpos
    · have hzero : s.log.upTo y.seq = 0 := List.countP_eq_zero.2 fun e _ => by
        simp only [decide_eq_true_eq]
        omega
      exact iff_of_true (by omega) (by omega)
    · rw [hcut.le_last_iff hy.1 hpos]
      rfl

theorem caught_start (req : Request) (log : EventLog) : (Replay.start req log).Caught req where
  le := le_rfl
  mem := fun h => absurd h (lt_irrefl _)
  yielded := (Keyset.between_self log.rows req.afterSeq).symm
  complete := not_ended_of_complete fun _ h => by cases h

/-! ### One statement -/

theorem Replay.OnRow.page (h : s.OnRow req) : ({ s with
    cursor := Keyset.cursor Event.seq s.cursor (s.log.listEvents s.cursor 500)
    yielded := s.yielded ++ s.log.listEvents s.cursor 500
    phase := .polling } : Replay).OnRow req := by
  refine ⟨h.le.trans (Keyset.le_cursor_page Event.seq s.log.rows s.cursor 500), fun hafter => ?_⟩
  rcases Keyset.cursor_cases Event.seq s.cursor (s.log.listEvents s.cursor 500) with
    ⟨hnil, hcursor⟩ | ⟨init, e, hevents, hcursor⟩
  · dsimp only at hafter ⊢
    rw [hcursor] at hafter ⊢
    simpa [hnil] using h.mem hafter
  · exact ⟨e, by simp [hevents], hcursor.symm⟩

/-- A page keeps the replay complete up to its cursor. -/
theorem Replay.Caught.page (h : s.Caught req) (hphase : s.phase = .paging) (poll : Poll) :
    (s.step req (.next poll)).Caught req := by
  rw [step_paging hphase]
  have hle := Keyset.le_cursor_page Event.seq s.log.rows s.cursor 500
  have hpage := Keyset.page_eq_between s.log.unique s.cursor 500
  refine ⟨h.toOnRow.page, ?_, not_ended_of_complete fun _ hlast => by cases hlast⟩
  dsimp only
  rw [h.yielded, EventLog.between, EventLog.between, EventLog.listEvents,
    ← Keyset.between_append s.log.unique h.le hle, ← hpage]

/-- An event that is stored ahead of the cursor, or before the replay began, changes nothing. -/
theorem Replay.Caught.append (h : s.Caught req) (hended : ∀ last, s.phase ≠ .ended last) {e : Event}
    {log : EventLog} (hlog : s.log.appendEvent e = some log)
    (hahead : e.seq ≤ req.afterSeq ∨ s.cursor < e.seq) :
    { s with log := log }.Caught req := by
  obtain ⟨-, hrows⟩ := EventLog.appendEvent_eq_some hlog
  refine ⟨⟨h.le, h.mem⟩, ?_, not_ended_of_complete hended⟩
  rw [h.yielded, EventLog.between, EventLog.between, hrows]
  exact (Keyset.between_concat s.log.rows (by omega)).symm

theorem step_append (hended : ∀ last, s.phase ≠ .ended last) (e : Event) :
    s.step req (.append e) = (s.log.appendEvent e).elim s fun log => { s with log := log } := by
  cases hphase : s.phase with
  | ended last => exact absurd hphase (hended last)
  | _ =>
    simp only [Replay.step, hphase]
    cases s.log.appendEvent e <;> rfl

theorem Replay.Caught.step (h : s.Caught req) {m : Move} (hkeeps : s.Keeps req m) :
    (s.step req m).Caught req := by
  by_cases hended : ∃ last, s.phase = .ended last
  · obtain ⟨last, hlast⟩ := hended
    rw [step_ended hlast]
    exact h
  rw [not_exists] at hended
  cases m with
  | append e =>
    rw [step_append hended]
    cases hlog : s.log.appendEvent e with
    | none => exact h
    | some log =>
      refine h.append hended hlog ?_
      have hclash := (EventLog.appendEvent_eq_some hlog).1
      cases hphase : s.phase with
      | ended last => exact absurd hphase (hended last)
      | _ =>
        simp only [Replay.Keeps, hphase] at hkeeps
        exact hkeeps.resolve_left hclash
  | next poll =>
    by_cases hpaging : s.phase = .paging
    · exact h.page hpaging poll
    · obtain ⟨phase, hstep, hlast⟩ := step_of_not_paging hended hpaging poll
      rw [hstep]
      refine ⟨⟨h.le, h.mem⟩, h.yielded, fun last heq => ?_⟩
      rcases hlast last heq with rfl | ⟨hcounting, rfl⟩
      · exact h.yielded
      · simp only [Replay.Keeps, hcounting] at hkeeps
        exact (yielded_eq_iff h).2 hkeeps

theorem missed_of_not_keeps (h : s.Caught req) {m : Move} (hkeeps : ¬ s.Keeps req m) :
    (s.step req m).Missed req := by
  cases m with
  | append e =>
    have hended : ∀ last, s.phase ≠ .ended last := fun last hlast => by
      simp [Replay.Keeps, hlast] at hkeeps
    have hbehind : e.seq ∉ s.log.rows.map Event.seq ∧ req.afterSeq < e.seq ∧ e.seq ≤ s.cursor := by
      cases hphase : s.phase with
      | ended last => exact absurd hphase (hended last)
      | _ => simpa only [Replay.Keeps, hphase, not_or, not_le, not_lt] using hkeeps
    obtain ⟨hnew, hafter, hcursor⟩ := hbehind
    rw [step_append hended, EventLog.appendEvent, dif_neg hnew]
    refine Or.inr ⟨⟨h.le, h.mem⟩, e, by simp, hafter, hcursor, fun hmem => hnew ?_⟩
    rw [Option.elim_some, h.yielded, EventLog.between, Keyset.mem_between] at hmem
    exact List.mem_map_of_mem hmem.1
  | next poll =>
    have hcounting : s.phase = .counting := by
      cases hphase : s.phase <;> simp [Replay.Keeps, hphase] at hkeeps ⊢
    simp only [Replay.Keeps, hcounting, ← yielded_eq_iff h] at hkeeps
    refine Or.inl fun hcomplete => hkeeps ?_
    simp only [Replay.step, Replay.next, hcounting] at hcomplete
    exact hcomplete _ rfl

/-- Later pages start after the cursor. -/
theorem Replay.Missed.step (h : s.Missed req) (m : Move) : (s.step req m).Missed req := by
  by_cases hended : ∃ last, s.phase = .ended last
  · obtain ⟨last, hlast⟩ := hended
    rw [step_ended hlast]
    exact h
  rw [not_exists] at hended
  obtain ⟨hon, e, hrow, hafter, hcursor, hmissed⟩ :=
    h.resolve_left (not_not.2 (not_ended_of_complete hended))
  cases m with
  | append e' =>
    rw [step_append hended]
    cases hlog : s.log.appendEvent e' with
    | none => exact h
    | some log =>
      have hrows := (EventLog.appendEvent_eq_some hlog).2
      exact Or.inr ⟨⟨hon.le, hon.mem⟩, e, by simp [hrows, hrow], hafter, hcursor, hmissed⟩
  | next poll =>
    by_cases hpaging : s.phase = .paging
    · rw [step_paging hpaging]
      have hle := Keyset.le_cursor_page Event.seq s.log.rows s.cursor 500
      refine Or.inr ⟨hon.page, e, hrow, hafter, hcursor.trans hle, ?_⟩
      rw [List.mem_append, not_or]
      exact ⟨hmissed, fun hmem => (Keyset.mem_of_mem_page hmem).2.not_ge hcursor⟩
    · obtain ⟨phase, hstep, -⟩ := step_of_not_paging hended hpaging poll
      rw [hstep]
      exact Or.inr ⟨⟨hon.le, hon.mem⟩, e, hrow, hafter, hcursor, hmissed⟩

/-- An event that was passed by is not past the number of the last event that was replayed. -/
theorem not_complete_of_missed (h : s.Missed req) {last : ℤ} (hended : s.phase = .ended last) :
    ¬ s.Complete req := by
  rintro hcomplete
  rcases h with h | ⟨hon, e, hrow, hafter, hcursor, hmissed⟩
  · exact h hcomplete
  · obtain ⟨y, hy, hy'⟩ := hon.mem (hafter.trans_le hcursor)
    rw [hcomplete last hended, EventLog.between, Keyset.mem_between] at hy hmissed
    exact hmissed ⟨hrow, hafter, hcursor.trans (hy' ▸ hy.2.2)⟩

/-! ### A whole replay -/

/-- A replay that has ended gave exactly the stored events up to the number it reports, each once and
    in order, exactly when no event was stored behind its cursor and the cursor was past all events
    that the last read could see, and past no other. -/
theorem resumed_iff (req : Request) (log : EventLog) (trace : List Move) {last : ℤ}
    (h : (run (Replay.step req) (.start req log) trace).phase = .ended last) :
    (run (Replay.step req) (.start req log) trace).yielded =
        (run (Replay.step req) (.start req log) trace).log.between req.afterSeq last ↔
      Along (Replay.step req) (Replay.Keeps req) (.start req log) trace := by
  have hcomplete : (run (Replay.step req) (.start req log) trace).Complete req ↔ _ :=
    ⟨fun hall => hall last h, fun heq last' h' => by cases h.symm.trans h'; exact heq⟩
  rw [← hcomplete]
  rcases along_or_broken (I := Replay.Caught req) (B := Replay.Missed req)
    (fun s m hs hm => hs.step hm) (fun s m hs hm => missed_of_not_keeps hs hm)
    (fun s m hs => hs.step m) trace _ (caught_start req log) with ⟨halong, hs⟩ | ⟨halong, hs⟩
  · exact iff_of_true hs.complete halong
  · exact iff_of_false (not_complete_of_missed hs h) halong

/-- A log with the numbers `1` to `n`. -/
def logOf (n : ℕ) : EventLog where
  rows := (List.range' 1 n).map fun (i : ℕ) =>
    { messageId := "m1".toList
      seq := i
      eventType := "thinking_delta".toList
      delta := "…".toList
      metaJson := .empty }
  unique := by
    rw [List.map_map]
    exact List.Nodup.map (fun i j h => Int.ofNat.inj h) List.nodup_range'

/-- A replay of the whole log, without a tail. -/
def replayAll : Request := { afterSeq := 0, tailLive := false, maxTailSeconds := 300 }

def idle : Poll := { graphActive := false, live := none, elapsed := 0 }

def wholeReplay : List Move := List.replicate 4 (.next idle)

/-- A log of one page is replayed as a whole. -/
theorem firstPage_replayed :
    (run (Replay.step replayAll) (.start replayAll (logOf 3)) wholeReplay).phase = .ended 3 ∧
    (run (Replay.step replayAll) (.start replayAll (logOf 3)) wholeReplay).yielded =
      (run (Replay.step replayAll) (.start replayAll (logOf 3)) wholeReplay).log.between 0 3 :=
  ⟨by decide +kernel, (resumed_iff replayAll (logOf 3) wholeReplay (by decide +kernel)).2
    ⟨trivial, trivial, trivial, And.intro (by decide +kernel) (fun _ => by decide +kernel), trivial⟩⟩

/-- Of one event more than a page, the last one is reported and was never replayed. -/
theorem secondPage_never_replayed :
    (run (Replay.step replayAll) (.start replayAll (logOf 501)) wholeReplay).phase = .ended 501 ∧
    (run (Replay.step replayAll) (.start replayAll (logOf 501)) wholeReplay).yielded ≠
      (run (Replay.step replayAll) (.start replayAll (logOf 501)) wholeReplay).log.between 0 501 :=
  ⟨by decide +kernel, fun h => absurd (congrArg List.length h) (by decide +kernel)⟩

end AgentLangraph.Events
