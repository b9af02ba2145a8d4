import AgentLangraph.Events.Store
import AgentLangraph.Lib.Trace
import AgentLangraph.Lib.Party

/-! Who numbers the events of a task. Each stream of the task reads the next number once, when it
    opens, and counts on from there in `StreamMessagePersistCtx.next_seq`; the loop of the stream and
    the handlers in its worker thread call `record_stream_event` with the same context. One statement
    of one caller runs at a time. -/

namespace AgentLangraph.Events
open Trace Party

/-- `StreamMessagePersistCtx.next_seq`, and the value with which the context was made. -/
structure Ctx where
  first : ℤ
  nextSeq : ℤ

/-- Where a call of `record_stream_event` is: at `seq = ctx.next_seq`; at `ctx.next_seq += 1`, before
    it has read the counter or after; at `append_event`; or at its end. -/
inductive CallPhase
  | reading
  | counting (seq : ℤ)
  | storing (seq loaded : ℤ)
  | appending (seq : ℤ)
  | returned
  | raised

/-- A call of `record_stream_event` with an event that has no number yet. -/
structure Caller where
  ctx : ℕ
  event : Event
  phase : CallPhase

/-- The log, the contexts of the streams, the calls of `record_stream_event`, the numbers that were
    given to `append_event`, and the events whose `INSERT` raised. -/
structure Writers where
  log : EventLog
  ctxs : List Ctx := []
  callers : List Caller := []
  appended : List ℤ := []
  lost : List Event := []

inductive Act
  | opens
  | records (ctx : ℕ) (e : Event)
  | step (i : ℕ)

/-- The number that the call has read and not yet given to `append_event`. -/
def CallPhase.seq? : CallPhase → Option ℤ
  | counting seq => some seq
  | storing seq _ => some seq
  | appending seq => some seq
  | _ => none

/-- The call has read the counter and not yet written it back. -/
def CallPhase.atCounter : CallPhase → Bool
  | counting _ => true
  | storing _ _ => true
  | _ => false

/-- The next statement of a call. -/
def Writers.statement (s : Writers) (i : ℕ) (w : Caller) (x : Ctx) : Writers :=
  match w.phase with
  | .reading => { s with callers := s.callers.set i { w with phase := .counting x.nextSeq } }
  | .counting seq => { s with callers := s.callers.set i { w with phase := .storing seq x.nextSeq } }
  | .storing seq loaded =>
    { s with
      ctxs := s.ctxs.set w.ctx { x with nextSeq := loaded + 1 }
      callers := s.callers.set i { w with phase := .appending seq } }
  | .appending seq =>
    match s.log.appendEvent { w.event with seq := seq } with
    | some log =>
      { s with
        log := log
        callers := s.callers.set i { w with phase := .returned }
        appended := seq :: s.appended }
    | none =>
      { s with
        callers := s.callers.set i { w with phase := .raised }
        appended := seq :: s.appended
        lost := w.event :: s.lost }
  | .returned => s
  | .raised => s

/-- `enabled` is `CHAT_MESSAGE_PERSIST_ENABLED`: without it `record_stream_event` returns at once. -/
def Writers.step (enabled : Bool) (s : Writers) : Act → Writers
  | .opens =>
    { s with ctxs := s.ctxs ++ [{ first := s.log.nextEventSeq, nextSeq := s.log.nextEventSeq }] }
  | .records c e =>
    if c < s.ctxs.length ∧ enabled then
      { s with callers := s.callers ++ [{ ctx := c, event := e, phase := .reading }] }
    else s
  | .step i =>
    match s.callers[i]? with
    | none => s
    | some w =>
      match s.ctxs[w.ctx]? with
      | none => s
      | some x => s.statement i w x

/-- No two calls of `append_event` had the same number, and no event was lost. -/
def Writers.NoClash (s : Writers) : Prop := s.appended.Nodup ∧ s.lost = []

/-- No call is at work with a number. -/
def Writers.Quiet (s : Writers) : Prop := ∀ w ∈ s.callers, w.phase.seq? = none

/-- A call of this stream has read the counter and not yet written it back. -/
def Writers.AtCounter (s : Writers) (c : ℕ) : Prop :=
  ∃ w ∈ s.callers, w.ctx = c ∧ w.phase.atCounter

/-- The numbers that a stream has taken: those it has counted through, and the one that it is at. -/
def Writers.Taken (s : Writers) (c : ℕ) (n : ℤ) : Prop :=
  ∃ x, s.ctxs[c]? = some x ∧ x.first ≤ n ∧ (n < x.nextSeq ∨ n = x.nextSeq ∧ s.AtCounter c)

/-- A call that reads the counter of its stream reads a number that no stream of the task has taken,
    its own included. -/
def Writers.Reads (s : Writers) : Act → Prop
  | .step i => ∀ w, s.callers[i]? = some w → w.phase = .reading →
      ∀ x, s.ctxs[w.ctx]? = some x → ∀ c, ¬ s.Taken c x.nextSeq
  | _ => True

/-- The number of a call that is at work is within what its stream has taken. -/
def Caller.Within (w : Caller) (x : Ctx) : Prop :=
  match w.phase with
  | .counting seq => seq = x.nextSeq
  | .storing seq loaded => seq = x.nextSeq ∧ loaded = x.nextSeq
  | .appending seq => x.first ≤ seq ∧ seq < x.nextSeq
  | _ => True

/-- No two calls are at work with the same number. -/
def Distinct (callers : List Caller) : Prop :=
  ∀ (i j : ℕ) (w v : Caller) (n : ℤ), callers[i]? = some w → callers[j]? = some v →
    w.phase.seq? = some n → v.phase.seq? = some n → i = j

/-- The numbers that the streams have taken are those stored since they opened and those that a call
    is at work with, each once. -/
structure Writers.Sound (s : Writers) : Prop where
  first : ∀ x ∈ s.ctxs, x.first ≤ x.nextSeq
  within : ∀ w ∈ s.callers, ∃ x, s.ctxs[w.ctx]? = some x ∧ w.Within x
  distinct : Distinct s.callers
  unstored : ∀ w ∈ s.callers, ∀ n, w.phase.seq? = some n → n ∉ s.log.rows.map Event.seq
  used : ∀ c n, s.Taken c n →
    n ∈ s.log.rows.map Event.seq ∨ ∃ w ∈ s.callers, w.phase.seq? = some n
  stored : ∀ n ∈ s.log.rows.map Event.seq, ∀ x ∈ s.ctxs, x.first ≤ n → ∃ c, s.Taken c n
  appended : ∀ n ∈ s.appended, n ∈ s.log.rows.map Event.seq
  noClash : s.NoClash

/-- A number is with two calls, or stored and with a call; or a clash has already happened. -/
def Writers.Doomed (s : Writers) : Prop :=
  ¬ s.NoClash ∨ ¬ Distinct s.callers ∨
  ∃ w ∈ s.callers, ∃ n ∈ s.log.rows.map Event.seq, w.phase.seq? = some n

variable {enabled : Bool} {s : Writers} {i : ℕ} {w : Caller} {x : Ctx}

theorem step_step (hi : s.callers[i]? = some w) (hx : s.ctxs[w.ctx]? = some x) :
    s.step enabled (.step i) = s.statement i w x := by
  simp only [Writers.step, hi, hx]

theorem step_step_none (h : s.callers[i]? = none) : s.step enabled (.step i) = s := by
  simp only [Writers.step, h]

/-! ### The calls at work -/

theorem distinct_set {callers : List Caller} (h : Distinct callers) (hi : callers[i]? = some w)
    {w' : Caller} (hnew : ∀ v, Other callers i v → ∀ n, v.phase.seq? = some n →
      w'.phase.seq? ≠ some n) : Distinct (callers.set i w') := by
  intro j k u v n hj hk hu hv
  rw [getElem?_set_of_some hi] at hj hk
  split_ifs at hj with hji <;> split_ifs at hk with hki
  · rw [hji, hki]
  · rw [Option.some.injEq] at hj
    exact absurd (hj ▸ hu) (hnew v ⟨k, hki, hk⟩ n hv)
  · rw [Option.some.injEq] at hk
    exact absurd (hk ▸ hv) (hnew u ⟨j, hji, hj⟩ n hu)
  · exact h j k u v n hj hk hu hv

/-- What was distinct after a move of one call was distinct before, if its old number is nobody
    else's. -/
theorem Distinct.of_set {callers : List Caller} {w' : Caller} (h : Distinct (callers.set i w'))
    (hi : callers[i]? = some w) (hold : ∀ v, Other callers i v → ∀ n, v.phase.seq? = some n →
      w.phase.seq? ≠ some n) : Distinct callers := by
  rw [← set_set_of_some hi w']
  exact distinct_set h (getElem?_set_same hi w') fun v hv => hold v ((other_set hi w' v).1 hv)

theorem Distinct.other {callers : List Caller} (h : Distinct callers) (hi : callers[i]? = some w)
    {n : ℤ} (hn : w.phase.seq? = some n) {v : Caller} (hv : Other callers i v) :
    v.phase.seq? ≠ some n := by
  obtain ⟨j, hne, hj⟩ := hv
  intro hsame
  exact hne (h j i v w n hj hi hsame hn)

theorem Caller.Within.seq_of_atCounter (h : w.Within x) (hat : w.phase.atCounter = true) :
    w.phase.seq? = some x.nextSeq := by
  rw [Caller.Within] at h
  cases hphase : w.phase with
  | counting seq =>
    rw [hphase] at h
    rw [CallPhase.seq?, h]
  | storing seq loaded =>
    rw [hphase] at h
    rw [CallPhase.seq?, h.1]
  | _ => simp [hphase, CallPhase.atCounter] at hat

/-- A call that is past the counter stays within its stream when the stream counts on. -/
theorem Caller.Within.count (h : w.Within x) (hat : w.phase.atCounter = false) :
    w.Within { x with nextSeq := x.nextSeq + 1 } := by
  rw [Caller.Within] at h ⊢
  cases hphase : w.phase with
  | counting seq => simp [hphase, CallPhase.atCounter] at hat
  | storing seq loaded => simp [hphase, CallPhase.atCounter] at hat
  | appending seq =>
    rw [hphase] at h
    exact ⟨h.1, h.2.trans (Int.lt_succ _)⟩
  | _ => trivial

/-- The number of a call that is at work is one that its stream has taken. -/
theorem Caller.Within.taken (h : w.Within x) (hw : w ∈ s.callers) (hx : s.ctxs[w.ctx]? = some x)
    (hfirst : x.first ≤ x.nextSeq) {n : ℤ} (hn : w.phase.seq? = some n) : s.Taken w.ctx n := by
  refine ⟨x, hx, ?_⟩
  cases hat : w.phase.atCounter with
  | true =>
    rw [h.seq_of_atCounter hat, Option.some.injEq] at hn
    exact ⟨hn ▸ hfirst, Or.inr ⟨hn.symm, w, hw, rfl, hat⟩⟩
  | false =>
    rw [Caller.Within] at h
    cases hphase : w.phase with
    | counting seq => simp [hphase, CallPhase.atCounter] at hat
    | storing seq loaded => simp [hphase, CallPhase.atCounter] at hat
    | appending seq =>
      rw [hphase] at h hn
      rw [CallPhase.seq?, Option.some.injEq] at hn
      exact ⟨hn ▸ h.1, Or.inl (hn ▸ h.2)⟩
    | _ => simp [hphase, CallPhase.seq?] at hn

theorem Writers.Sound.within_of (h : s.Sound) (hw : w ∈ s.callers) (hx : s.ctxs[w.ctx]? = some x) :
    w.Within x := by
  obtain ⟨y, hy, hwithin⟩ := h.within w hw
  rw [hx, Option.some.injEq] at hy
  rwa [hy]

theorem Writers.Sound.taken (h : s.Sound) {v : Caller} (hv : v ∈ s.callers) {n : ℤ}
    (hn : v.phase.seq? = some n) : s.Taken v.ctx n := by
  obtain ⟨y, hy, hwithin⟩ := h.within v hv
  exact hwithin.taken hv hy (h.first y (List.mem_of_getElem? hy)) hn

/-- At most one call of a stream is at its counter. -/
theorem Writers.Sound.alone (h : s.Sound) (hi : s.callers[i]? = some w)
    (hx : s.ctxs[w.ctx]? = some x) (hat : w.phase.atCounter = true) {v : Caller}
    (hv : Other s.callers i v) (hctx : v.ctx = w.ctx) : v.phase.atCounter = false := by
  rw [Bool.eq_false_iff]
  intro hvat
  have hseq := (h.within_of (List.mem_of_getElem? hi) hx).seq_of_atCounter hat
  have hvseq := (h.within_of hv.mem (hctx ▸ hx)).seq_of_atCounter hvat
  exact h.distinct.other hi hseq hv hvseq

/-- Where the contexts are the same, so are the numbers that are taken as long as the same streams
    are at their counter. -/
theorem taken_congr {s' : Writers} (hctxs : s'.ctxs = s.ctxs)
    (hat : ∀ c, s'.AtCounter c ↔ s.AtCounter c) (c : ℕ) (n : ℤ) : s'.Taken c n ↔ s.Taken c n := by
  simp only [Writers.Taken, hctxs, hat]

/-- A call that stays at the counter, or stays away from it. -/
theorem atCounter_set (hi : s.callers[i]? = some w) (w' : Caller) (hctx : w'.ctx = w.ctx)
    (hphase : w'.phase.atCounter = w.phase.atCounter) {s' : Writers}
    (hcallers : s'.callers = s.callers.set i w') (c : ℕ) : s'.AtCounter c ↔ s.AtCounter c := by
  simp only [Writers.AtCounter, hcallers, mem_set_iff_other hi, mem_iff_other hi, or_and_right,
    exists_or, exists_eq_left, hctx, hphase]

/-- A call that stays with its number. -/
theorem seq_set (hi : s.callers[i]? = some w) {w' : Caller}
    (hphase : w'.phase.seq? = w.phase.seq?) (n : ℤ) :
    (∃ v ∈ s.callers.set i w', v.phase.seq? = some n) ↔ ∃ v ∈ s.callers, v.phase.seq? = some n := by
  simp only [mem_set_iff_other hi, mem_iff_other hi, or_and_right, exists_or, exists_eq_left, hphase]

theorem distinct_set_of_seq {callers : List Caller} (h : Distinct callers)
    (hi : callers[i]? = some w) {w' : Caller} (hphase : w'.phase.seq? = w.phase.seq?) :
    Distinct (callers.set i w') :=
  distinct_set h hi fun _ hv _ hn heq => h.other hi (hphase ▸ heq) hv hn

/-! ### One statement -/

/-- With the call at the counter, its stream has taken the number that the counter is at. -/
theorem taken_reading (hi : s.callers[i]? = some w) (hx : s.ctxs[w.ctx]? = some x)
    (hphase : w.phase = .reading) (hfirst : x.first ≤ x.nextSeq) (c : ℕ) (n : ℤ) :
    { s with callers := s.callers.set i { w with phase := .counting x.nextSeq } : Writers }.Taken c n ↔
      s.Taken c n ∨ c = w.ctx ∧ n = x.nextSeq := by
  have hat : { s with
      callers := s.callers.set i { w with phase := .counting x.nextSeq } : Writers }.AtCounter c ↔
        s.AtCounter c ∨ c = w.ctx := by
    simp only [Writers.AtCounter, mem_set_iff_other hi, mem_iff_other hi, or_and_right, exists_or,
      exists_eq_left, hphase, CallPhase.atCounter, Bool.false_eq_true, and_true, and_false, false_or]
    rw [or_comm, eq_comm]
  simp only [Writers.Taken, hat]
  constructor
  · rintro ⟨y, hy, hle, hlt | ⟨heq, hold | rfl⟩⟩
    · exact Or.inl ⟨y, hy, hle, Or.inl hlt⟩
    · exact Or.inl ⟨y, hy, hle, Or.inr ⟨heq, hold⟩⟩
    · rw [hx, Option.some.injEq] at hy
      exact Or.inr ⟨rfl, hy ▸ heq⟩
  · rintro (⟨y, hy, hle, htaken⟩ | ⟨rfl, rfl⟩)
    · exact ⟨y, hy, hle, htaken.imp_right fun h => ⟨h.1, Or.inl h.2⟩⟩
    · exact ⟨x, hx, hfirst, Or.inr ⟨rfl, Or.inr rfl⟩⟩

/-- A call reads a number that nobody has taken. -/
theorem Writers.Sound.reading (h : s.Sound) (hi : s.callers[i]? = some w)
    (hx : s.ctxs[w.ctx]? = some x) (hphase : w.phase = .reading)
    (hfresh : ∀ c, ¬ s.Taken c x.nextSeq) :
    { s with callers := s.callers.set i { w with phase := .counting x.nextSeq } : Writers }.Sound := by
  have hfirst := h.first x (List.mem_of_getElem? hx)
  have htaken := taken_reading hi hx hphase hfirst
  refine ⟨h.first, forall_set h.within ⟨x, hx, rfl⟩, ?_, ?_, ?_, ?_, h.appended, h.noClash⟩
  · refine distinct_set h.distinct hi fun v hv n hn heq => ?_
    rw [CallPhase.seq?, Option.some.injEq] at heq
    exact hfresh _ (h.taken hv.mem (heq ▸ hn))
  · refine forall_set h.unstored fun n hn hstored => ?_
    rw [CallPhase.seq?, Option.some.injEq] at hn
    obtain ⟨c, hc⟩ := h.stored n hstored x (List.mem_of_getElem? hx) (hn ▸ hfirst)
    exact hfresh c (hn ▸ hc)
  · intro c n hn
    simp only [mem_set_iff_other hi]
    rcases (htaken c n).1 hn with hold | ⟨-, rfl⟩
    · refine (h.used c n hold).imp_right ?_
      rintro ⟨v, hv, hvn⟩
      refine ⟨v, Or.inr (((mem_iff_other hi v).1 hv).resolve_left ?_), hvn⟩
      rintro rfl
      rw [hphase] at hvn
      cases hvn
    · exact Or.inr ⟨_, Or.inl rfl, rfl⟩
  · intro n hn y hy hle
    obtain ⟨c, hc⟩ := h.stored n hn y hy hle
    exact ⟨c, (htaken c n).2 (Or.inl hc)⟩

/-- A call goes on with its number; the streams may count, but they have taken the same numbers. -/
theorem Writers.Sound.keeps (h : s.Sound) (hi : s.callers[i]? = some w) {w' : Caller}
    (hsame : w'.phase.seq? = w.phase.seq?) {ctxs : List Ctx}
    (htaken : ∀ c n, { s with ctxs := ctxs, callers := s.callers.set i w' : Writers }.Taken c n ↔
      s.Taken c n)
    (hopened : ∀ y ∈ ctxs, ∃ z ∈ s.ctxs, z.first = y.first)
    (hfirst : ∀ y ∈ ctxs, y.first ≤ y.nextSeq)
    (hwithin : ∀ v ∈ s.callers.set i w', ∃ y, ctxs[v.ctx]? = some y ∧ v.Within y) :
    { s with ctxs := ctxs, callers := s.callers.set i w' : Writers }.Sound := by
  refine ⟨hfirst, hwithin, distinct_set_of_seq h.distinct hi hsame, ?_, ?_, ?_, h.appended, h.noClash⟩
  · exact forall_set h.unstored fun n hn => h.unstored w (List.mem_of_getElem? hi) n (hsame ▸ hn)
  · intro c n hn
    rw [seq_set hi hsame]
    exact h.used c n ((htaken c n).1 hn)
  · intro n hn y hy hle
    obtain ⟨z, hz, hzy⟩ := hopened y hy
    obtain ⟨c, hc⟩ := h.stored n hn z hz (hzy ▸ hle)
    exact ⟨c, (htaken c n).2 hc⟩

/-- A call loads the counter that it is at. -/
theorem Writers.Sound.counting (h : s.Sound) (hi : s.callers[i]? = some w)
    (hx : s.ctxs[w.ctx]? = some x) {seq : ℤ} (hphase : w.phase = .counting seq) :
    { s with callers := s.callers.set i { w with phase := .storing seq x.nextSeq } : Writers }.Sound := by
  have hseq : seq = x.nextSeq := by
    have hwithin := h.within_of (List.mem_of_getElem? hi) hx
    rwa [Caller.Within, hphase] at hwithin
  refine h.keeps hi (by rw [hphase]; rfl) (taken_congr rfl ?_) (fun y hy => ⟨y, hy, rfl⟩) h.first
    (forall_set h.within ⟨x, hx, hseq, rfl⟩)
  exact atCounter_set hi { w with phase := .storing seq x.nextSeq } rfl (by rw [hphase]; rfl) rfl

/-- The contexts after one of them has counted on. -/
def counted (ctxs : List Ctx) (c : ℕ) (x : Ctx) : List Ctx :=
  ctxs.set c { x with nextSeq := x.nextSeq + 1 }

theorem getElem?_counted {ctxs : List Ctx} {c : ℕ} (hx : ctxs[c]? = some x) (k : ℕ) :
    (counted ctxs c x)[k]? = if k = c then some { x with nextSeq := x.nextSeq + 1 } else ctxs[k]? := by
  rw [counted, getElem?_set_of_some hx]

/-- The number that a call was at is the number that its stream counts through. -/
theorem Writers.Sound.taken_counted (h : s.Sound) (hi : s.callers[i]? = some w)
    (hx : s.ctxs[w.ctx]? = some x) (hat : w.phase.atCounter = true) {w' : Caller}
    (hpast : w'.phase.atCounter = false) (c : ℕ) (n : ℤ) :
    { s with ctxs := counted s.ctxs w.ctx x, callers := s.callers.set i w' : Writers }.Taken c n ↔
      s.Taken c n := by
  have hcallers : ∀ c, (∃ v ∈ s.callers.set i w', v.ctx = c ∧ v.phase.atCounter) ↔
      ∃ v, Other s.callers i v ∧ v.ctx = c ∧ v.phase.atCounter := by
    intro c
    simp only [mem_set_iff_other hi, or_and_right, exists_or, exists_eq_left, hpast,
      Bool.false_eq_true, and_false, false_or]
  simp only [Writers.Taken, Writers.AtCounter, getElem?_counted hx, hcallers]
  split_ifs with hc
  · -- Its own stream: no other call is at the counter.
    have hnone : ¬ ∃ v, Other s.callers i v ∧ v.ctx = c ∧ v.phase.atCounter := by
      rintro ⟨v, hv, hvctx, hvat⟩
      rw [h.alone hi hx hat hv (hvctx.trans hc)] at hvat
      cases hvat
    have hown : ∃ v ∈ s.callers, v.ctx = c ∧ v.phase.atCounter :=
      ⟨w, List.mem_of_getElem? hi, hc.symm, hat⟩
    simp only [hc, hx, Option.some.injEq, exists_eq_left', hc ▸ hnone, hc ▸ hown, and_false, or_false,
      and_true, Int.lt_add_one_iff, le_iff_lt_or_eq]
  · simp only [mem_iff_other hi, or_and_right, exists_or, exists_eq_left, Ne.symm hc, false_and,
      false_or]

/-- A call writes the counter back; no other call of its stream was at the counter. -/
theorem Writers.Sound.storing (h : s.Sound) (hi : s.callers[i]? = some w)
    (hx : s.ctxs[w.ctx]? = some x) {seq loaded : ℤ} (hphase : w.phase = .storing seq loaded) :
    { s with
      ctxs := s.ctxs.set w.ctx { x with nextSeq := loaded + 1 }
      callers := s.callers.set i { w with phase := .appending seq } : Writers }.Sound := by
  have hx' := List.mem_of_getElem? hx
  have hfirst := h.first x hx'
  have hat : w.phase.atCounter = true := by rw [hphase]; rfl
  obtain ⟨rfl, rfl⟩ : seq = x.nextSeq ∧ loaded = x.nextSeq := by
    have hwithin := h.within_of (List.mem_of_getElem? hi) hx
    rwa [Caller.Within, hphase] at hwithin
  have hmem : ∀ y ∈ counted s.ctxs w.ctx x, y ∈ s.ctxs ∨ y = { x with nextSeq := x.nextSeq + 1 } :=
    fun y hy => List.mem_or_eq_of_mem_set hy
  refine h.keeps hi (by rw [hphase]; rfl) (h.taken_counted hi hx hat rfl) ?_ ?_ ?_
  · intro y hy
    rcases hmem y hy with hy | rfl
    · exact ⟨y, hy, rfl⟩
    · exact ⟨x, hx', rfl⟩
  · exact forall_set h.first (hfirst.trans (Int.lt_succ _).le)
  · intro v hv
    rw [← counted]
    simp only [getElem?_counted hx]
    rcases (mem_set_iff_other hi _ v).1 hv with rfl | hother
    · exact ⟨_, if_pos rfl, hfirst, Int.lt_succ _⟩
    · obtain ⟨y, hy, hwithin⟩ := h.within v hother.mem
      split_ifs with hctx
      · rw [hctx, hx, Option.some.injEq] at hy
        exact ⟨_, rfl, (hy ▸ hwithin).count (h.alone hi hx hat hother hctx)⟩
      · exact ⟨y, hy, hwithin⟩

/-- The number that a call appends is new to the log. -/
theorem Writers.Sound.appending (h : s.Sound) (hi : s.callers[i]? = some w)
    (hx : s.ctxs[w.ctx]? = some x) {seq : ℤ} (hphase : w.phase = .appending seq) :
    (s.statement i w x).Sound := by
  have hw := List.mem_of_getElem? hi
  have hseq : w.phase.seq? = some seq := by rw [hphase]; rfl
  have hnew := h.unstored w hw seq hseq
  rw [Writers.statement, hphase]
  dsimp only
  rw [EventLog.appendEvent, dif_neg hnew]
  have hmem : ∀ n, n ∈ (s.log.rows ++ [{ w.event with seq := seq }]).map Event.seq ↔
      n ∈ s.log.rows.map Event.seq ∨ n = seq := fun n => by simp
  have htaken : ∀ c n,
      { s with callers := s.callers.set i { w with phase := .returned } : Writers }.Taken c n ↔
        s.Taken c n :=
    taken_congr rfl (atCounter_set hi { w with phase := .returned } rfl (by rw [hphase]; rfl) rfl)
  refine ⟨h.first, forall_set h.within ⟨x, hx, trivial⟩, ?_, ?_, ?_, ?_, ?_, ?_, h.noClash.2⟩
  · exact distinct_set h.distinct hi fun _ _ _ _ heq => by cases heq
  · intro v hv n hn
    rcases (mem_set_iff_other hi _ v).1 hv with rfl | hother
    · cases hn
    · rw [hmem, not_or]
      exact ⟨h.unstored v hother.mem n hn,
        fun heq => h.distinct.other hi hseq hother (heq ▸ hn)⟩
  · intro c n hn
    rw [hmem]
    rcases h.used c n ((htaken c n).1 hn) with hlog | ⟨v, hv, hvn⟩
    · exact Or.inl (Or.inl hlog)
    · rcases (mem_iff_other hi v).1 hv with rfl | hother
      · rw [hseq, Option.some.injEq] at hvn
        exact Or.inl (Or.inr hvn.symm)
      · exact Or.inr ⟨v, (mem_set_iff_other hi _ v).2 (Or.inr hother), hvn⟩
  · intro n hn y hy hle
    have hold : ∃ c, s.Taken c n := by
      rcases (hmem n).1 hn with hn | rfl
      · exact h.stored n hn y hy hle
      · exact ⟨_, h.taken hw hseq⟩
    obtain ⟨c, hc⟩ := hold
    exact ⟨c, (htaken c n).2 hc⟩
  · intro n hn
    rw [hmem]
    exact (List.mem_cons.1 hn).symm.imp_left (h.appended n)
  · exact List.nodup_cons.2 ⟨fun hn => hnew (h.appended seq hn), h.noClash.1⟩

theorem Writers.Sound.statement (h : s.Sound) (hi : s.callers[i]? = some w)
    (hx : s.ctxs[w.ctx]? = some x)
    (hfresh : w.phase = .reading → ∀ c, ¬ s.Taken c x.nextSeq) : (s.statement i w x).Sound := by
  cases hphase : w.phase with
  | reading =>
    rw [Writers.statement, hphase]
    exact h.reading hi hx hphase (hfresh hphase)
  | counting seq =>
    rw [Writers.statement, hphase]
    exact h.counting hi hx hphase
  | storing seq loaded =>
    rw [Writers.statement, hphase]
    exact h.storing hi hx hphase
  | appending seq => exact h.appending hi hx hphase
  | returned =>
    rw [Writers.statement, hphase]
    exact h
  | raised =>
    rw [Writers.statement, hphase]
    exact h

theorem Writers.Sound.opens (h : s.Sound) : (s.step enabled .opens).Sound := by
  have htaken : ∀ c n, (s.step enabled .opens).Taken c n ↔ s.Taken c n := by
    intro c n
    constructor
    · rintro ⟨y, hy, hle, hcount⟩
      rcases getElem?_concat_eq_some.1 hy with hy | ⟨hc, rfl⟩
      · exact ⟨y, hy, hle, hcount⟩
      · -- Nobody is at the counter of a stream that has just opened.
        dsimp only at hle hcount
        rcases hcount with hcount | ⟨-, v, hv, hctx, -⟩
        · omega
        · obtain ⟨z, hz, -⟩ := h.within v hv
          exact absurd (List.getElem?_eq_some_iff.1 hz).1 (by omega)
    · rintro ⟨y, hy, hle, hcount⟩
      exact ⟨y, getElem?_concat_eq_some.2 (Or.inl hy), hle, hcount⟩
  refine ⟨?_, ?_, h.distinct, h.unstored, ?_, ?_, h.appended, h.noClash⟩
  · intro y hy
    rcases List.mem_append.1 hy with hy | hy
    · exact h.first y hy
    · rw [List.mem_singleton.1 hy]
  · intro v hv
    obtain ⟨y, hy, hwithin⟩ := h.within v hv
    exact ⟨y, getElem?_concat_eq_some.2 (Or.inl hy), hwithin⟩
  · exact fun c n hn => h.used c n ((htaken c n).1 hn)
  · intro n hn y hy hle
    rcases List.mem_append.1 hy with hy | hy
    · obtain ⟨c, hc⟩ := h.stored n hn y hy hle
      exact ⟨c, (htaken c n).2 hc⟩
    · obtain ⟨e, he, rfl⟩ := List.mem_map.1 hn
      rw [List.mem_singleton.1 hy] at hle
      exact absurd (EventLog.lt_nextEventSeq he) hle.not_gt

theorem distinct_concat {callers : List Caller} {v : Caller} (hv : v.phase.seq? = none) :
    Distinct (callers ++ [v]) ↔ Distinct callers := by
  have hold : ∀ {j : ℕ} {u : Caller} {n : ℤ}, (callers ++ [v])[j]? = some u →
      u.phase.seq? = some n → callers[j]? = some u := by
    intro j u n hj hn
    rcases getElem?_concat_eq_some.1 hj with hj | ⟨-, rfl⟩
    · exact hj
    · rw [hv] at hn
      cases hn
  have hnew : ∀ {j : ℕ} {u : Caller}, callers[j]? = some u → (callers ++ [v])[j]? = some u :=
    fun hj => getElem?_concat_eq_some.2 (Or.inl hj)
  constructor
  · exact fun h j k u u' n hj hk hu hu' => h j k u u' n (hnew hj) (hnew hk) hu hu'
  · exact fun h j k u u' n hj hk hu hu' => h j k u u' n (hold hj hu) (hold hk hu') hu hu'

theorem Writers.Sound.records (h : s.Sound) (c : ℕ) (e : Event) :
    (s.step enabled (.records c e)).Sound := by
  rw [Writers.step]
  split_ifs with hc
  · have hmem : ∀ v, v ∈ s.callers ++ [{ ctx := c, event := e, phase := .reading }] ↔
        v ∈ s.callers ∨ v = { ctx := c, event := e, phase := .reading } := fun v => by simp
    have htaken : ∀ c' n, { s with callers := s.callers ++
        [{ ctx := c, event := e, phase := .reading }] : Writers }.Taken c' n ↔ s.Taken c' n :=
      taken_congr rfl fun c' => by
        simp [Writers.AtCounter, hmem, or_and_right, exists_or, CallPhase.atCounter]
    refine ⟨h.first, ?_, (distinct_concat rfl).2 h.distinct, ?_, ?_, ?_, h.appended, h.noClash⟩
    · intro v hv
      rcases (hmem v).1 hv with hv | rfl
      · exact h.within v hv
      · exact ⟨_, List.getElem?_eq_getElem hc.1, trivial⟩
    · intro v hv n hn
      rcases (hmem v).1 hv with hv | rfl
      · exact h.unstored v hv n hn
      · cases hn
    · intro c' n hn
      refine (h.used c' n ((htaken c' n).1 hn)).imp_right ?_
      rintro ⟨v, hv, hvn⟩
      exact ⟨v, (hmem v).2 (Or.inl hv), hvn⟩
    · intro n hn y hy hle
      obtain ⟨c', hc'⟩ := h.stored n hn y hy hle
      exact ⟨c', (htaken c' n).2 hc'⟩
  · exact h

theorem Writers.Sound.step (h : s.Sound) {a : Act} (ha : s.Reads a) : (s.step enabled a).Sound := by
  cases a with
  | opens => exact h.opens
  | records c e => exact h.records c e
  | step i =>
    cases hi : s.callers[i]? with
    | none =>
      rw [step_step_none hi]
      exact h
    | some w =>
      obtain ⟨x, hx, -⟩ := h.within w (List.mem_of_getElem? hi)
      rw [step_step hi hx]
      exact h.statement hi hx fun hphase => ha w hi hphase x hx

/-! ### A number that is taken twice -/

/-- What a statement does to the log and the call: it keeps the number of the call if it has one; or
    it appends it; or it loses the event. -/
theorem statement_cases (s : Writers) (i : ℕ) (w : Caller) (x : Ctx) :
    s.statement i w x = s ∨
    (∃ w' ctxs, s.statement i w x = { s with ctxs := ctxs, callers := s.callers.set i w' } ∧
      ∀ n, w.phase.seq? = some n → w'.phase.seq? = some n) ∨
    ∃ seq w', w.phase.seq? = some seq ∧ w'.phase.seq? = none ∧
      (s.statement i w x).callers = s.callers.set i w' ∧
      seq ∈ (s.statement i w x).log.rows.map Event.seq ∧
      s.log.rows.map Event.seq ⊆ (s.statement i w x).log.rows.map Event.seq ∧
      (s.statement i w x).appended = seq :: s.appended ∧
      ((s.statement i w x).lost = [] ↔ s.lost = [] ∧ seq ∉ s.log.rows.map Event.seq) := by
  cases hphase : w.phase with
  | reading =>
    refine Or.inr (Or.inl ⟨_, s.ctxs, by rw [Writers.statement, hphase], fun n hn => ?_⟩)
    cases hn
  | counting seq =>
    exact Or.inr (Or.inl ⟨_, s.ctxs, by rw [Writers.statement, hphase], fun n hn => hn⟩)
  | storing seq loaded =>
    exact Or.inr (Or.inl ⟨_, _, by rw [Writers.statement, hphase], fun n hn => hn⟩)
  | appending seq =>
    right
    right
    rw [Writers.statement, hphase]
    dsimp only
    rw [EventLog.appendEvent]
    by_cases hclash : seq ∈ s.log.rows.map Event.seq
    · rw [dif_pos hclash]
      exact ⟨seq, { w with phase := .raised }, rfl, rfl, rfl, hclash, fun _ hn => hn, rfl,
        by simp [hclash]⟩
    · rw [dif_neg hclash]
      exact ⟨seq, { w with phase := .returned }, rfl, rfl, rfl, by simp, by simp, rfl,
        by simp [hclash]⟩
  | returned => exact Or.inl (by rw [Writers.statement, hphase])
  | raised => exact Or.inl (by rw [Writers.statement, hphase])

/-- A call that reads a taken number works with one that is stored or with another call. -/
theorem doomed_of_not_reads (h : s.Sound) {a : Act} (ha : ¬ s.Reads a) :
    (s.step enabled a).Doomed := by
  cases a with
  | opens => exact absurd trivial ha
  | records c e => exact absurd trivial ha
  | step i =>
    simp only [Writers.Reads, not_forall, not_not] at ha
    obtain ⟨w, hi, hphase, x, hx, c, htaken⟩ := ha
    rw [step_step hi hx, Writers.statement, hphase]
    have hw' : { w with phase := .counting x.nextSeq } ∈
        s.callers.set i { w with phase := .counting x.nextSeq } :=
      (mem_set_iff_other hi _ _).2 (Or.inl rfl)
    rcases h.used c x.nextSeq htaken with hlog | ⟨v, hv, hvn⟩
    · exact Or.inr (Or.inr ⟨_, hw', _, hlog, rfl⟩)
    · refine Or.inr (Or.inl fun hdistinct => ?_)
      rcases (mem_iff_other hi v).1 hv with rfl | hother
      · rw [hphase] at hvn
        cases hvn
      · exact hdistinct.other (getElem?_set_same hi _) rfl ((other_set hi _ v).2 hother) hvn

theorem Writers.Doomed.statement (h : s.Doomed) (hi : s.callers[i]? = some w) (x : Ctx) :
    (s.statement i w x).Doomed := by
  rcases statement_cases s i w x with heq | ⟨w', ctxs, heq, hkeep⟩ |
    ⟨seq, w', hw, hw', hcallers, hseq, hlog, happended, hlost⟩
  · rw [heq]
    exact h
  · rw [heq]
    rcases h with h | h | ⟨v, hv, n, hn, hvn⟩
    · exact Or.inl h
    · refine Or.inr (Or.inl fun hd => h (hd.of_set hi fun v hv n hvn hwn => ?_))
      exact hd.other (getElem?_set_same hi w') (hkeep n hwn) ((other_set hi w' v).2 hv) hvn
    · refine Or.inr (Or.inr ?_)
      rcases (mem_iff_other hi v).1 hv with rfl | hother
      · exact ⟨w', (mem_set_iff_other hi w' w').2 (Or.inl rfl), n, hn, hkeep n hvn⟩
      · exact ⟨v, (mem_set_iff_other hi w' v).2 (Or.inr hother), n, hn, hvn⟩
  · by_contra hnot
    simp only [Writers.Doomed, not_or, not_not, hcallers] at hnot
    obtain ⟨hclash, hdistinct, hstored⟩ := hnot
    have hclash' : s.NoClash ∧ seq ∉ s.log.rows.map Event.seq := by
      rw [Writers.NoClash, happended, hlost, List.nodup_cons] at hclash
      exact ⟨⟨hclash.1.2, hclash.2.1⟩, hclash.2.2⟩
    have hother : ∀ v, Other s.callers i v → ∀ n ∈ (s.statement i w x).log.rows.map Event.seq,
        v.phase.seq? ≠ some n := fun v hv n hn hvn =>
      hstored ⟨v, (mem_set_iff_other hi w' v).2 (Or.inr hv), n, hn, hvn⟩
    rcases h with h | h | ⟨v, hv, n, hn, hvn⟩
    · exact h hclash'.1
    · refine h (hdistinct.of_set hi fun v hv n hvn hwn => ?_)
      rw [hw, Option.some.injEq] at hwn
      exact hother v hv n (hwn ▸ hseq) hvn
    · rcases (mem_iff_other hi v).1 hv with rfl | hv
      · rw [hw, Option.some.injEq] at hvn
        exact hclash'.2 (hvn ▸ hn)
      · exact hother v hv n (hlog hn) hvn

theorem Writers.Doomed.step (h : s.Doomed) (a : Act) : (s.step enabled a).Doomed := by
  cases a with
  | opens => exact h
  | records c e =>
    rw [Writers.step]
    split_ifs
    · refine h.imp_right (Or.imp (fun hd => ?_) ?_)
      · exact fun hd' => hd ((distinct_concat rfl).1 hd')
      · rintro ⟨w, hw, n, hn⟩
        exact ⟨w, List.mem_append_left _ hw, n, hn⟩
    · exact h
  | step i =>
    cases hi : s.callers[i]? with
    | none =>
      rw [step_step_none hi]
      exact h
    | some w =>
      cases hx : s.ctxs[w.ctx]? with
      | none =>
        simp only [Writers.step, hi, hx]
        exact h
      | some x =>
        rw [step_step hi hx]
        exact h.statement hi x

/-- With no call at work, what was taken twice has clashed. -/
theorem not_noClash_of_doomed (h : s.Doomed) (hquiet : s.Quiet) : ¬ s.NoClash := by
  rcases h with h | h | ⟨w, hw, n, -, hn⟩
  · exact h
  · refine absurd (fun i j w v n hi _ hn _ => ?_) h
    rw [hquiet w (List.mem_of_getElem? hi)] at hn
    cases hn
  · rw [hquiet w hw] at hn
    cases hn

theorem sound_start (log : EventLog) : { log := log : Writers }.Sound where
  first := by simp
  within := by simp
  distinct := fun i j w v n hi => by simp at hi
  unstored := by simp
  used := by rintro c n ⟨x, hx, -⟩; simp at hx
  stored := by simp
  appended := by simp
  noClash := ⟨List.nodup_nil, rfl⟩

/-- No two calls of `append_event` have the same number, and no event is lost, in every run in which
    each call reads a number that no stream of the task has taken; and a run whose calls have all come
    to their end has no clash only then. -/
theorem noClash_iff (enabled : Bool) (log : EventLog) (trace : List Act) :
    (Along (Writers.step enabled) Writers.Reads { log := log } trace →
      (run (Writers.step enabled) { log := log } trace).NoClash) ∧
    ((run (Writers.step enabled) { log := log } trace).Quiet →
      ((run (Writers.step enabled) { log := log } trace).NoClash ↔
        Along (Writers.step enabled) Writers.Reads { log := log } trace)) := by
  rcases along_or_broken (I := Writers.Sound) (B := Writers.Doomed)
    (fun s a hs ha => hs.step ha) (fun s a hs ha => doomed_of_not_reads hs ha)
    (fun s a hs => hs.step a) trace _ (sound_start log) with ⟨halong, hs⟩ | ⟨halong, hs⟩
  · exact ⟨fun _ => hs.noClash, fun _ => iff_of_true hs.noClash halong⟩
  · exact ⟨fun h => absurd h halong,
      fun hquiet => iff_of_false (not_noClash_of_doomed hs hquiet) halong⟩

def delta : Event :=
  { messageId := "m1".toList
    seq := 0
    eventType := "ui_progress".toList
    delta := "…".toList
    metaJson := .empty }

/-- The call `i`, from its start to its end, with the context `c`. -/
def wholeCall (c i : ℕ) : List Act := Act.records c delta :: List.replicate 4 (Act.step i)

/-- A stream stores an event, a second stream opens and stores one, and the first goes on. -/
def secondStream : List Act :=
  Act.opens :: wholeCall 0 0 ++ Act.opens :: wholeCall 1 1 ++ wholeCall 0 2

def noEvents : EventLog := ⟨[], List.nodup_nil⟩

/-- The first stream goes on with the number that the second one has used, and its event is lost. -/
theorem secondStream_clashes :
    ¬ (run (Writers.step true) { log := noEvents } secondStream).NoClash := by
  rintro ⟨hnodup, -⟩
  exact absurd hnodup (by decide +kernel)

end AgentLangraph.Events
