import AgentLangraph.Lib.PyText
import AgentLangraph.Lib.Trace
import AgentLangraph.Lib.Party
import Mathlib.Logic.Function.Basic

/-! The side channels of a stream (`stream_progress.py`, the drains of `graph_runner.py`). A stream
    installs handlers that fill its queues; the handlers belong to the process, so that what a run
    reports goes to the stream that installed its handler last. Some of the drains look at the tags of
    an item and drop those of another run. -/

namespace AgentLangraph.Events
open PyText Trace Party

inductive Channel
  | progress
  | trace
  | ack
  | answer
  | thinking
  | writing
  deriving DecidableEq

/-- What a run reports, with the tags of the thread; `run` is the run that has reported it. -/
structure Item where
  run : ℕ
  runId : Text
  epoch : ℕ
  text : Text
  deriving DecidableEq

/-- A run and its stream: the queues, and what the stream has yielded and persisted. -/
structure Stream where
  runId : Text
  epoch : ℕ
  queues : Channel → List Item := fun _ => []
  yielded : List Item := []
  persisted : List Item := []

/-- The handlers of the process, by the stream that has installed them, and the runs. -/
structure Channels where
  handlers : Channel → Option ℕ := fun _ => none
  streams : List Stream := []

/-- A run begins; a handler is set or taken away; a run reports, in a thread with its stream context
    (`set_stream_run_context`) or in another one; a stream takes the next item of a queue. -/
inductive Push
  | begins (runId : Text) (epoch : ℕ)
  | installs (ch : Channel) (stream : Option ℕ)
  | reports (run : ℕ) (ch : Channel) (inContext : Bool) (text : Text)
  | drains (stream : ℕ) (ch : Channel)

/-- `_accept_stream_side_event`. -/
def acceptStreamSideEvent (item : Item) (runId : Text) (epoch : ℕ) : Bool :=
  if strip item.runId ≠ [] ∧ strip item.runId ≠ runId then false
  else if 0 < epoch ∧ 0 < item.epoch ∧ item.epoch < epoch then false
  else true

/-- The drains that look at the tags; that of the answers does not, and progress has none. -/
def Channel.filters : Channel → Bool
  | trace => true
  | ack => true
  | thinking => true
  | writing => true
  | answer => false
  | progress => false

/-- The text of a trace is stripped; an empty text is not reported. -/
def Channel.snippet (ch : Channel) (text : Text) : Option Text :=
  match ch with
  | progress => some text
  | ack => some text
  | trace => if strip text = [] then none else some (strip text)
  | answer => if text = [] then none else some text
  | thinking => if text = [] then none else some text
  | writing => if text = [] then none else some text

namespace Stream

/-- A drain of the stream lets the item through. -/
def admits (t : Stream) (ch : Channel) (item : Item) : Bool :=
  !ch.filters || t.runId == [] || acceptStreamSideEvent item t.runId t.epoch

/-- `_capture_*`; the handler of thinking persists what it puts into the queue. -/
def push (t : Stream) (ch : Channel) (item : Item) : Stream :=
  { t with
    queues := Function.update t.queues ch (t.queues ch ++ [item])
    persisted := if ch = .thinking ∧ t.admits ch item then t.persisted ++ [item] else t.persisted }

/-- One turn of `_drain_*_queue`; that of thinking yields only. -/
def drain (t : Stream) (ch : Channel) : Stream :=
  match t.queues ch with
  | [] => t
  | item :: rest =>
    if t.admits ch item then
      { t with
        queues := Function.update t.queues ch rest
        yielded := t.yielded ++ [item]
        persisted := if ch = .thinking then t.persisted else t.persisted ++ [item] }
    else { t with queues := Function.update t.queues ch rest }

/-- `_stream_context_tags`: a thread without the context of a run has no tags; progress has none. -/
def item (own : Stream) (run : ℕ) (ch : Channel) (inContext : Bool) (text : Text) : Item :=
  if inContext ∧ ch ≠ .progress then
    { run := run, runId := own.runId, epoch := own.epoch, text := text }
  else { run := run, runId := [], epoch := 0, text := text }

end Stream

namespace Channels

/-- The stream whose handler a report comes to, and the item that it is given. -/
def delivery (s : Channels) (run : ℕ) (ch : Channel) (inContext : Bool) (text : Text) :
    Option (ℕ × Stream × Item) := do
  let own ← s.streams[run]?
  let snippet ← ch.snippet text
  let i ← s.handlers ch
  let t ← s.streams[i]?
  return (i, t, own.item run ch inContext snippet)

def step (s : Channels) : Push → Channels
  | .begins runId epoch => { s with streams := s.streams ++ [{ runId := runId, epoch := epoch }] }
  | .installs ch stream => { s with handlers := Function.update s.handlers ch stream }
  | .reports run ch inContext text =>
    match s.delivery run ch inContext text with
    | none => s
    | some (i, t, item) => { s with streams := s.streams.set i (t.push ch item) }
  | .drains i ch =>
    match s.streams[i]? with
    | none => s
    | some t => { s with streams := s.streams.set i (t.drain ch) }

/-- What a stream has yielded or persisted was reported by its own run. -/
def Isolated (s : Channels) : Prop :=
  ∀ (i : ℕ) (t : Stream), s.streams[i]? = some t →
    ∀ item ∈ t.yielded ++ t.persisted, item.run = i

/-- Nothing is left in a queue. -/
def Drained (s : Channels) : Prop := ∀ t ∈ s.streams, ∀ ch, t.queues ch = []

/-- A report comes to the handler of its own run, or to a drain that drops it by its tags. -/
def Contained (s : Channels) : Push → Prop
  | .reports run ch inContext text =>
    ∀ i t item, s.delivery run ch inContext text = some (i, t, item) →
      i = run ∨ t.admits ch item = false
  | _ => True

end Channels

/-- An item of another run that waits in a queue is going to be dropped. -/
structure Stream.Sound (t : Stream) (i : ℕ) : Prop where
  queues : ∀ ch, ∀ item ∈ t.queues ch, item.run = i ∨ t.admits ch item = false
  out : ∀ item ∈ t.yielded ++ t.persisted, item.run = i

/-- An item of another run is out, or waits in a queue and will be let out. -/
def Stream.Leaks (t : Stream) (i : ℕ) : Prop :=
  (∃ item ∈ t.yielded ++ t.persisted, item.run ≠ i) ∨
    ∃ ch, ∃ item ∈ t.queues ch, item.run ≠ i ∧ t.admits ch item

/-! ### One stream -/

theorem admits_push (t : Stream) (ch ch' : Channel) (item item' : Item) :
    (t.push ch item).admits ch' item' = t.admits ch' item' := rfl

theorem admits_drain (t : Stream) (ch ch' : Channel) (item : Item) :
    (t.drain ch).admits ch' item = t.admits ch' item := by
  rw [Stream.drain]
  split
  · rfl
  · split_ifs <;> rfl

theorem mem_push (t : Stream) (ch ch' : Channel) (item item' : Item) :
    item' ∈ (t.push ch item).queues ch' ↔ item' ∈ t.queues ch' ∨ ch' = ch ∧ item' = item := by
  simp only [Stream.push, Function.update_apply]
  split_ifs with h
  · simp [h]
  · simp [h]

theorem Stream.Sound.push {t : Stream} {i : ℕ} (h : t.Sound i) {ch : Channel} {item : Item}
    (hitem : item.run = i ∨ t.admits ch item = false) : (t.push ch item).Sound i := by
  constructor
  · intro ch' item' hmem
    rw [admits_push]
    rcases (mem_push t ch ch' item item').1 hmem with hmem | ⟨rfl, rfl⟩
    · exact h.queues ch' item' hmem
    · exact hitem
  · intro item' hmem
    simp only [Stream.push] at hmem
    split_ifs at hmem with hadmits
    · simp only [← List.append_assoc, List.mem_append, List.mem_singleton] at hmem
      rcases hmem with hmem | rfl
      · exact h.out item' (List.mem_append.2 hmem)
      · simpa [hadmits.2] using hitem
    · exact h.out item' hmem

/-- A drain takes the first item of a queue, and lets it out if it admits it. -/
theorem drain_cons {t : Stream} {ch : Channel} {item : Item} {rest : List Item}
    (h : t.queues ch = item :: rest) :
    (∀ ch' x, x ∈ (t.drain ch).queues ch' → x ∈ t.queues ch') ∧
    (∀ ch' x, x ∈ t.queues ch' → x ∈ (t.drain ch).queues ch' ∨ ch' = ch ∧ x = item) ∧
    ∀ x, x ∈ (t.drain ch).yielded ++ (t.drain ch).persisted ↔
      x ∈ t.yielded ++ t.persisted ∨ t.admits ch item ∧ x = item := by
  have hqueues : (t.drain ch).queues = Function.update t.queues ch rest := by
    simp only [Stream.drain, h]
    split_ifs <;> rfl
  refine ⟨fun ch' x hx => ?_, fun ch' x hx => ?_, fun x => ?_⟩
  · rw [hqueues, Function.update_apply] at hx
    split_ifs at hx with hch
    · simp [hch, h, hx]
    · exact hx
  · rw [hqueues, Function.update_apply]
    split_ifs with hch
    · simpa [hch, h, or_comm] using hx
    · exact Or.inl hx
  · simp only [Stream.drain, h]
    split_ifs with hadmits hch
    · simp [hadmits, or_comm, or_left_comm]
    · simp only [List.mem_append, List.mem_singleton, hadmits, true_and]
      tauto
    · simp [hadmits]

theorem drain_nil {t : Stream} {ch : Channel} (h : t.queues ch = []) : t.drain ch = t := by
  simp only [Stream.drain, h]

theorem Stream.Sound.drain {t : Stream} {i : ℕ} (h : t.Sound i) (ch : Channel) :
    (t.drain ch).Sound i := by
  cases hqueue : t.queues ch with
  | nil => rwa [drain_nil hqueue]
  | cons item rest =>
    obtain ⟨hsub, -, hout⟩ := drain_cons hqueue
    constructor
    · intro ch' item' hmem
      rw [admits_drain]
      exact h.queues ch' item' (hsub ch' item' hmem)
    · intro item' hmem
      rcases (hout item').1 hmem with hmem | ⟨hadmits, rfl⟩
      · exact h.out item' hmem
      · simpa [hadmits] using h.queues ch item' (by simp [hqueue])

theorem Stream.Leaks.push {t : Stream} {i : ℕ} (h : t.Leaks i) (ch : Channel) (item : Item) :
    (t.push ch item).Leaks i := by
  rcases h with ⟨x, hx, hrun⟩ | ⟨ch', x, hx, hrun⟩
  · refine Or.inl ⟨x, ?_, hrun⟩
    rw [List.mem_append] at hx ⊢
    refine hx.imp_right fun hx => ?_
    rw [Stream.push]
    dsimp only
    split_ifs
    · exact List.mem_append_left _ hx
    · exact hx
  · exact Or.inr ⟨ch', x, (mem_push t ch ch' item x).2 (Or.inl hx), hrun⟩

theorem Stream.Leaks.drain {t : Stream} {i : ℕ} (h : t.Leaks i) (ch : Channel) :
    (t.drain ch).Leaks i := by
  cases hqueue : t.queues ch with
  | nil => rwa [drain_nil hqueue]
  | cons item rest =>
    obtain ⟨-, hstay, hout⟩ := drain_cons hqueue
    rcases h with ⟨x, hx, hrun⟩ | ⟨ch', x, hx, hrun, hadmits⟩
    · exact Or.inl ⟨x, (hout x).2 (Or.inl hx), hrun⟩
    · rcases hstay ch' x hx with hx | ⟨rfl, rfl⟩
      · exact Or.inr ⟨ch', x, hx, hrun, by rwa [admits_drain]⟩
      · exact Or.inl ⟨x, (hout x).2 (Or.inr ⟨hadmits, rfl⟩), hrun⟩

/-! ### All streams -/

/-- Every stream is sound. -/
def Channels.Sound (s : Channels) : Prop :=
  ∀ (i : ℕ) (t : Stream), s.streams[i]? = some t → t.Sound i

/-- Some stream leaks. -/
def Channels.Leaks (s : Channels) : Prop :=
  ∃ (i : ℕ) (t : Stream), s.streams[i]? = some t ∧ t.Leaks i

variable {s : Channels}

theorem delivery_eq_some {run : ℕ} {ch : Channel} {inContext : Bool} {text : Text} {i : ℕ}
    {t : Stream} {item : Item} (h : s.delivery run ch inContext text = some (i, t, item)) :
    s.streams[i]? = some t ∧ ∃ own snippet, s.streams[run]? = some own ∧
      item = own.item run ch inContext snippet := by
  simp only [Channels.delivery, bind, Option.bind_eq_some_iff, pure, Option.some.injEq,
    Prod.mk.injEq] at h
  obtain ⟨own, hown, snippet, -, j, -, t', ht, rfl, rfl, rfl⟩ := h
  exact ⟨ht, own, snippet, hown, rfl⟩

theorem run_item (own : Stream) (run : ℕ) (ch : Channel) (inContext : Bool) (text : Text) :
    (own.item run ch inContext text).run = run := by
  rw [Stream.item]
  split_ifs <;> rfl

/-- A report is an item of the run that reports. -/
theorem run_of_delivery {run : ℕ} {ch : Channel} {inContext : Bool} {text : Text} {i : ℕ}
    {t : Stream} {item : Item} (h : s.delivery run ch inContext text = some (i, t, item)) :
    item.run = run := by
  obtain ⟨-, own, snippet, -, rfl⟩ := delivery_eq_some h
  exact run_item own run ch inContext snippet

theorem Channels.Sound.step (h : s.Sound) {e : Push} (he : s.Contained e) : (s.step e).Sound := by
  cases e with
  | begins runId epoch =>
    intro i t hi
    rcases getElem?_concat_eq_some.1 hi with hi | ⟨-, rfl⟩
    · exact h i t hi
    · exact ⟨fun ch item hitem => by simp at hitem, fun item hitem => by simp at hitem⟩
  | installs ch stream => exact h
  | reports run ch inContext text =>
    cases hdelivery : s.delivery run ch inContext text with
    | none =>
      simp only [Channels.step, hdelivery]
      exact h
    | some d =>
      obtain ⟨i, t, item⟩ := d
      have hi := (delivery_eq_some hdelivery).1
      have hrun := run_of_delivery hdelivery
      have hitem : item.run = i ∨ t.admits ch item = false :=
        (he i t item hdelivery).imp_left fun heq => by rw [hrun, heq]
      simp only [Channels.step, hdelivery]
      exact forall_getElem?_set h hi ((h i t hi).push hitem)
  | drains i ch =>
    cases hi : s.streams[i]? with
    | none =>
      simp only [Channels.step, hi]
      exact h
    | some t =>
      simp only [Channels.step, hi]
      exact forall_getElem?_set h hi ((h i t hi).drain ch)

/-- A stream that is replaced by one that leaks as well. -/
theorem leaks_set {i : ℕ} {t u : Stream} (hi : s.streams[i]? = some t)
    (hu : t.Leaks i → u.Leaks i) (h : s.Leaks) :
    { s with streams := s.streams.set i u : Channels }.Leaks := by
  obtain ⟨j, v, hj, hleaks⟩ := h
  rcases eq_or_ne j i with rfl | hne
  · rw [hi, Option.some.injEq] at hj
    exact ⟨j, u, getElem?_set_same hi u, hu (hj ▸ hleaks)⟩
  · exact ⟨j, v, by rw [getElem?_set_of_some hi, if_neg hne, hj], hleaks⟩

theorem Channels.Leaks.step (h : s.Leaks) (e : Push) : (s.step e).Leaks := by
  cases e with
  | begins runId epoch =>
    obtain ⟨i, t, hi, hleaks⟩ := h
    exact ⟨i, t, getElem?_concat_eq_some.2 (Or.inl hi), hleaks⟩
  | installs ch stream => exact h
  | reports run ch inContext text =>
    cases hdelivery : s.delivery run ch inContext text with
    | none =>
      simp only [Channels.step, hdelivery]
      exact h
    | some d =>
      obtain ⟨i, t, item⟩ := d
      simp only [Channels.step, hdelivery]
      exact leaks_set (delivery_eq_some hdelivery).1 (fun hleaks => hleaks.push ch item) h
  | drains i ch =>
    cases hi : s.streams[i]? with
    | none =>
      simp only [Channels.step, hi]
      exact h
    | some t =>
      simp only [Channels.step, hi]
      exact leaks_set hi (fun hleaks => hleaks.drain ch) h

/-- A report that comes to the stream of another run and passes its drain. -/
theorem leaks_of_not_contained {e : Push} (he : ¬ s.Contained e) : (s.step e).Leaks := by
  cases e with
  | reports run ch inContext text =>
    simp only [Channels.Contained, not_forall, not_or, Bool.not_eq_false] at he
    obtain ⟨i, t, item, hdelivery, hne, hadmits⟩ := he
    have hi := (delivery_eq_some hdelivery).1
    have hrun := run_of_delivery hdelivery
    simp only [Channels.step, hdelivery]
    refine ⟨i, t.push ch item, getElem?_set_same hi _, Or.inr ⟨ch, item, ?_⟩⟩
    exact ⟨(mem_push t ch ch item item).2 (Or.inr ⟨rfl, rfl⟩), fun h => hne (by rw [← h, hrun]),
      by rwa [admits_push]⟩
  | _ => exact absurd trivial he

/-- What leaks is out once the queues are drained. -/
theorem not_isolated_of_leaks (h : s.Leaks) (hdrained : s.Drained) : ¬ s.Isolated := by
  obtain ⟨i, t, hi, ⟨x, hx, hrun⟩ | ⟨ch, x, hx, -⟩⟩ := h
  · exact fun hisolated => hrun (hisolated i t hi x hx)
  · rw [hdrained t (List.mem_of_getElem? hi) ch] at hx
    cases hx

/-- No stream yields or persists what another run has reported, in every run of the process in which
    each report comes to the stream of its own run or to a drain that drops it by its tags; and where
    all queues have been drained, only then. -/
theorem isolated_iff (trace : List Push) :
    (Along Channels.step Channels.Contained {} trace → (run Channels.step {} trace).Isolated) ∧
    ((run Channels.step {} trace).Drained →
      ((run Channels.step {} trace).Isolated ↔
        Along Channels.step Channels.Contained {} trace)) := by
  rcases along_or_broken (I := Channels.Sound) (B := Channels.Leaks)
    (fun s e hs he => hs.step he) (fun s e _ he => leaks_of_not_contained he)
    (fun s e hs => hs.step e) trace {} (fun i t hi => by simp at hi) with
      ⟨halong, hs⟩ | ⟨halong, hs⟩
  · have hisolated : (run Channels.step {} trace).Isolated := fun i t hi => (hs i t hi).out
    exact ⟨fun _ => hisolated, fun _ => iff_of_true hisolated halong⟩
  · exact ⟨fun h => absurd h halong,
      fun hdrained => iff_of_false (not_isolated_of_leaks hs hdrained) halong⟩

/-- Two streams of which the second has taken over the handler of the answers. -/
def lateAnswer : List Push :=
  [.begins "r1".toList 0, .installs .answer (some 0), .begins "r2".toList 1,
    .installs .answer (some 1), .reports 0 .answer true "stale".toList, .drains 1 .answer]

/-- The answer of the first run comes out of the second stream. -/
theorem lateAnswer_leaks : ¬ (run Channels.step {} lateAnswer).Isolated := by
  intro h
  have hout : (run Channels.step {} lateAnswer).streams[1]?.map (fun t => t.yielded.map Item.run) =
      some [0] := by decide +kernel
  obtain ⟨t, ht, hyielded⟩ := Option.map_eq_some_iff.1 hout
  have hmem : 0 ∈ t.yielded.map Item.run := by simp [hyielded]
  obtain ⟨x, hx, hrun⟩ := List.mem_map.1 hmem
  have hown := h 1 t ht x (List.mem_append_left _ hx)
  omega

end AgentLangraph.Events
