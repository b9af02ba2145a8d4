import AgentLangraph.Lib.Kept
import AgentLangraph.Lib.PyText
import AgentLangraph.Lib.Trace
import Mathlib.Data.List.Chain
import Mathlib.Data.Rat.Floor

/-! The limit on the rate of requests (`rate_limit.py`). In memory a key has the times of the requests that were
    admitted; in Redis it has a counter of all requests, and each of them, a rejected one too, puts off its expiry.

        memory   |· · ·|✗ ✗ ·                         Redis   · · · ✗ ✗ ✗ ✗ ✗ ✗ …
                 └─────┘ window                               └─┘└─┘└─┘ no gap as long as the window -/

namespace AgentLangraph.Quota
open PyText Trace Newest

/-! ### In memory -/

/-- `_windows`: for each key the times that were kept. -/
structure RateLimiter where
  windows : Text → List ℚ

def RateLimiter.empty : RateLimiter := ⟨fun _ => []⟩

/-- The times after the cutoff. -/
def recent (windowSec now : ℚ) (times : List ℚ) : List ℚ := times.filter fun t => now - windowSec < t

def RateLimiter.prune (s : RateLimiter) (key : Text) (windowSec now : ℚ) : RateLimiter :=
  ⟨Function.update s.windows key (recent windowSec now (s.windows key))⟩

def RateLimiter.memoryCheck (s : RateLimiter) (key : Text) (limit : ℤ) (windowSec now : ℚ) : Bool × RateLimiter :=
  let s := s.prune key windowSec now
  if limit ≤ (s.windows key).length then (false, s)
  else (true, ⟨Function.update s.windows key (s.windows key ++ [now])⟩)

/-! ### In Redis -/

/-- A counter, and when it expires (`none`: never). -/
structure Counter where
  count : ℕ
  deadline : Option ℚ

structure Redis where
  counters : Text → Option Counter

def Redis.empty : Redis := ⟨fun _ => none⟩

section
-- whether a key with this deadline is gone
variable (expired : ℚ → ℚ → Bool)

/-- What is documented of a timeout: the key is there before it and gone after it. -/
structure Timeout : Prop where
  before : ∀ deadline now, now < deadline → expired deadline now = false
  after : ∀ deadline now, deadline < now → expired deadline now = true

def Redis.get (r : Redis) (key : Text) (now : ℚ) : Option Counter :=
  (r.counters key).filter fun c => !c.deadline.any fun d => expired d now

/-- `INCR`: a key that is not there counts from 0 and has no deadline; one that is there keeps its deadline. -/
def Redis.incr (r : Redis) (key : Text) (now : ℚ) : ℕ × Redis :=
  let c : Counter := match r.get expired key now with
    | some c => { c with count := c.count + 1 }
    | none => ⟨1, none⟩
  (c.count, ⟨Function.update r.counters key (some c)⟩)

/-- `EXPIRE`. -/
def Redis.expire (r : Redis) (key : Text) (windowSec : ℤ) (now : ℚ) : Redis :=
  ⟨Function.update r.counters key ((r.counters key).map fun c => { c with deadline := some (now + windowSec) })⟩

/-- `f"agent:ratelimit:{key}"`. -/
def rateKey (key : Text) : Text := "agent:ratelimit:".toList ++ key

/-- The limiter and the server it asks. -/
structure Limits where
  limiter : RateLimiter
  redis : Redis

def Limits.empty : Limits := ⟨.empty, .empty⟩

def Limits.memoryCheck (s : Limits) (key : Text) (limit : ℤ) (windowSec now : ℚ) : Bool × Limits :=
  let r := s.limiter.memoryCheck key limit windowSec now
  (r.1, { s with limiter := r.2 })

/-- `reply` is false where there is no client, or the pipeline raises: then memory decides. -/
def Limits.redisCheck (s : Limits) (reply : Bool) (key : Text) (limit windowSec : ℤ) (now : ℚ) : Bool × Limits :=
  if reply then
    let r := s.redis.incr expired (rateKey key) now
    (r.1 ≤ limit, { s with redis := r.2.expire (rateKey key) windowSec now })
  else s.memoryCheck key limit windowSec now

/-- `check`; `useRedis` is `RATE_LIMIT_REDIS`, with a client. -/
def Limits.check (s : Limits) (useRedis reply : Bool) (key : Text) (limit windowSec : ℤ) (now : ℚ) : Bool × Limits :=
  if limit ≤ 0 then (true, s)
  else if useRedis then s.redisCheck expired reply key limit windowSec now
  else s.memoryCheck key limit windowSec now

/-! ### Decisions -/

/-- The requests of a key at the given times, each with what `check` answers. -/
def decisions (useRedis : Bool) (key : Text) (limit windowSec : ℤ) : Limits → List ℚ → List (ℚ × Bool)
  | _, [] => []
  | s, now :: times =>
    let r := s.check expired useRedis true key limit windowSec now
    (now, r.1) :: decisions useRedis key limit windowSec r.2 times

end

/-- The times that were admitted. -/
def admitNext (admitted : List ℚ) (d : ℚ × Bool) : List ℚ := if d.2 then admitted ++ [d.1] else admitted

/-- The requests of a window that were admitted: those after `x`, up to the length of the window. -/
def inWindow (windowSec x : ℚ) (times : List ℚ) : List ℚ := times.filter fun t => x < t ∧ t ≤ x + windowSec

/-- No window has more than the limit, and what is rejected comes after as many as the limit in the window. -/
structure Limited (limit windowSec : ℤ) (ds : List (ℚ × Bool)) : Prop where
  never : ∀ x, (inWindow windowSec x (run admitNext [] ds)).length ≤ limit
  noneLess : Along admitNext (fun admitted d => d.2 = false → limit ≤ (recent windowSec d.1 admitted).length) [] ds

/-- The backends admit the same requests, and both as they should. -/
structure Agree (expired : ℚ → ℚ → Bool) (key : Text) (limit windowSec : ℤ) (times : List ℚ) : Prop where
  same : decisions expired false key limit windowSec .empty times =
    decisions expired true key limit windowSec .empty times
  memory : Limited limit windowSec (decisions expired false key limit windowSec .empty times)
  redis : Limited limit windowSec (decisions expired true key limit windowSec .empty times)

/-- Each request comes before the counter of the one before it is gone. -/
def Steady (expired : ℚ → ℚ → Bool) (windowSec : ℤ) (times : List ℚ) : Prop :=
  times.IsChain fun t t' => expired (t + windowSec) t' = false

/-- More requests than the limit, each before the counter of the one before it is gone, come within a window. -/
def BurstsShort (expired : ℚ → ℚ → Bool) (limit windowSec : ℤ) (times : List ℚ) : Prop :=
  ∀ burst, burst <:+: times → Steady expired windowSec burst → limit < burst.length →
    ∀ first ∈ burst.head?, ∀ last ∈ burst.getLast?, last < first + windowSec

/-! ### What each decision hangs on -/

/-- What is admitted comes after fewer than the limit in the window. -/
def Sparing (limit windowSec : ℤ) (admitted : List ℚ) (d : ℚ × Bool) : Prop :=
  d.2 = true → (recent windowSec d.1 admitted).length < limit

/-- What is rejected does not. -/
def Generous (limit windowSec : ℤ) (admitted : List ℚ) (d : ℚ × Bool) : Prop :=
  d.2 = false → limit ≤ (recent windowSec d.1 admitted).length

variable {limit windowSec : ℤ} {expired : ℚ → ℚ → Bool} {key : Text}

theorem inWindow_concat (windowSec x t : ℚ) (times : List ℚ) : inWindow windowSec x (times ++ [t]) =
    inWindow windowSec x times ++ if x < t ∧ t ≤ x + windowSec then [t] else [] := by
  rw [inWindow, List.filter_append, inWindow, List.filter_cons, List.filter_nil]
  simp only [decide_eq_true_eq]

theorem never_of_sparing (hlimit : 0 ≤ limit) {ds : List (ℚ × Bool)} :
    Along admitNext (Sparing limit windowSec) [] ds →
      ∀ x, (inWindow windowSec x (run admitNext [] ds)).length ≤ limit := by
  induction ds using List.reverseRecOn with
  | nil => exact fun _ _ => hlimit
  | append_singleton ds d ih =>
    intro hsparing x
    rw [along_append] at hsparing
    obtain ⟨hbefore, hlast, -⟩ := hsparing
    have hold := ih hbefore x
    rw [run_append, run_cons, run_nil, admitNext]
    split_ifs with hadmitted
    · by_cases hin : x < d.1 ∧ d.1 ≤ x + windowSec
      · -- what the window holds besides is recent at the last request
        have hsub : (inWindow windowSec x (run admitNext [] ds)).length ≤
            (recent windowSec d.1 (run admitNext [] ds)).length := by
          refine List.Sublist.length_le (List.monotone_filter_right _ fun t ht => ?_)
          rw [decide_eq_true_eq] at ht ⊢
          linarith [hin.2, ht.1]
        have hfew := hlast hadmitted
        rw [inWindow_concat, if_pos hin, List.length_append, List.length_singleton]
        omega
      · rw [inWindow_concat, if_neg hin, List.append_nil]
        exact hold
    · exact hold

/-- A request is admitted or rejected by what was admitted before, so there is one way to decide. -/
theorem eq_of_exact : ∀ {ds es : List (ℚ × Bool)} {admitted : List ℚ}, ds.map Prod.fst = es.map Prod.fst →
    Along admitNext (Sparing limit windowSec) admitted ds → Along admitNext (Generous limit windowSec) admitted ds →
    Along admitNext (Sparing limit windowSec) admitted es → Along admitNext (Generous limit windowSec) admitted es →
    ds = es
  | [], [], _, _, _, _, _, _ => rfl
  | [], _ :: _, _, h, _, _, _, _ => absurd h (by simp)
  | _ :: _, [], _, h, _, _, _, _ => absurd h (by simp)
  | (t, b) :: ds, (t', b') :: es, admitted, h, hsd, hgd, hse, hge => by
    rw [List.map_cons, List.map_cons, List.cons.injEq] at h
    obtain ⟨rfl, htimes⟩ := h
    have hb : b = b' := by
      cases b with
      | true =>
        cases b' with
        | true => rfl
        | false => exact absurd (hsd.1 rfl) (not_lt.2 (hge.1 rfl))
      | false =>
        cases b' with
        | true => exact absurd (hse.1 rfl) (not_lt.2 (hgd.1 rfl))
        | false => rfl
    rw [hb] at hsd hgd ⊢
    rw [eq_of_exact htimes hsd.2 hgd.2 hse.2 hge.2]

theorem times_decisions (useRedis : Bool) : ∀ (s : Limits) (times : List ℚ),
    (decisions expired useRedis key limit windowSec s times).map Prod.fst = times
  | _, [] => rfl
  | s, t :: times => by rw [decisions, List.map_cons, times_decisions useRedis _ times]

/-! ### The window in memory -/

theorem recent_recent {now now' : ℚ} (h : now ≤ now') (times : List ℚ) :
    recent windowSec now' (recent windowSec now times) = recent windowSec now' times := by
  rw [recent, recent, List.filter_filter]
  refine List.filter_congr fun t _ => ?_
  rw [← Bool.decide_and, decide_eq_decide]
  exact and_iff_left_of_imp fun ht => by linarith

theorem recent_append (now : ℚ) (times times' : List ℚ) :
    recent windowSec now (times ++ times') = recent windowSec now times ++ recent windowSec now times' :=
  List.filter_append ..

theorem memoryCheck_eq (s : RateLimiter) (now : ℚ) :
    (s.memoryCheck key limit windowSec now).1 = decide ((recent windowSec now (s.windows key)).length < limit) ∧
      (s.memoryCheck key limit windowSec now).2.windows key =
        admitNext (recent windowSec now (s.windows key)) (now, (s.memoryCheck key limit windowSec now).1) := by
  rw [RateLimiter.memoryCheck, RateLimiter.prune]
  simp only [Function.update_self]
  split_ifs with hfull
  · exact ⟨(decide_eq_false (not_lt.2 hfull)).symm, Function.update_self ..⟩
  · exact ⟨(decide_eq_true (not_le.1 hfull)).symm, Function.update_self ..⟩

/-- The kept times are, as far as they still count, those that were admitted. -/
theorem memory_exact (hlimit : 0 < limit) : ∀ (times : List ℚ) (s : Limits) (admitted : List ℚ),
    times.Pairwise (· ≤ ·) →
    (∀ t ∈ times, recent windowSec t (s.limiter.windows key) = recent windowSec t admitted) →
    Along admitNext (Sparing limit windowSec) admitted (decisions expired false key limit windowSec s times) ∧
      Along admitNext (Generous limit windowSec) admitted (decisions expired false key limit windowSec s times)
  | [], _, _, _, _ => ⟨trivial, trivial⟩
  | now :: times, s, admitted, hsorted, hkept => by
    rw [List.pairwise_cons] at hsorted
    rw [List.forall_mem_cons] at hkept
    have hcheck := @memoryCheck_eq limit windowSec key s.limiter now
    have hstep : s.check expired false true key limit windowSec now = s.memoryCheck key limit windowSec now := by
      rw [Limits.check, if_neg (not_le.2 hlimit), if_neg (by decide)]
    rw [decisions, hstep, Limits.memoryCheck]
    dsimp only
    rw [hkept.1] at hcheck
    have hrest := memory_exact hlimit times { s with limiter := (s.limiter.memoryCheck key limit windowSec now).2 }
      (admitNext admitted (now, (s.limiter.memoryCheck key limit windowSec now).1)) hsorted.2 (by
        intro t ht
        have hle := hsorted.1 t ht
        rw [hcheck.2, admitNext, admitNext]
        split_ifs
        · rw [recent_append, recent_append, recent_recent hle]
        · exact recent_recent hle admitted)
    refine ⟨⟨fun h => ?_, hrest.1⟩, ⟨fun h => ?_, hrest.2⟩⟩
    · exact of_decide_eq_true (hcheck.1.symm.trans h)
    · exact not_lt.1 (of_decide_eq_false (hcheck.1.symm.trans h))

/-! ### The counter in Redis -/

instance (times : List ℚ) : Decidable (Steady expired windowSec times) :=
  inferInstanceAs (Decidable (List.IsChain _ times))

/-- The requests that the counter counts: the last ones, as far back as each came before the counter was gone. -/
def counted (expired : ℚ → ℚ → Bool) (windowSec : ℤ) (times : List ℚ) : List ℚ :=
  newest (fun l => Steady expired windowSec l) times

theorem counted_suffix (times : List ℚ) : counted expired windowSec times <:+ times := newest_suffix times

theorem steady_counted (times : List ℚ) : Steady expired windowSec (counted expired windowSec times) :=
  of_decide_eq_true (@fits_newest _ (fun l => Steady expired windowSec l) (decide_eq_true .nil) times)

theorem suffix_counted {times burst : List ℚ} (h : burst <:+ times) (hsteady : Steady expired windowSec burst) :
    burst <:+ counted expired windowSec times := suffix_newest (decide_eq_true hsteady) h

theorem getLast?_of_suffix {α : Type*} {l m : List α} (h : m <:+ l) (hne : m ≠ []) : m.getLast? = l.getLast? := by
  obtain ⟨front, rfl⟩ := h
  rw [List.getLast?_append_of_ne_nil _ hne]

theorem counted_nil : counted expired windowSec [] = [] := rfl

theorem steady_concat {m : List ℚ} {last : ℚ} (hlast : m.getLast? = some last) (now : ℚ) :
    Steady expired windowSec (m ++ [now]) ↔ Steady expired windowSec m ∧ expired (last + windowSec) now = false := by
  rw [Steady, List.isChain_append, hlast]
  simp [Steady]

/-- A request before the counter is gone is counted with those before it. -/
theorem counted_live {times : List ℚ} {last now : ℚ} (hlast : times.getLast? = some last)
    (hlive : expired (last + windowSec) now = false) :
    counted expired windowSec (times ++ [now]) = counted expired windowSec times ++ [now] :=
  newest_concat (decide_eq_true (.singleton now)) fun _ hne hm => decide_eq_decide.2
    ((steady_concat ((getLast?_of_suffix hm hne).trans hlast) now).trans (and_iff_left hlive))

/-- A request after that starts a new count. -/
theorem counted_gone {times : List ℚ} {now : ℚ}
    (hgone : ∀ last, times.getLast? = some last → expired (last + windowSec) now = true) :
    counted expired windowSec (times ++ [now]) = [now] := by
  refine newest_concat_alone (decide_eq_true (.singleton now)) fun m hne hm => decide_eq_false fun hsteady => ?_
  obtain ⟨last, hlast⟩ := Option.isSome_iff_exists.1 (List.getLast?_isSome.2 hne)
  have hlive := ((steady_concat hlast now).1 hsteady).2
  rw [hgone last ((getLast?_of_suffix hm hne).symm.trans hlast)] at hlive
  exact absurd hlive (by decide)

theorem counted_ne_nil {times : List ℚ} (h : times ≠ []) : counted expired windowSec times ≠ [] := by
  have hlast : [times.getLast h] <:+ times := ⟨_, List.dropLast_append_getLast h⟩
  exact List.IsSuffix.ne_nil (suffix_counted hlast (.singleton _)) (List.cons_ne_nil _ _)

/-- The counter of the requests before is still there, or gone. -/
theorem live_or_gone (expired : ℚ → ℚ → Bool) (windowSec : ℤ) (times : List ℚ) (now : ℚ) :
    (∃ last, times.getLast? = some last ∧ expired (last + windowSec) now = false) ∨
      ∀ last, times.getLast? = some last → expired (last + windowSec) now = true := by
  cases hlast : times.getLast? with
  | none => exact Or.inr nofun
  | some last =>
    cases hgone : expired (last + windowSec) now with
    | false => exact Or.inl ⟨last, rfl, hgone⟩
    | true => exact Or.inr fun l hl => by rwa [← Option.some.inj hl]

/-- The counter of the key after the requests `times`. -/
def Limits.Counts (expired : ℚ → ℚ → Bool) (key : Text) (windowSec : ℤ) (s : Limits) (times : List ℚ) : Prop :=
  s.redis.counters (rateKey key) =
    times.getLast?.map fun last => ⟨(counted expired windowSec times).length, some (last + windowSec)⟩

/-- STEP: a request is admitted while no more are counted than the limit, and is counted either way. -/
theorem redisCheck_counts (hlimit : 0 < limit) {s : Limits} {times : List ℚ} (h : s.Counts expired key windowSec times)
    (now : ℚ) : (s.check expired true true key limit windowSec now).1 =
      decide (((counted expired windowSec (times ++ [now])).length : ℤ) ≤ limit) ∧
    (s.check expired true true key limit windowSec now).2.Counts expired key windowSec (times ++ [now]) := by
  have hincr : (s.redis.incr expired (rateKey key) now).1 = (counted expired windowSec (times ++ [now])).length ∧
      ((s.redis.incr expired (rateKey key) now).2.counters (rateKey key)).map Counter.count =
        some (counted expired windowSec (times ++ [now])).length := by
    rw [Redis.incr, Redis.get, h]
    cases hlast : times.getLast? with
    | none =>
      have hcounted : counted expired windowSec (times ++ [now]) = [now] :=
        counted_gone fun last hsome => absurd (hlast.symm.trans hsome) nofun
      simp [hcounted]
    | some last =>
      cases hgone : expired (last + windowSec) now with
      | false => simp [hgone, Option.filter, counted_live hlast hgone]
      | true =>
        have hcounted : counted expired windowSec (times ++ [now]) = [now] :=
          counted_gone fun l hsome => by rwa [← Option.some.inj (hlast.symm.trans hsome)]
        simp [hgone, Option.filter, hcounted]
  rw [Limits.check, if_neg (not_le.2 hlimit), if_pos rfl, Limits.redisCheck, if_pos rfl]
  unfold Limits.Counts Redis.expire
  simp only [hincr.1, Function.update_self, List.getLast?_append, List.getLast?_singleton, Option.some_or,
    Option.map_some, true_and]
  obtain ⟨c, hc, hcount⟩ := Option.map_eq_some_iff.1 hincr.2
  rw [hc, Option.map_some, ← hcount]

/-- What was admitted: of what is counted the first up to the limit, and before these what is a window older. -/
structure Tally (expired : ℚ → ℚ → Bool) (limit windowSec : ℤ) (times admitted : List ℚ) : Prop where
  split : ∃ old, admitted = old ++ (counted expired windowSec times).take limit.toNat ∧
    ∀ t ∈ old, ∀ first ∈ (counted expired windowSec times).head?, t + windowSec ≤ first
  latest : ∀ t ∈ admitted, ∃ last ∈ times.getLast?, t ≤ last

theorem Timeout.live {expired : ℚ → ℚ → Bool} (h : Timeout expired) {deadline now : ℚ}
    (hlive : expired deadline now = false) : now ≤ deadline := by
  by_contra hlt
  rw [h.after deadline now (not_le.1 hlt)] at hlive
  exact absurd hlive (by decide)

theorem Timeout.gone {expired : ℚ → ℚ → Bool} (h : Timeout expired) {deadline now : ℚ}
    (hgone : expired deadline now = true) : deadline ≤ now := by
  by_contra hlt
  rw [h.before deadline now (not_le.1 hlt)] at hgone
  exact absurd hgone (by decide)

theorem recent_eq_nil {now : ℚ} {times : List ℚ} (h : ∀ t ∈ times, t + windowSec ≤ now) :
    recent windowSec now times = [] := by
  rw [recent, List.filter_eq_nil_iff]
  intro t ht hrecent
  linarith [h t ht, of_decide_eq_true hrecent]

/-- Of what was admitted the requests that are counted with the new one are all that may be recent. -/
theorem Tally.before_now {times admitted : List ℚ} (htimeout : Timeout expired)
    (h : Tally expired limit windowSec times admitted) {now : ℚ} (hsorted : (times ++ [now]).Pairwise (· ≤ ·)) :
    ∃ before, counted expired windowSec (times ++ [now]) = before ++ [now] ∧
      recent windowSec now admitted = recent windowSec now (before.take limit.toNat) := by
  rcases live_or_gone expired windowSec times now with ⟨last, hlast, hlive⟩ | hgone
  · obtain ⟨old, hadmitted, hold⟩ := h.split
    refine ⟨_, counted_live hlast hlive, ?_⟩
    rw [hadmitted, recent_append, recent_eq_nil fun t ht => ?_, List.nil_append]
    have hne : times ≠ [] := by
      rintro rfl
      exact absurd hlast nofun
    have hcounted : counted expired windowSec times ≠ [] := counted_ne_nil hne
    have hmem := (counted_suffix times).sublist.subset (List.head_mem hcounted)
    exact (hold t ht _ (List.head?_eq_some_head hcounted)).trans
      ((List.pairwise_append.1 hsorted).2.2 _ hmem now (List.mem_singleton_self now))
  · refine ⟨[], counted_gone hgone, ?_⟩
    rw [List.take_nil, recent_eq_nil fun t ht => ?_]
    · rfl
    · obtain ⟨last, hlast, hbefore⟩ := h.latest t ht
      linarith [htimeout.gone (hgone last hlast)]

/-- What the decision on the last of the counted requests hangs on. -/
def Fine (limit windowSec : ℤ) (burst : List ℚ) (now : ℚ) : Prop :=
  limit < burst.length → ∀ first ∈ burst.head?, now < first + windowSec

/-- Counting never admits too much; it rejects too much exactly when the first that is counted is a window old. -/
theorem Tally.decides {times admitted : List ℚ} (hlimit : 0 < limit) (htimeout : Timeout expired)
    (h : Tally expired limit windowSec times admitted) {now : ℚ} (hsorted : (times ++ [now]).Pairwise (· ≤ ·))
    {b : Bool} (hb : b = decide (((counted expired windowSec (times ++ [now])).length : ℤ) ≤ limit)) :
    Sparing limit windowSec admitted (now, b) ∧ (Generous limit windowSec admitted (now, b) ↔
      Fine limit windowSec (counted expired windowSec (times ++ [now])) now) := by
  obtain ⟨before, hcounted, hrecent⟩ := h.before_now htimeout hsorted
  have hlength : ((counted expired windowSec (times ++ [now])).length : ℤ) = before.length + 1 := by
    rw [hcounted, List.length_append, List.length_singleton, Nat.cast_add, Nat.cast_one]
  have hfew : (recent windowSec now (before.take limit.toNat)).length ≤ before.length :=
    (List.length_filter_le _ _).trans (List.length_take_le' _ _)
  rw [Sparing, Generous, hrecent, Fine, hlength]
  rw [hlength] at hb
  refine ⟨fun hadmitted => ?_, ?_⟩
  · have hle := of_decide_eq_true (hb.symm.trans hadmitted)
    omega
  by_cases hover : limit < before.length + 1
  · have hfull : (before.take limit.toNat).length = limit.toNat := List.length_take_of_le (by omega)
    have hne : before ≠ [] := by
      rintro rfl
      rw [List.length_nil] at hover
      omega
    have hhead : (before ++ [now]).head? = some (before.head hne) := by
      rw [List.head?_append_of_ne_nil _ hne, List.head?_eq_some_head hne]
    have hrejected : b = false := hb.trans (decide_eq_false (by omega))
    have hbsorted : before.Pairwise (· ≤ ·) := by
      have hsuffix : before ++ [now] <:+ times ++ [now] := hcounted ▸ counted_suffix (times ++ [now])
      exact (List.pairwise_append.1 (hsorted.sublist hsuffix.sublist)).1
    rw [hcounted, hhead]
    constructor
    · intro hmany _ first hfirst
      -- all that are counted are recent, the first too
      have hmany := hmany hrejected
      have hall : recent windowSec now (before.take limit.toNat) = before.take limit.toNat := by
        refine List.filter_sublist.eq_of_length_le ?_
        rw [recent] at hmany
        omega
      have hmem : before.head hne ∈ before.take limit.toNat := by
        cases before with
        | nil => exact absurd rfl hne
        | cons x xs =>
          obtain ⟨n, hn⟩ : ∃ n, limit.toNat = n + 1 := ⟨limit.toNat - 1, by omega⟩
          rw [hn, List.take_succ_cons]
          exact List.mem_cons_self
      rw [← hall] at hmem
      have hrec := of_decide_eq_true (List.mem_filter.1 hmem).2
      rw [← Option.some.inj hfirst]
      linarith
    · intro hfine _
      have hfirst := hfine hover (before.head hne) rfl
      have hall : recent windowSec now (before.take limit.toNat) = before.take limit.toNat := by
        refine List.filter_eq_self.2 fun t ht => decide_eq_true ?_
        have hle : before.head hne ≤ t := by
          cases before with
          | nil => exact absurd rfl hne
          | cons x xs =>
            rcases List.mem_cons.1 (List.mem_of_mem_take ht) with rfl | hmem
            · exact le_rfl
            · exact (List.pairwise_cons.1 hbsorted).1 t hmem
        linarith
      rw [hall, hfull]
      omega
  · have hadmitted : b = true := hb.trans (decide_eq_true (by omega))
    exact iff_of_true (fun hrejected => absurd (hadmitted.symm.trans hrejected) (by decide))
      fun hlt => absurd hlt hover

theorem Tally.step {times admitted : List ℚ} (hlimit : 0 < limit) (htimeout : Timeout expired)
    (h : Tally expired limit windowSec times admitted) {now : ℚ} (hsorted : (times ++ [now]).Pairwise (· ≤ ·)) :
    Tally expired limit windowSec (times ++ [now]) (admitNext admitted
      (now, decide (((counted expired windowSec (times ++ [now])).length : ℤ) ≤ limit))) := by
  have hle : ∀ t ∈ admitted, t ≤ now := fun t ht => by
    obtain ⟨last, hlast, hbefore⟩ := h.latest t ht
    exact hbefore.trans ((List.pairwise_append.1 hsorted).2.2 last (List.mem_of_getLast? hlast) now
      (List.mem_singleton_self now))
  refine ⟨?_, fun t ht => ⟨now, by simp, ?_⟩⟩
  · rcases live_or_gone expired windowSec times now with ⟨last, hlast, hlive⟩ | hgone
    · obtain ⟨old, hadmitted, hold⟩ := h.split
      have hne : times ≠ [] := by
        rintro rfl
        exact absurd hlast nofun
      have hcounted : counted expired windowSec times ≠ [] := counted_ne_nil hne
      refine ⟨old, ?_, fun t ht first hfirst => hold t ht first ?_⟩
      · rw [counted_live hlast hlive, admitNext, List.take_append, List.length_append, List.length_singleton]
        split_ifs with hadmits
        · have hroom := of_decide_eq_true hadmits
          obtain ⟨n, hn⟩ : ∃ n, limit.toNat - (counted expired windowSec times).length = n + 1 :=
            ⟨limit.toNat - (counted expired windowSec times).length - 1, by omega⟩
          rw [hn, List.take_succ_cons, List.take_nil, ← List.append_assoc, ← hadmitted]
        · have hfull := of_decide_eq_false (Bool.not_eq_true _ ▸ hadmits)
          have hzero : limit.toNat - (counted expired windowSec times).length = 0 := by omega
          rw [hzero, List.take_zero, List.append_nil, hadmitted]
      · rwa [counted_live hlast hlive, List.head?_append_of_ne_nil _ hcounted] at hfirst
    · refine ⟨admitted, ?_, fun t ht first hfirst => ?_⟩
      · obtain ⟨n, hn⟩ : ∃ n, limit.toNat = n + 1 := ⟨limit.toNat - 1, by omega⟩
        rw [counted_gone hgone, admitNext, hn, List.take_succ_cons, List.take_nil, if_pos]
        exact decide_eq_true (by rw [List.length_singleton]; omega)
      · rw [counted_gone hgone] at hfirst
        obtain ⟨last, hlast, hbefore⟩ := h.latest t ht
        rw [← Option.some.inj hfirst]
        linarith [htimeout.gone (hgone last hlast)]
  · rw [admitNext] at ht
    split_ifs at ht
    · rcases List.mem_append.1 ht with hold | hnew
      · exact hle t hold
      · rw [List.mem_singleton.1 hnew]
    · exact hle t ht

/-- RUN: with the counter nothing is admitted beyond the limit, and each decision is as it should be exactly when
    the requests counted at it are a burst shorter than the window, or no more than the limit. -/
theorem redis_exact (hlimit : 0 < limit) (htimeout : Timeout expired) : ∀ (times : List ℚ) (s : Limits)
    (past admitted : List ℚ), (past ++ times).Pairwise (· ≤ ·) → s.Counts expired key windowSec past →
    Tally expired limit windowSec past admitted →
    Along admitNext (Sparing limit windowSec) admitted (decisions expired true key limit windowSec s times) ∧
      (Along admitNext (Generous limit windowSec) admitted (decisions expired true key limit windowSec s times) ↔
        ∀ before now, before ++ [now] <+: times →
          Fine limit windowSec (counted expired windowSec (past ++ before ++ [now])) now)
  | [], _, _, _, _, _, _ => ⟨trivial, iff_of_true trivial fun before now h =>
      absurd (List.prefix_nil.1 h) (List.append_ne_nil_of_right_ne_nil _ (List.cons_ne_nil _ _))⟩
  | now :: times, s, past, admitted, hsorted, hcounts, htally => by
    have hnext : (past ++ [now] ++ times).Pairwise (· ≤ ·) := by
      rwa [List.append_assoc, List.singleton_append]
    have hnow : (past ++ [now]).Pairwise (· ≤ ·) := (List.pairwise_append.1 hnext).1
    have hcheck := redisCheck_counts hlimit hcounts now
    have hdecides := htally.decides hlimit htimeout hnow hcheck.1
    have hstep := htally.step hlimit htimeout hnow
    rw [← hcheck.1] at hstep
    have hrest := redis_exact hlimit htimeout times _ _ _ hnext hcheck.2 hstep
    rw [decisions]
    refine ⟨⟨hdecides.1, hrest.1⟩, ?_⟩
    rw [Along, hdecides.2, hrest.2]
    constructor
    · rintro ⟨hfine, hfines⟩ before last hfront
      cases before with
      | nil =>
        rw [List.nil_append, List.cons_prefix_cons] at hfront
        rw [List.append_nil, hfront.1]
        exact hfine
      | cons t before =>
        rw [List.cons_append, List.cons_prefix_cons] at hfront
        have hassoc : past ++ t :: before ++ [last] = past ++ [now] ++ before ++ [last] := by simp [hfront.1]
        rw [hassoc]
        exact hfines before last hfront.2
    · intro hfines
      refine ⟨?_, fun before last hfront => ?_⟩
      · have hfine := hfines [] now (List.cons_prefix_cons.2 ⟨rfl, List.nil_prefix⟩)
        rwa [List.append_nil] at hfine
      · have hfine := hfines (now :: before) last (List.cons_prefix_cons.2 ⟨rfl, hfront⟩)
        have hassoc : past ++ now :: before ++ [last] = past ++ [now] ++ before ++ [last] := by simp
        rwa [hassoc] at hfine

/-- All decisions are as they should be exactly when the bursts are short. -/
theorem burstsShort_iff {times : List ℚ} (hsorted : times.Pairwise (· ≤ ·)) :
    BurstsShort expired limit windowSec times ↔ ∀ before now, before ++ [now] <+: times →
      Fine limit windowSec (counted expired windowSec (before ++ [now])) now := by
  constructor
  · intro h before now hfront hover first hfirst
    have hsuffix : counted expired windowSec (before ++ [now]) <:+ before ++ [now] := counted_suffix _
    have hlast : now ∈ (counted expired windowSec (before ++ [now])).getLast? := by
      rw [getLast?_of_suffix hsuffix (counted_ne_nil (by simp))]
      simp
    exact h _ (hsuffix.isInfix.trans hfront.isInfix) (steady_counted _) hover first hfirst now hlast
  · rintro h burst ⟨front, back, rfl⟩ hsteady hover first hfirst last hlast
    have hburst := List.dropLast_append_getLast? last hlast
    have hfine := h (front ++ burst.dropLast) last ⟨back, by rw [List.append_assoc front, hburst]⟩
    rw [List.append_assoc front, hburst] at hfine
    have hsuffix : burst <:+ counted expired windowSec (front ++ burst) :=
      suffix_counted (List.suffix_append front burst) hsteady
    obtain ⟨older, holder⟩ := hsuffix
    have hlonger : burst.length ≤ (counted expired windowSec (front ++ burst)).length := by
      rw [← holder, List.length_append]
      omega
    -- the count may go back beyond the burst, to requests that came earlier
    cases older with
    | nil =>
      rw [List.nil_append] at holder
      exact hfine (by omega) first (holder ▸ hfirst)
    | cons oldest older =>
      have hold := hfine (by omega) oldest (by rw [← holder]; rfl)
      have hle : oldest ≤ first := by
        have hpart : oldest :: older ++ burst <:+ front ++ burst := holder ▸ counted_suffix (front ++ burst)
        have hcounted := hsorted.sublist (hpart.sublist.trans (List.sublist_append_left _ back))
        exact (List.pairwise_append.1 hcounted).2.2 oldest List.mem_cons_self first (List.mem_of_head? hfirst)
      linarith

theorem tally_nil : Tally expired limit windowSec [] [] := ⟨⟨[], by rw [counted_nil, List.take_nil]; rfl, nofun⟩, nofun⟩

/-- The two backends let through the same requests, never more than the limit in a window and none less, exactly when
    each burst of more requests than the limit, one before the counter of the last is gone, is shorter than the
    window. -/
theorem agree_iff (hlimit : 1 ≤ limit) (htimeout : Timeout expired) (key : Text) {times : List ℚ}
    (hsorted : times.Pairwise (· ≤ ·)) :
    Agree expired key limit windowSec times ↔ BurstsShort expired limit windowSec times := by
  have hpos : 0 < limit := hlimit
  have hmemory := @memory_exact limit windowSec expired key hpos times .empty [] hsorted fun _ _ => rfl
  have hredis := @redis_exact limit windowSec expired key hpos htimeout times .empty [] [] hsorted rfl tally_nil
  simp only [List.nil_append] at hredis
  rw [burstsShort_iff hsorted, ← hredis.2]
  constructor
  · exact fun hagree => hagree.redis.noneLess
  · intro hgenerous
    refine ⟨?_, ⟨never_of_sparing (le_of_lt hpos) hmemory.1, hmemory.2⟩,
      ⟨never_of_sparing (le_of_lt hpos) hredis.1, hgenerous⟩⟩
    refine eq_of_exact ?_ hmemory.1 hmemory.2 hredis.1 hgenerous
    rw [times_decisions, times_decisions]

/-- A key that is gone when its timeout is over. -/
def goneAt (deadline now : ℚ) : Bool := deadline ≤ now

theorem timeout_goneAt : Timeout goneAt :=
  ⟨fun _ _ h => decide_eq_false (not_le.2 h), fun _ _ h => decide_eq_true (le_of_lt h)⟩

theorem agree_few : Agree goneAt "k".toList 5 60 [0, 59, 118] :=
  (agree_iff (by decide) timeout_goneAt "k".toList (by decide +kernel)).2
    fun _ hpart _ hover => absurd hpart.length_le (by rw [List.length_cons] at *; simp only [List.length] at *; omega)

/-- One request in 60 seconds: the one at 118 is rejected, though the last that was admitted came at 0. -/
theorem rejected_though_none_admitted : ¬ ∀ (expired : ℚ → ℚ → Bool) (key : Text) (limit windowSec : ℤ)
    (times : List ℚ), Timeout expired → 1 ≤ limit → 1 ≤ windowSec → times.Pairwise (· ≤ ·) →
      Agree expired key limit windowSec times := by
  intro h
  have hagree := h goneAt "k".toList 1 60 [0, 59, 118] timeout_goneAt (by decide) (by decide) (by decide +kernel)
  have hsome := hagree.redis.noneLess.2.2.1 (by decide +kernel)
  exact absurd hsome (by decide +kernel)

/-! ### All keys, and a server that fails now and then

    A request that Redis does not answer is decided in memory, where nothing is known of those that it has answered. -/

structure Request where
  key : Text
  now : ℚ
  reply : Bool

/-- The requests of all keys as they come, each with what `check` answers. -/
def answers (expired : ℚ → ℚ → Bool) (useRedis : Bool) (limit windowSec : ℤ) :
    Limits → List Request → List (Request × Bool)
  | _, [] => []
  | s, r :: requests =>
    let c := s.check expired useRedis r.reply r.key limit windowSec r.now
    (r, c.1) :: answers expired useRedis limit windowSec c.2 requests

/-- The times at which requests of the key were admitted. -/
def admitted (key : Text) (ds : List (Request × Bool)) : List ℚ :=
  (ds.filter fun d => d.1.key = key && d.2).map fun d => d.1.now

/-- The requests of the key that Redis answers, or those that it does not. -/
def served (useRedis : Bool) (key : Text) (redis : Bool) (r : Request) : Bool :=
  r.key = key && (useRedis && r.reply) == redis

def decidedBy (useRedis : Bool) (key : Text) (redis : Bool) (ds : List (Request × Bool)) : List (ℚ × Bool) :=
  (ds.filter fun d => served useRedis key redis d.1).map fun d => (d.1.now, d.2)

theorem rateKey_inj {key key' : Text} : rateKey key = rateKey key' ↔ key = key' := List.append_right_inj _

theorem check_memory (hlimit : 0 < limit) {useRedis reply : Bool} (h : (useRedis && reply) = false) (s : Limits)
    (key : Text) (now : ℚ) :
    s.check expired useRedis reply key limit windowSec now = s.memoryCheck key limit windowSec now := by
  rw [Limits.check, if_neg (not_le.2 hlimit), Limits.redisCheck]
  cases useRedis with
  | false => rfl
  | true =>
    rw [Bool.true_and] at h
    rw [h]
    rfl

theorem check_redis {useRedis reply : Bool} (h : (useRedis && reply) = true) (s : Limits)
    (key : Text) (now : ℚ) : s.check expired useRedis reply key limit windowSec now =
      s.check expired true true key limit windowSec now := by
  rw [Bool.and_eq_true] at h
  rw [h.1, h.2]

/-- What a backend knows of a key. -/
def Limits.known (redis : Bool) (key : Text) (s : Limits) : List ℚ ⊕ Option Counter :=
  if redis then .inr (s.redis.counters (rateKey key)) else .inl (s.limiter.windows key)

theorem windows_memoryCheck_ne {key key' : Text} (h : key' ≠ key) (s : RateLimiter) (now : ℚ) :
    (s.memoryCheck key limit windowSec now).2.windows key' = s.windows key' := by
  rw [RateLimiter.memoryCheck, RateLimiter.prune]
  split_ifs <;> simp [Function.update_of_ne h]

theorem counters_expire_ne {key key' : Text} (h : key' ≠ key) (r : Redis) (windowSec : ℤ) (now : ℚ) :
    ((r.incr expired key now).2.expire key windowSec now).counters key' = r.counters key' := by
  rw [Redis.expire, Redis.incr]
  simp [Function.update_of_ne h]

/-- A request that a backend does not serve tells it nothing of the key. -/
theorem known_check_of_not_served (hlimit : 0 < limit) {useRedis redis : Bool} {key : Text} {r : Request}
    (h : served useRedis key redis r = false) (s : Limits) :
    (s.check expired useRedis r.reply r.key limit windowSec r.now).2.known redis key = s.known redis key := by
  rw [served] at h
  cases hr : useRedis && r.reply with
  | false =>
    rw [check_memory hlimit hr, Limits.memoryCheck]
    cases redis with
    | true => rfl
    | false =>
      have hne : key ≠ r.key := by
        rintro rfl
        simp [hr] at h
      exact congrArg Sum.inl (windows_memoryCheck_ne hne s.limiter r.now)
  | true =>
    rw [check_redis hr, Limits.check, if_neg (not_le.2 hlimit), if_pos rfl, Limits.redisCheck, if_pos rfl]
    cases redis with
    | false => rfl
    | true =>
      have hne : rateKey key ≠ rateKey r.key := fun heq => by
        simp [hr, rateKey_inj.1 heq] at h
      exact congrArg Sum.inr (counters_expire_ne hne s.redis windowSec r.now)

/-- What a backend answers, and what it knows then, follows from what it knows of the key. -/
theorem check_congr (hlimit : 0 < limit) {useRedis redis : Bool} {key : Text} {r : Request}
    (h : served useRedis key redis r = true) {s s' : Limits} (hknown : s.known redis key = s'.known redis key) :
    (s.check expired useRedis r.reply r.key limit windowSec r.now).1 =
        (s'.check expired redis true key limit windowSec r.now).1 ∧
      (s.check expired useRedis r.reply r.key limit windowSec r.now).2.known redis key =
        (s'.check expired redis true key limit windowSec r.now).2.known redis key := by
  rw [served, Bool.and_eq_true, decide_eq_true_eq, beq_iff_eq] at h
  obtain ⟨rfl, hr⟩ := h
  cases redis with
  | false =>
    rw [check_memory hlimit hr, check_memory hlimit rfl]
    have hwindows : s.limiter.windows r.key = s'.limiter.windows r.key := Sum.inl.inj hknown
    have hcheck := @memoryCheck_eq limit windowSec r.key s.limiter r.now
    have hcheck' := @memoryCheck_eq limit windowSec r.key s'.limiter r.now
    rw [hwindows, ← hcheck'.1] at hcheck
    refine ⟨hcheck.1, congrArg Sum.inl ?_⟩
    rw [hcheck.1, ← hcheck'.2] at hcheck
    exact hcheck.2
  | true =>
    rw [check_redis hr]
    have hcounters : s.redis.counters (rateKey r.key) = s'.redis.counters (rateKey r.key) := Sum.inr.inj hknown
    have hget : s.redis.get expired (rateKey r.key) r.now = s'.redis.get expired (rateKey r.key) r.now := by
      rw [Redis.get, Redis.get, hcounters]
    rw [Limits.check, Limits.check, if_neg (not_le.2 hlimit), if_neg (not_le.2 hlimit), if_pos rfl, if_pos rfl,
      Limits.redisCheck, Limits.redisCheck, if_pos rfl, if_pos rfl, Redis.incr, Redis.incr, hget]
    refine ⟨rfl, congrArg Sum.inr ?_⟩
    simp only [Redis.expire, Function.update_self]

/-- What a backend decides for a key is what it would decide if it had that key alone. -/
theorem decidedBy_answers (hlimit : 0 < limit) {useRedis redis : Bool} {key : Text} :
    ∀ (requests : List Request) {s s' : Limits}, s.known redis key = s'.known redis key →
      decidedBy useRedis key redis (answers expired useRedis limit windowSec s requests) =
        decisions expired redis key limit windowSec s'
          ((requests.filter (served useRedis key redis)).map Request.now)
  | [], _, _, _ => rfl
  | r :: requests, s, s', hknown => by
    rw [answers, decidedBy, List.filter_cons, List.filter_cons]
    cases hserved : served useRedis key redis r with
    | false =>
      rw [if_neg Bool.false_ne_true, if_neg Bool.false_ne_true]
      exact decidedBy_answers hlimit requests ((known_check_of_not_served hlimit hserved s).trans hknown)
    | true =>
      have hcheck := @check_congr limit windowSec expired hlimit _ _ _ _ hserved _ _ hknown
      rw [if_pos rfl, if_pos rfl, List.map_cons, List.map_cons, decisions, ← hcheck.1]
      exact congrArg _ (decidedBy_answers hlimit requests hcheck.2)

theorem run_admitNext (ds : List (ℚ × Bool)) : ∀ times : List ℚ,
    run admitNext times ds = times ++ (ds.filter Prod.snd).map Prod.fst := by
  induction ds with
  | nil => simp
  | cons d ds ih =>
    intro times
    rw [run_cons, ih, admitNext, List.filter_cons]
    split_ifs <;> simp

/-- What was admitted of a key was admitted by the one backend or by the other. -/
theorem length_inWindow_admitted (useRedis : Bool) (key : Text) (x : ℚ) (ds : List (Request × Bool)) :
    (inWindow windowSec x (admitted key ds)).length =
      (inWindow windowSec x (run admitNext [] (decidedBy useRedis key false ds))).length +
        (inWindow windowSec x (run admitNext [] (decidedBy useRedis key true ds))).length := by
  simp only [run_admitNext, List.nil_append, inWindow, admitted, decidedBy, ← List.countP_eq_length_filter,
    List.countP_map, List.countP_filter]
  rw [List.countP_eq_countP_filter_add ds _ fun d => !(useRedis && d.1.reply), List.countP_filter, List.countP_filter]
  refine congrArg₂ (· + ·) (List.countP_congr fun d _ => ?_) (List.countP_congr fun d _ => ?_) <;>
    rw [Function.comp_apply, Function.comp_apply, served] <;> generalize (useRedis && d.1.reply) = redis <;>
    cases redis <;> simp <;> tauto

/-- A backend keeps to the limit, whatever the other one decides. -/
theorem length_inWindow_decidedBy (hlimit : 0 < limit) (htimeout : Timeout expired) (useRedis redis : Bool)
    {requests : List Request} (hsorted : (requests.map Request.now).Pairwise (· ≤ ·)) (key : Text) (x : ℚ) :
    ((inWindow windowSec x (run admitNext []
      (decidedBy useRedis key redis (answers expired useRedis limit windowSec .empty requests)))).length : ℤ) ≤
        limit := by
  have htimes : ((requests.filter (served useRedis key redis)).map Request.now).Pairwise (· ≤ ·) :=
    hsorted.sublist (List.filter_sublist.map _)
  rw [decidedBy_answers hlimit requests (rfl : Limits.empty.known redis key = Limits.empty.known redis key)]
  cases redis with
  | false => exact never_of_sparing hlimit.le (memory_exact hlimit _ .empty [] htimes fun _ _ => rfl).1 x
  | true => exact never_of_sparing hlimit.le (redis_exact hlimit htimeout _ .empty [] [] htimes rfl tally_nil).1 x

/-- Whatever keys the requests have and whichever of them Redis answers, no window of a key has more than twice the
    limit; and no more than the limit, where all requests of the key go to one backend. -/
theorem windows_bounded (hlimit : 1 ≤ limit) (htimeout : Timeout expired) (useRedis : Bool)
    {requests : List Request} (hsorted : (requests.map Request.now).Pairwise (· ≤ ·)) (key : Text) (x : ℚ) :
    ((inWindow windowSec x (admitted key (answers expired useRedis limit windowSec .empty requests))).length : ℤ) ≤
        2 * limit ∧
      ((∃ redis, ∀ r ∈ requests, r.key = key → (useRedis && r.reply) = redis) →
        ((inWindow windowSec x (admitted key (answers expired useRedis limit windowSec .empty requests))).length : ℤ) ≤
          limit) := by
  have hmemory := @length_inWindow_decidedBy limit windowSec _ hlimit htimeout useRedis false _ hsorted key x
  have hredis := @length_inWindow_decidedBy limit windowSec _ hlimit htimeout useRedis true _ hsorted key x
  rw [length_inWindow_admitted useRedis]
  refine ⟨by omega, ?_⟩
  rintro ⟨redis, hone⟩
  have hnone : decidedBy useRedis key (!redis) (answers expired useRedis limit windowSec .empty requests) = [] := by
    rw [decidedBy_answers hlimit requests (rfl : Limits.empty.known (!redis) key = Limits.empty.known (!redis) key),
      List.filter_eq_nil_iff.2]
    · rfl
    · intro r hr hserved
      rw [served, Bool.and_eq_true, decide_eq_true_eq, beq_iff_eq] at hserved
      rw [hone r hr hserved.1] at hserved
      cases redis <;> cases hserved.2
  cases redis with
  | false =>
    rw [Bool.not_false] at hnone
    rw [hnone]
    simpa [inWindow] using hmemory
  | true =>
    rw [Bool.not_true] at hnone
    rw [hnone]
    simpa [inWindow] using hredis

/-- One request in a minute, and an outage: the second one is admitted as well, a second after the first. -/
theorem windows_bounded_outage : (inWindow 60 (-1) (admitted "k".toList (answers goneAt true 1 60 .empty
      [⟨"k".toList, 0, true⟩, ⟨"k".toList, 1, false⟩]))).length = 2 ∧
    ((inWindow 60 (-1) (admitted "k".toList (answers goneAt true 1 60 .empty
      [⟨"k".toList, 0, true⟩, ⟨"k".toList, 1, false⟩]))).length : ℤ) ≤ 2 * 1 :=
  ⟨by decide +kernel, (@windows_bounded 1 60 goneAt le_rfl timeout_goneAt true _ (by decide +kernel)
    "k".toList (-1)).1⟩

end AgentLangraph.Quota
