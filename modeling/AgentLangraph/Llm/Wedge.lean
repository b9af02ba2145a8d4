import AgentLangraph.Llm.Retry

/-! Whether the breaker can get stuck half open. Its slots come back with a recorded outcome only, so
    while all are taken some admitted call has to have an outcome yet to record. A call that ends
    without recording any, because a nested call was refused, is what breaks this. -/

namespace AgentLangraph.Llm
open PyText Party Trace

/-- The wrapper has been let through and will record an outcome, or another one. -/
def Frame.owes : Frame → Bool
  | .trying _ | .recording (_ :: _) _ | .recording [] (.again _) => true
  | _ => false

def owed (stack : List Frame) : ℕ := stack.countP Frame.owes

def Pool.owed (s : Pool) : ℕ := (s.calls.map Llm.owed).sum

variable (cfg : Settings)

/-- While all slots are taken, some call has an outcome to record. -/
def Pool.Live (s : Pool) : Prop := s.breaker.full cfg.toPolicy → 0 < s.owed

/-- Of this outcome of an attempt the wrapper records nothing. -/
def silent : Outcome → Bool
  | .raised e => e.kind = .circuitOpen || e.kind = .base
  | .returned => false

/-- The innermost wrapper is in an attempt. -/
def trying : List Frame → Bool
  | .trying _ :: _ => true
  | _ => false

/-- A wrapper that was let through ends without recording: the attempt ends in silence, or so does
    the call that it made. -/
def givesUp (b : CircuitBreaker) (now : ℚ) : List Frame → Act → Bool
  | .trying _ :: _, .ends o => silent o
  | .recording [] (.leave o) :: rest, .go => trying rest && silent o
  | .entering :: rest, .go => trying rest && b.refuses cfg.toPolicy now
  | _, _ => false

/-- A wrapper that was let through makes no attempt, and no attempt called it. -/
def skips (b : CircuitBreaker) (now : ℚ) : List Frame → Act → Bool
  | .entering :: rest, .go => !trying rest && !b.refuses cfg.toPolicy now && cfg.retries = 0
  | _, _ => false

/-- A call gives up only while a slot is free or another call has an outcome to record, and makes
    no attempt only where that leaves a slot or a call with an outcome to record. -/
def Pool.Keeps (s : Pool) : Event → Prop
  | .call => True
  | .advance i now act => ∀ stack ∈ s.calls[i]?,
    (givesUp cfg s.breaker now stack act → s.breaker.full cfg.toPolicy → 1 < s.owed) ∧
      (skips cfg s.breaker now stack act →
        (s.breaker.allowCall cfg.toPolicy now).full cfg.toPolicy → 0 < s.owed)

variable {cfg}

/-! ### What a statement does to what is owed -/

theorem handle_ne_nil {o : Outcome} (h : silent o = false) (k : ℕ) : (handle cfg k o).1 ≠ [] := by
  cases o with
  | returned => simp [handle]
  | raised e =>
    rw [handle]
    cases hkind : e.kind with
    | circuitOpen => simp [silent, hkind] at h
    | base => simp [silent, hkind] at h
    | retryable => simp
    | _ =>
      dsimp only
      split_ifs <;> simp

theorem handle_of_silent {o : Outcome} (h : silent o) (k : ℕ) :
    handle cfg k o = ([], .leave o) := by
  cases o with
  | returned => cases h
  | raised e =>
    rw [handle]
    cases hkind : e.kind with
    | circuitOpen => rfl
    | base => rfl
    | _ => simp [silent, hkind] at h

theorem owed_cons (f : Frame) (rest : List Frame) : owed (f :: rest) = owed rest + one f.owes := by
  rw [owed, List.countP_cons]
  rfl

variable (cfg) in
/-- A call that hears of an outcome still owes one, unless it was a silent one. -/
theorem owed_deliver (o : Outcome) (stack : List Frame) :
    owed (deliver cfg o stack) + one (trying stack && silent o) = owed stack := by
  match stack with
  | .trying k :: rest =>
    rw [deliver, owed_cons, owed_cons]
    cases hsilent : silent o with
    | true =>
      rw [handle_of_silent hsilent]
      rfl
    | false =>
      obtain ⟨r, records, hrecords⟩ := List.exists_cons_of_ne_nil (handle_ne_nil hsilent k)
      rw [hrecords]
      rfl
  | [] | .entering :: _ | .recording _ _ :: _ => rfl

theorem owed_pos_of_trying {stack : List Frame} (h : trying stack) : 0 < owed stack := by
  match stack with
  | .trying k :: rest =>
    rw [owed_cons]
    exact Nat.succ_pos _

/-- A statement that gives up takes one outcome from what is owed and leaves the slots. -/
theorem advance_of_givesUp {b : CircuitBreaker} {now : ℚ} {stack : List Frame} {act : Act}
    (h : givesUp cfg b now stack act) :
    (advance cfg b now stack act).1.full cfg.toPolicy = b.full cfg.toPolicy ∧
      owed (advance cfg b now stack act).2 + 1 = owed stack := by
  match stack, act with
  | .trying k :: rest, .ends o =>
    have howed := owed_deliver cfg o (.trying k :: rest)
    rw [show silent o = true from h] at howed
    exact ⟨rfl, howed⟩
  | .recording [] (.leave o) :: rest, .go =>
    have howed := owed_deliver cfg o rest
    rw [show (trying rest && silent o) = true from h] at howed
    exact ⟨rfl, howed⟩
  | .entering :: rest, .go =>
    obtain ⟨htrying, hrefuses⟩ := Bool.and_eq_true_iff.1 h
    have howed := owed_deliver cfg (.raised circuitOpenError) rest
    rw [htrying] at howed
    rw [advance, if_pos hrefuses]
    exact ⟨b.full_allowCall_of_refuses hrefuses, howed⟩

/-- A statement that makes no attempt takes a slot and owes nothing for it. -/
theorem advance_of_skips {b : CircuitBreaker} {now : ℚ} {stack : List Frame} {act : Act}
    (h : skips cfg b now stack act) :
    (advance cfg b now stack act).1 = b.allowCall cfg.toPolicy now ∧
      owed (advance cfg b now stack act).2 = owed stack := by
  match stack, act with
  | .entering :: rest, .go =>
    simp only [skips, Bool.and_eq_true, Bool.not_eq_true', decide_eq_true_eq] at h
    obtain ⟨⟨htrying, hrefuses⟩, hretries⟩ := h
    have howed := owed_deliver cfg (.raised loopExited) rest
    rw [htrying] at howed
    rw [advance, if_neg (by simp [hrefuses]), if_pos hretries, owed_cons]
    exact ⟨rfl, howed⟩

/-- Any other statement leaves what is owed to those slots that were taken before. -/
theorem advance_otherwise {b : CircuitBreaker} {now : ℚ} {stack : List Frame} {act : Act}
    (hgives : givesUp cfg b now stack act = false) (hskips : skips cfg b now stack act = false)
    (hfull : (advance cfg b now stack act).1.full cfg.toPolicy) :
    0 < owed (advance cfg b now stack act).2 ∨
      b.full cfg.toPolicy ∧ owed (advance cfg b now stack act).2 = owed stack := by
  match stack, act with
  | [], _ => exact Or.inr ⟨hfull, rfl⟩
  | .entering :: rest, .nest => exact Or.inr ⟨hfull, rfl⟩
  | .entering :: rest, .ends o => exact Or.inr ⟨hfull, rfl⟩
  | .entering :: rest, .go =>
    by_cases hrefuses : b.refuses cfg.toPolicy now
    · have htrying : trying rest = false := by simpa [givesUp, hrefuses] using hgives
      have howed := owed_deliver cfg (.raised circuitOpenError) rest
      rw [htrying] at howed
      rw [advance, if_pos hrefuses] at hfull ⊢
      rw [b.full_allowCall_of_refuses hrefuses] at hfull
      exact Or.inr ⟨hfull, by rw [owed_cons]; exact howed⟩
    · rw [advance, if_neg hrefuses]
      refine Or.inl ?_
      by_cases hretries : cfg.retries = 0
      · -- The attempt that called it records the error of the loop.
        have htrying : trying rest = true := by simpa [skips, hrefuses, hretries] using hskips
        have howed := owed_deliver cfg (.raised loopExited) rest
        rw [htrying] at howed
        rw [if_pos hretries]
        exact (owed_pos_of_trying htrying).trans_eq howed.symm
      · rw [if_neg hretries]
        exact owed_pos_of_trying rfl
  | .trying k :: rest, .go => exact Or.inr ⟨hfull, rfl⟩
  | .trying k :: rest, .nest => exact Or.inr ⟨hfull, by rw [advance, owed_cons]; rfl⟩
  | .trying k :: rest, .ends o =>
    have howed := owed_deliver cfg o (.trying k :: rest)
    rw [show silent o = false from hgives] at howed
    exact Or.inr ⟨hfull, howed⟩
  | .recording records after :: rest, .nest =>
    rw [advance_recording cfg (by simp)] at hfull ⊢
    exact Or.inr ⟨hfull, rfl⟩
  | .recording records after :: rest, .ends o =>
    rw [advance_recording cfg (by simp)] at hfull ⊢
    exact Or.inr ⟨hfull, rfl⟩
  | .recording (r :: records) after :: rest, .go =>
    rw [advance] at hfull
    cases r <;> simp [record] at hfull
  | .recording [] (.again k) :: rest, .go => exact Or.inr ⟨hfull, rfl⟩
  | .recording [] (.leave o) :: rest, .go =>
    have howed := owed_deliver cfg o rest
    rw [show (trying rest && silent o) = false from hgives] at howed
    exact Or.inr ⟨hfull, by rw [advance, owed_cons]; exact howed⟩

/-! ### The invariant -/

variable (cfg) in
theorem owed_step {s : Pool} {i : ℕ} {stack : List Frame} (h : s.calls[i]? = some stack) (now : ℚ)
    (act : Act) : (s.step cfg (.advance i now act)).owed + owed stack =
      s.owed + owed (advance cfg s.breaker now stack act).2 := by
  rw [step_advance cfg h]
  exact sum_set owed _ h

theorem skips_of_givesUp {b : CircuitBreaker} {now : ℚ} {stack : List Frame} {act : Act}
    (h : givesUp cfg b now stack act) : skips cfg b now stack act = false := by
  match stack, act with
  | .entering :: rest, .go =>
    have htrying := (Bool.and_eq_true_iff.1 h).1
    simp [skips, htrying]
  | .trying _ :: _, .ends _ => rfl
  | .recording [] (.leave _) :: _, .go => rfl

theorem live_advance_iff {s : Pool} (h : s.Live cfg) {i : ℕ} {stack : List Frame}
    (hi : s.calls[i]? = some stack) (now : ℚ) (act : Act) :
    (s.step cfg (.advance i now act)).Live cfg ↔ s.Keeps cfg (.advance i now act) := by
  have howed := owed_step cfg hi now act
  have hle : owed stack ≤ s.owed := le_sum owed hi
  have hbreaker : (s.step cfg (.advance i now act)).breaker =
      (advance cfg s.breaker now stack act).1 := by rw [step_advance cfg hi]
  rw [Pool.Live, hbreaker, Pool.Keeps, hi]
  simp only [Option.mem_some_iff, forall_eq']
  by_cases hgives : givesUp cfg s.breaker now stack act
  · obtain ⟨hfull, hone⟩ := advance_of_givesUp hgives
    simp only [hgives, skips_of_givesUp hgives, hfull, true_implies, Bool.false_eq_true,
      false_implies, and_true]
    exact forall_congr' fun _ => by omega
  · by_cases hskips : skips cfg s.breaker now stack act
    · obtain ⟨hbreaker', hsame⟩ := advance_of_skips hskips
      simp only [hgives, hskips, hbreaker', true_implies, Bool.false_eq_true, false_implies,
        true_and]
      exact forall_congr' fun _ => by omega
    · simp only [hgives, hskips, Bool.false_eq_true, false_implies, true_and, iff_true]
      intro hfull
      rcases advance_otherwise (by simpa using hgives) (by simpa using hskips) hfull with
        hpos | ⟨hbefore, hsame⟩
      · omega
      · have hpos := h hbefore
        omega

theorem live_step_iff {s : Pool} (h : s.Live cfg) (e : Event) :
    (s.step cfg e).Live cfg ↔ s.Keeps cfg e := by
  cases e with
  | call =>
    have howed : (s.step cfg .call).owed = s.owed := by
      simp [Pool.owed, Pool.step, Llm.owed, Frame.owes]
    rw [Pool.Live, howed]
    exact iff_of_true h trivial
  | advance i now act =>
    cases hi : s.calls[i]? with
    | none =>
      rw [step_advance_none cfg hi]
      refine iff_of_true h fun stack hstack => ?_
      rw [hi] at hstack
      cases hstack
    | some stack => exact live_advance_iff h hi now act

/-! ### A breaker that is stuck -/

variable (cfg) in
/-- All slots are taken, and nobody has an outcome to record. -/
def Pool.Wedged (s : Pool) : Prop := s.breaker.full cfg.toPolicy ∧ s.owed = 0

theorem wedged_iff_not_live {s : Pool} : s.Wedged cfg ↔ ¬ s.Live cfg := by
  rw [Pool.Live, Pool.Wedged, Classical.not_imp, Nat.pos_iff_ne_zero, not_not]

/-- Where nothing is owed, a statement on a full breaker leaves it and owes nothing. -/
theorem advance_of_wedged {b : CircuitBreaker} (hfull : b.full cfg.toPolicy) (now : ℚ)
    {stack : List Frame} (howed : owed stack = 0) (act : Act) :
    (advance cfg b now stack act).1 = b ∧ owed (advance cfg b now stack act).2 = 0 := by
  have hdeliver : ∀ (o : Outcome) (rest : List Frame), owed rest = 0 →
      owed (deliver cfg o rest) = 0 := by
    intro o rest hrest
    have h := owed_deliver cfg o rest
    omega
  match stack, act with
  | [], _ => exact ⟨rfl, rfl⟩
  | .entering :: rest, .nest => exact ⟨rfl, howed⟩
  | .entering :: rest, .ends o => exact ⟨rfl, howed⟩
  | .entering :: rest, .go =>
    rw [advance, if_pos (CircuitBreaker.refuses_of_full hfull now)]
    exact ⟨CircuitBreaker.allowCall_of_full hfull now, hdeliver _ _ howed⟩
  | .trying k :: rest, _ => exact absurd howed (owed_pos_of_trying rfl).ne'
  | .recording records after :: rest, .nest =>
    rw [advance_recording cfg (by simp)]
    exact ⟨rfl, howed⟩
  | .recording records after :: rest, .ends o =>
    rw [advance_recording cfg (by simp)]
    exact ⟨rfl, howed⟩
  | .recording (r :: records) after :: rest, .go =>
    rw [owed_cons] at howed
    simp [Frame.owes] at howed
  | .recording [] (.again k) :: rest, .go =>
    rw [owed_cons] at howed
    simp [Frame.owes] at howed
  | .recording [] (.leave o) :: rest, .go =>
    rw [owed_cons] at howed
    exact ⟨rfl, hdeliver o rest (by omega)⟩

theorem wedged_step {s : Pool} (h : s.Wedged cfg) (e : Event) :
    (s.step cfg e).breaker = s.breaker ∧ (s.step cfg e).owed = 0 := by
  obtain ⟨hfull, howed⟩ := h
  cases e with
  | call => exact ⟨rfl, by simpa [Pool.owed, Pool.step, Llm.owed, Frame.owes] using howed⟩
  | advance i now act =>
    cases hi : s.calls[i]? with
    | none =>
      rw [step_advance_none cfg hi]
      exact ⟨rfl, howed⟩
    | some stack =>
      have hle : owed stack ≤ s.owed := le_sum owed hi
      have hstep := owed_step cfg hi now act
      have hstack : owed stack = 0 := by omega
      obtain ⟨hbreaker, hzero⟩ := advance_of_wedged hfull now hstack act
      rw [step_advance cfg hi] at hstep ⊢
      exact ⟨hbreaker, by omega⟩

/-- A stuck breaker refuses every call that ever asks. -/
theorem wedged_refuses {s : Pool} (h : s.Wedged cfg) (trace : List Event) (now : ℚ) :
    (run (Pool.step cfg) s trace).breaker.refuses cfg.toPolicy now := by
  induction trace generalizing s with
  | nil => exact CircuitBreaker.refuses_of_full h.1 now
  | cons e trace ih =>
    obtain ⟨hbreaker, howed⟩ := wedged_step h e
    exact ih ⟨by rw [hbreaker]; exact h.1, howed⟩

/-- The breaker never gets stuck exactly when no call gives up as the last one that could free a
    slot; where it does, it refuses all calls from there on. -/
theorem live_iff (cfg : Settings) (trace : List Event) :
    (Along (Pool.step cfg) (fun s e => (s.step cfg e).Live cfg) {} trace ↔
      Along (Pool.step cfg) (Pool.Keeps cfg) {} trace) ∧
    ∀ s : Pool, ¬ s.Live cfg → ∀ (later : List Event) (now : ℚ),
      (run (Pool.step cfg) s later).breaker.refuses cfg.toPolicy now := by
  have hlive : Pool.Live cfg {} := fun hfull => by cases hfull
  refine ⟨along_iff (fun s e h => live_step_iff h e)
    (fun s e h hkeeps => (live_step_iff h e).2 hkeeps) trace _ hlive, fun s h => ?_⟩
  exact wedged_refuses (wedged_iff_not_live.2 h)

instance (s : Pool) : Decidable (s.Live cfg) := inferInstanceAs (Decidable (_ → _))

/-- One attempt a call, open after one failure, for a minute. -/
def brittle : Settings :=
  { failureThreshold := 1, recoveryTimeout := 60, retries := 1, halfOpenMaxCalls_pos := Nat.one_pos
    lower := fun t => t.map Char.toLower }

def overloaded : Exc :=
  { kind := .retryable, type := "RetryableError".toList, message := "503 overloaded".toList }

/-- A text call fails and opens the breaker; a minute later a tool call takes the slot, falls back on
    a text call, and that one is refused. -/
def refusedFallback : List Event :=
  [.call, .advance 0 0 .go, .advance 0 0 (.ends (.raised overloaded)), .advance 0 0 .go,
    .advance 0 0 .go, .call, .advance 1 60 .go, .advance 1 61 .nest, .advance 1 61 .go]

/-- The breaker is half open, its slot is taken, and nobody will give it back. -/
theorem refusedFallback_wedges :
    ¬ Along (Pool.step brittle) (fun s e => (s.step brittle e).Live brittle) {} refusedFallback := by
  decide +kernel

end AgentLangraph.Llm
