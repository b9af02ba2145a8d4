import AgentLangraph.Lib.Party
import AgentLangraph.Lib.Trace

/-! The batch runner (`batch_runner.py`). A batch is a job of the pool; it puts its items behind it into
    the queue of the same pool, and keeps its worker until they are done.

        queue:  batch │ batch │ item │ item │ …       worker:  batch: list → submit … → wait for all
                └─ taken from the front                        item:  start_task, update_item -/

namespace AgentLangraph.Batch
open Trace

/-- What is submitted to the pool: `_process_batch` of a batch, or `run_item` of one of its items. -/
inductive Job
  | batch (b : ℕ)
  | item (b i : ℕ)
  deriving DecidableEq

/-- What a worker of the pool is at. -/
inductive Worker
  | idle
  /-- `set_batch_status` and `list_pending_items`. -/
  | listing (b : ℕ)
  /-- The comprehension that submits the items, before item `i`. -/
  | submitting (b i : ℕ)
  /-- The loop over `as_completed`, with the items whose futures are still to come. -/
  | waiting (b : ℕ) (left : List ℕ)
  | running (b i : ℕ)
  deriving DecidableEq

/-- The pool, and the number of items of every batch that has been submitted. -/
structure Pool where
  workers : List Worker
  queue : List Job := []
  finished : List (ℕ × ℕ) := []
  sizes : List ℕ := []
  deriving DecidableEq

def Pool.size (p : Pool) (b : ℕ) : ℕ := p.sizes.getD b 0

def Job.start : Job → Worker
  | .batch b => .listing b
  | .item b i => .running b i

/-- The next step of a worker; `none` where it cannot make one. -/
def Pool.work (p : Pool) (w : ℕ) : Option Pool :=
  match p.workers[w]? with
  | none => none
  | some .idle =>
    match p.queue with
    | [] => none
    | job :: queue => some { p with queue := queue, workers := p.workers.set w job.start }
  | some (.listing b) => some { p with workers := p.workers.set w (.submitting b 0) }
  | some (.submitting b i) =>
    if i < p.size b then
      some { p with queue := p.queue ++ [.item b i], workers := p.workers.set w (.submitting b (i + 1)) }
    else some { p with workers := p.workers.set w (.waiting b (List.range (p.size b))) }
  | some (.waiting b left) =>
    if left = [] then some { p with workers := p.workers.set w .idle }
    else
      match left.find? fun i => (b, i) ∈ p.finished with
      | some i => some { p with workers := p.workers.set w (.waiting b (left.erase i)) }
      | none => none
  | some (.running b i) =>
    some { p with finished := (b, i) :: p.finished, workers := p.workers.set w .idle }

inductive Act
  /-- `submit_batch`, of a batch with so many items. -/
  | submit (n : ℕ)
  | work (w : ℕ)
  deriving DecidableEq

def Pool.act (p : Pool) : Act → Pool
  | .submit n => { p with queue := p.queue ++ [.batch p.sizes.length], sizes := p.sizes ++ [n] }
  | .work w => (p.work w).getD p

/-- A pool of so many workers, when it is made. -/
def Pool.made (workers : ℕ) : Pool where
  workers := List.replicate workers .idle

/-- The batches that are submitted in a run. -/
def submitted (trace : List Act) : List ℕ :=
  trace.filterMap fun
    | .submit n => some n
    | .work _ => none

/-- An item of a batch that has been submitted is not done. -/
def Pool.Unfinished (p : Pool) : Prop := ∃ b i, i < p.size b ∧ (b, i) ∉ p.finished

/-- As long as there is something to do, some worker can make a step, in every state that is reached while
    the batches are submitted. -/
def NeverStuck (workers : ℕ) (sizes : List ℕ) : Prop :=
  ∀ trace, submitted trace <+: sizes → (run Pool.act (Pool.made workers) trace).Unfinished →
    ∃ w, ((run Pool.act (Pool.made workers) trace).work w).isSome

/-! ### What a worker can do -/

/-- The worker has the driver of the batch. -/
def Worker.drives (b : ℕ) : Worker → Bool
  | .listing c | .submitting c _ | .waiting c _ => c = b
  | .idle | .running _ _ => false

def Worker.waits : Worker → Bool
  | .waiting _ _ => true
  | _ => false

/-- A worker that can make no step has nothing to take, or waits for items that are not done. -/
theorem work_eq_none {p : Pool} {w : ℕ} {x : Worker} (hx : p.workers[w]? = some x) (h : p.work w = none) :
    (x = .idle ∧ p.queue = []) ∨
      ∃ b left, x = .waiting b left ∧ left ≠ [] ∧ ∀ i ∈ left, (b, i) ∉ p.finished := by
  rw [Pool.work, hx] at h
  cases x with
  | idle =>
    cases hqueue : p.queue with
    | nil => exact Or.inl ⟨rfl, rfl⟩
    | cons job queue => simp [hqueue] at h
  | listing b => simp at h
  | submitting b i =>
    dsimp only at h
    split_ifs at h
  | waiting b left =>
    dsimp only at h
    split_ifs at h with hleft
    cases hfind : left.find? fun i => (b, i) ∈ p.finished with
    | some i => simp [hfind] at h
    | none => exact Or.inr ⟨b, left, rfl, hleft, by simpa using hfind⟩
  | running b i => simp at h

/-! ### Every item is somewhere -/

/-- An item is still to be submitted, is in the queue, is run, or is done. -/
def Pool.Placed (p : Pool) (b i : ℕ) : Prop :=
  .batch b ∈ p.queue ∨ .listing b ∈ p.workers ∨ (∃ j ≤ i, .submitting b j ∈ p.workers) ∨
    .item b i ∈ p.queue ∨ .running b i ∈ p.workers ∨ (b, i) ∈ p.finished

/-- A batch is driven by one worker at most, and not before it is submitted. -/
def Pool.driven (p : Pool) (b : ℕ) : ℕ := p.queue.count (.batch b) + p.workers.countP (Worker.drives b)

structure Inv (p : Pool) : Prop where
  placed : ∀ b i, i < p.size b → p.Placed b i
  once : ∀ b, p.driven b ≤ Party.one (b < p.sizes.length)
  left : ∀ b l, .waiting b l ∈ p.workers → ∀ i ∈ l, i < p.size b

theorem size_submit (p : Pool) (n b : ℕ) :
    (p.act (.submit n)).size b = if b = p.sizes.length then n else p.size b := by
  simp only [Pool.size, Pool.act, List.getD_eq_getElem?_getD, List.getElem?_append]
  rcases Nat.lt_trichotomy b p.sizes.length with hlt | rfl | hgt
  · rw [if_pos hlt, if_neg (Nat.ne_of_lt hlt)]
  · simp
  · rw [if_neg (by omega), if_neg (by omega), List.getElem?_eq_none (by simp; omega),
      List.getElem?_eq_none (by omega)]

theorem size_of_le {p : Pool} {b : ℕ} (h : p.sizes.length ≤ b) : p.size b = 0 := by
  rw [Pool.size, List.getD_eq_getElem?_getD, List.getElem?_eq_none h]
  rfl

theorem inv_made (workers : ℕ) : Inv (Pool.made workers) where
  placed := fun b i h => absurd h (Nat.not_lt_zero i)
  once := fun b => by
    have hnone : (List.replicate workers Worker.idle).countP (Worker.drives b) = 0 :=
      List.countP_eq_zero.2 fun x hx => by
        rw [List.eq_of_mem_replicate hx]
        exact Bool.false_ne_true
    rw [Pool.driven, Pool.made, hnone]
    exact Nat.zero_le _
  left := fun b l h => nomatch List.eq_of_mem_replicate h

theorem inv_submit {p : Pool} (n : ℕ) (h : Inv p) : Inv (p.act (.submit n)) where
  placed := by
    intro b i hi
    rw [size_submit] at hi
    by_cases hb : b = p.sizes.length
    · exact Or.inl (by simp [Pool.act, hb])
    · rw [if_neg hb] at hi
      obtain hq | hl | hs | hq | hr | hf := h.placed b i hi
      · exact Or.inl (List.mem_append_left _ hq)
      · exact Or.inr (Or.inl hl)
      · exact Or.inr (Or.inr (Or.inl hs))
      · exact Or.inr (Or.inr (Or.inr (Or.inl (List.mem_append_left _ hq))))
      · exact Or.inr (Or.inr (Or.inr (Or.inr (Or.inl hr))))
      · exact Or.inr (Or.inr (Or.inr (Or.inr (Or.inr hf))))
  once := by
    intro b
    have hold := h.once b
    rw [Pool.driven] at hold ⊢
    change (p.queue ++ [Job.batch p.sizes.length]).count (.batch b) + p.workers.countP (Worker.drives b) ≤
      Party.one (b < (p.sizes ++ [n]).length)
    rw [List.count_append, List.length_append, List.length_singleton]
    rcases eq_or_ne b p.sizes.length with rfl | hne
    · rw [List.count_singleton_self, decide_eq_true (Nat.lt_succ_self _), Party.one_true]
      rw [decide_eq_false (Nat.lt_irrefl _), Party.one_false] at hold
      omega
    · have hcount : [Job.batch p.sizes.length].count (.batch b) = 0 :=
        List.count_eq_zero.2 fun hmem => hne (by simpa using hmem)
      have hmono : Party.one (b < p.sizes.length) ≤ Party.one (b < p.sizes.length + 1) :=
        Party.one_mono fun hlt => decide_eq_true (Nat.lt_succ_of_lt (of_decide_eq_true hlt))
      rw [hcount]
      omega
  left := by
    intro b l hl i hi
    have hold := h.left b l hl i hi
    rw [size_submit]
    split_ifs with hb
    · rw [size_of_le (Nat.le_of_eq hb.symm)] at hold
      omega
    · exact hold

/-- A step of a worker, as what it changes. -/
inductive Moves (p : Pool) (w : ℕ) : Pool → Prop
  | take {job : Job} {queue : List Job} (hx : p.workers[w]? = some .idle) (hqueue : p.queue = job :: queue) :
      Moves p w { p with queue := queue, workers := p.workers.set w job.start }
  | list {b : ℕ} (hx : p.workers[w]? = some (.listing b)) :
      Moves p w { p with workers := p.workers.set w (.submitting b 0) }
  | submit {b i : ℕ} (hx : p.workers[w]? = some (.submitting b i)) (hi : i < p.size b) :
      Moves p w { p with queue := p.queue ++ [.item b i], workers := p.workers.set w (.submitting b (i + 1)) }
  | submitted {b i : ℕ} (hx : p.workers[w]? = some (.submitting b i)) (hi : ¬ i < p.size b) :
      Moves p w { p with workers := p.workers.set w (.waiting b (List.range (p.size b))) }
  | return_ {b : ℕ} (hx : p.workers[w]? = some (.waiting b [])) :
      Moves p w { p with workers := p.workers.set w .idle }
  | collect {b i : ℕ} {left : List ℕ} (hx : p.workers[w]? = some (.waiting b left)) (hi : i ∈ left) :
      Moves p w { p with workers := p.workers.set w (.waiting b (left.erase i)) }
  | finish {b i : ℕ} (hx : p.workers[w]? = some (.running b i)) :
      Moves p w { p with finished := (b, i) :: p.finished, workers := p.workers.set w .idle }

theorem moves_of_work {p p' : Pool} {w : ℕ} (h : p.work w = some p') : Moves p w p' := by
  rw [Pool.work] at h
  cases hx : p.workers[w]? with
  | none => simp [hx] at h
  | some x =>
    rw [hx] at h
    cases x with
    | idle =>
      cases hqueue : p.queue with
      | nil => simp [hqueue] at h
      | cons job queue =>
        simp only [hqueue, Option.some.injEq] at h
        exact h ▸ .take hx hqueue
    | listing b => exact Option.some.inj h ▸ .list hx
    | submitting b i =>
      dsimp only at h
      split_ifs at h with hi
      · exact Option.some.inj h ▸ .submit hx hi
      · exact Option.some.inj h ▸ .submitted hx hi
    | waiting b left =>
      dsimp only at h
      split_ifs at h with hleft
      · subst hleft
        exact Option.some.inj h ▸ .return_ hx
      · cases hfind : left.find? fun i => (b, i) ∈ p.finished with
        | none => simp [hfind] at h
        | some i =>
          simp only [hfind, Option.some.injEq] at h
          exact h ▸ .collect hx (List.mem_of_find?_eq_some hfind)
    | running b i => exact Option.some.inj h ▸ .finish hx

section
variable {p p' : Pool} {w : ℕ}

theorem placed_move (h : Moves p w p') {b i : ℕ} (hi : i < p.size b) (hplaced : p.Placed b i) :
    p'.Placed b i := by
  obtain hq | hl | ⟨j, hj, hs⟩ | hq | hr | hf := hplaced
  · cases h with
    | @take job queue hx hqueue =>
      rw [hqueue, List.mem_cons] at hq
      rcases hq with rfl | hq
      · exact Or.inr (Or.inl (Party.mem_set_self hx _))
      · exact Or.inl hq
    | submit hx hlt => exact Or.inl (List.mem_append_left _ hq)
    | _ => exact Or.inl hq
  · cases h with
    | @list c hx =>
      by_cases hbc : Worker.listing b = .listing c
      · cases hbc
        exact Or.inr (Or.inr (Or.inl ⟨0, Nat.zero_le i, Party.mem_set_self hx _⟩))
      · exact Or.inr (Or.inl (Party.mem_set_of_ne hx hl hbc))
    | _ hx => exact Or.inr (Or.inl (Party.mem_set_of_ne hx hl nofun))
  · cases h with
    | @submit c k hx hlt =>
      by_cases hsame : Worker.submitting b j = .submitting c k
      · cases hsame
        rcases Nat.eq_or_lt_of_le hj with rfl | hlt'
        · exact Or.inr (Or.inr (Or.inr (Or.inl (by simp))))
        · exact Or.inr (Or.inr (Or.inl ⟨j + 1, hlt', Party.mem_set_self hx _⟩))
      · exact Or.inr (Or.inr (Or.inl ⟨j, hj, Party.mem_set_of_ne hx hs hsame⟩))
    | @submitted c k hx hge =>
      by_cases hsame : Worker.submitting b j = .submitting c k
      · cases hsame
        omega
      · exact Or.inr (Or.inr (Or.inl ⟨j, hj, Party.mem_set_of_ne hx hs hsame⟩))
    | _ hx => exact Or.inr (Or.inr (Or.inl ⟨j, hj, Party.mem_set_of_ne hx hs nofun⟩))
  · cases h with
    | @take job queue hx hqueue =>
      rw [hqueue, List.mem_cons] at hq
      rcases hq with rfl | hq
      · exact Or.inr (Or.inr (Or.inr (Or.inr (Or.inl (Party.mem_set_self hx _)))))
      · exact Or.inr (Or.inr (Or.inr (Or.inl hq)))
    | submit hx hlt => exact Or.inr (Or.inr (Or.inr (Or.inl (List.mem_append_left _ hq))))
    | _ => exact Or.inr (Or.inr (Or.inr (Or.inl hq)))
  · cases h with
    | @finish c k hx =>
      by_cases hsame : Worker.running b i = .running c k
      · cases hsame
        exact Or.inr (Or.inr (Or.inr (Or.inr (Or.inr List.mem_cons_self))))
      · exact Or.inr (Or.inr (Or.inr (Or.inr (Or.inl (Party.mem_set_of_ne hx hr hsame)))))
    | _ hx => exact Or.inr (Or.inr (Or.inr (Or.inr (Or.inl (Party.mem_set_of_ne hx hr nofun)))))
  · cases h with
    | finish hx => exact Or.inr (Or.inr (Or.inr (Or.inr (Or.inr (List.mem_cons_of_mem _ hf)))))
    | _ => exact Or.inr (Or.inr (Or.inr (Or.inr (Or.inr hf))))

/-- A step hands a batch from the queue to a worker, or ends it. -/
theorem driven_move (h : Moves p w p') (b : ℕ) : p'.driven b ≤ p.driven b := by
  rw [Pool.driven, Pool.driven]
  cases h with
  | @take job queue hx hqueue =>
    have hcount := Party.countP_set (Worker.drives b) job.start hx
    rw [hqueue, List.count_cons]
    cases job with
    | batch c =>
      simp only [Job.start, Worker.drives] at hcount ⊢
      by_cases hbc : c = b
      · simp only [hbc, decide_true, Party.one_true, Party.one_false, beq_self_eq_true, if_true] at hcount ⊢
        omega
      · have hne : ((Job.batch c == .batch b) : Bool) = false := by simpa using hbc
        simp only [hbc, decide_false, Party.one_false, hne, Bool.false_eq_true, if_false] at hcount ⊢
        omega
    | item c i =>
      simp only [Job.start, Worker.drives] at hcount
      simp only [Job.start]
      omega
  | @list c hx =>
    have hcount := Party.countP_set (Worker.drives b) (.submitting c 0) hx
    simp only [Worker.drives] at hcount ⊢
    omega
  | @submit c i hx hi =>
    have hcount := Party.countP_set (Worker.drives b) (.submitting c (i + 1)) hx
    have hqueue : (p.queue ++ [Job.item c i]).count (.batch b) = p.queue.count (.batch b) := by simp
    simp only [Worker.drives] at hcount ⊢
    omega
  | @submitted c i hx hi =>
    have hcount := Party.countP_set (Worker.drives b) (.waiting c (List.range (p.size c))) hx
    simp only [Worker.drives] at hcount ⊢
    omega
  | @collect c i left hx hi =>
    have hcount := Party.countP_set (Worker.drives b) (.waiting c (left.erase i)) hx
    simp only [Worker.drives] at hcount ⊢
    omega
  | @return_ c hx =>
    have hcount := Party.countP_set (Worker.drives b) .idle hx
    simp only [Worker.drives, Party.one_false] at hcount ⊢
    omega
  | @finish c i hx =>
    have hcount := Party.countP_set (Worker.drives b) .idle hx
    simp only [Worker.drives, Party.one_false] at hcount ⊢
    omega

/-- STEP: a worker keeps the invariant. -/
theorem inv_move (hinv : Inv p) (h : Moves p w p') : Inv p' := by
  have hsizes : p'.sizes = p.sizes := by cases h <;> rfl
  have hsize : ∀ b, p'.size b = p.size b := fun b => by rw [Pool.size, Pool.size, hsizes]
  refine ⟨fun b i hi => ?_, fun b => ?_, fun b l hl i hi => ?_⟩
  · rw [hsize] at hi
    exact placed_move h hi (hinv.placed b i hi)
  · rw [hsizes]
    exact Nat.le_trans (driven_move h b) (hinv.once b)
  · rw [hsize]
    cases h with
    | @submitted c k hx hge =>
      rcases List.mem_or_eq_of_mem_set hl with hl | heq
      · exact hinv.left b l hl i hi
      · cases heq
        exact List.mem_range.1 hi
    | @collect c k left hx hk =>
      rcases List.mem_or_eq_of_mem_set hl with hl | heq
      · exact hinv.left b l hl i hi
      · cases heq
        exact hinv.left _ left (List.mem_of_getElem? hx) i (List.mem_of_mem_erase hi)
    | @take job queue hx hqueue =>
      rcases List.mem_or_eq_of_mem_set hl with hl | heq
      · exact hinv.left b l hl i hi
      · cases job <;> cases heq
    | _ =>
      rcases List.mem_or_eq_of_mem_set hl with hl | heq
      · exact hinv.left b l hl i hi
      · cases heq

end

theorem inv_act {p : Pool} (a : Act) (h : Inv p) : Inv (p.act a) := by
  cases a with
  | submit n => exact inv_submit n h
  | work w =>
    rw [Pool.act]
    cases hwork : p.work w with
    | none => exact h
    | some p' => exact inv_move h (moves_of_work hwork)

/-- RUN: the invariant, from when the pool is made. -/
theorem inv_run (workers : ℕ) (trace : List Act) : Inv (run Pool.act (Pool.made workers) trace) :=
  run_inv (P := fun _ => True) (fun _ a h _ => inv_act a h) trace _ (inv_made workers)
    fun _ _ => trivial

theorem length_workers_act (p : Pool) (a : Act) : (p.act a).workers.length = p.workers.length := by
  cases a with
  | submit n => rfl
  | work w =>
    rw [Pool.act]
    cases hwork : p.work w with
    | none => rfl
    | some p' => cases moves_of_work hwork <;> exact List.length_set

theorem length_workers_run (workers : ℕ) (trace : List Act) :
    (run Pool.act (Pool.made workers) trace).workers.length = workers :=
  run_inv (I := fun p : Pool => p.workers.length = workers) (P := fun _ => True)
    (fun p a h _ => (length_workers_act p a).trans h) trace _ List.length_replicate fun _ _ => trivial

theorem sizes_run (trace : List Act) : ∀ p : Pool, (run Pool.act p trace).sizes = p.sizes ++ submitted trace := by
  induction trace with
  | nil => exact fun p => (List.append_nil _).symm
  | cons a trace ih =>
    intro p
    rw [run_cons, ih]
    cases a with
    | submit n => simp [Pool.act, submitted]
    | work w =>
      have hsizes : (p.act (.work w)).sizes = p.sizes := by
        rw [Pool.act]
        cases hwork : p.work w with
        | none => rfl
        | some p' => cases moves_of_work hwork <;> rfl
      rw [hsizes]
      rfl

/-! ### Few enough batches -/

/-- The batches that have items. -/
def Pool.nonempty (p : Pool) : List ℕ := (List.range p.sizes.length).filter fun b => 0 < p.size b

theorem length_nonempty (p : Pool) : p.nonempty.length = p.sizes.countP (0 < ·) := by
  have hsizes : (List.range p.sizes.length).map p.size = p.sizes :=
    List.ext_getElem (by simp) fun i hi hi' => by simp [Pool.size, List.getElem?_eq_getElem hi']
  rw [Pool.nonempty, ← List.countP_eq_length_filter]
  calc (List.range p.sizes.length).countP (fun b => 0 < p.size b)
      = ((List.range p.sizes.length).map p.size).countP (0 < ·) := by rw [List.countP_map]; rfl
    _ = p.sizes.countP (0 < ·) := by rw [hsizes]

/-- Where no worker can make a step and something is not done, every worker waits. -/
theorem waits_of_stuck {p : Pool} (hinv : Inv p) (hleft : p.Unfinished) (hstuck : ∀ w, p.work w = none) :
    ∀ x ∈ p.workers, ∃ b left, x = .waiting b left ∧ left ≠ [] := by
  have hcases : ∀ x ∈ p.workers, (x = .idle ∧ p.queue = []) ∨ ∃ b left, x = .waiting b left ∧ left ≠ [] := by
    intro x hx
    obtain ⟨w, hw⟩ := List.mem_iff_getElem?.1 hx
    rcases work_eq_none hw (hstuck w) with hidle | ⟨b, left, heq, hne, -⟩
    · exact Or.inl hidle
    · exact Or.inr ⟨b, left, heq, hne⟩
  have hqueue : p.queue ≠ [] := by
    obtain ⟨b, i, hi, hnot⟩ := hleft
    obtain hq | hl | ⟨j, -, hs⟩ | hq | hr | hf := hinv.placed b i hi
    · exact List.ne_nil_of_mem hq
    · rcases hcases _ hl with ⟨heq, -⟩ | ⟨c, left, heq, -⟩ <;> cases heq
    · rcases hcases _ hs with ⟨heq, -⟩ | ⟨c, left, heq, -⟩ <;> cases heq
    · exact List.ne_nil_of_mem hq
    · rcases hcases _ hr with ⟨heq, -⟩ | ⟨c, left, heq, -⟩ <;> cases heq
    · exact absurd hf hnot
  exact fun x hx => (hcases x hx).resolve_left fun h => hqueue h.2

/-- The workers that wait are each behind a batch of their own that has items. -/
theorem length_workers_le {p : Pool} (hinv : Inv p)
    (hwait : ∀ x ∈ p.workers, ∃ b left, x = .waiting b left ∧ left ≠ []) :
    p.workers.length ≤ p.sizes.countP (0 < ·) := by
  rw [← length_nonempty]
  suffices hcount : p.workers.countP (fun _ => true) ≤ p.nonempty.length by rwa [List.countP_true] at hcount
  refine Party.countP_le_length (q := Worker.drives) ?_ fun b _ => ?_
  · intro x hx _
    obtain ⟨b, left, rfl, hne⟩ := hwait x hx
    obtain ⟨i, hi⟩ := List.exists_mem_of_ne_nil left hne
    have hlt : i < p.size b := hinv.left b left hx i hi
    have hb : b < p.sizes.length := by
      by_contra hge
      rw [size_of_le (Nat.le_of_not_lt hge)] at hlt
      exact Nat.not_lt_zero i hlt
    refine ⟨b, ?_, by simp [Worker.drives]⟩
    simp [Pool.nonempty, hb, Nat.zero_lt_of_lt hlt]
  · have honce := hinv.once b
    have hle := Party.one_le_one (b < p.sizes.length)
    rw [Pool.driven] at honce
    omega

theorem never_stuck_of_lt {workers : ℕ} {sizes : List ℕ} (h : sizes.countP (0 < ·) < workers) :
    NeverStuck workers sizes := by
  intro trace hprefix hleft
  by_contra hnone
  have hstuck : ∀ w, (run Pool.act (Pool.made workers) trace).work w = none := by
    intro w
    rw [← Option.not_isSome_iff_eq_none]
    exact fun hsome => hnone ⟨w, hsome⟩
  have hinv := inv_run workers trace
  have hle := length_workers_le hinv (waits_of_stuck hinv hleft hstuck)
  have hcount : (submitted trace).countP (0 < ·) ≤ sizes.countP (0 < ·) := hprefix.sublist.countP_le
  rw [length_workers_run, sizes_run] at hle
  exact absurd (Nat.lt_of_lt_of_le h (Nat.le_trans hle hcount)) (Nat.lt_irrefl _)

/-! ### One batch for every worker -/

/-- A worker that waits for all the items of a batch. -/
def Pool.behind (p : Pool) (b : ℕ) : Worker := .waiting b (List.range (p.size b))

/-- Some steps of the workers lead from the one to the other. -/
def Leads (p p' : Pool) : Prop := ∃ steps : List ℕ, run Pool.act p (steps.map .work) = p'

theorem leads_refl (p : Pool) : Leads p p := ⟨[], rfl⟩

theorem leads_trans {p q r : Pool} (h : Leads p q) (h' : Leads q r) : Leads p r := by
  obtain ⟨s, rfl⟩ := h
  obtain ⟨t, rfl⟩ := h'
  exact ⟨s ++ t, by rw [List.map_append, run_append]⟩

theorem leads_of_work {p q : Pool} {w : ℕ} (h : p.work w = some q) : Leads p q :=
  ⟨[w], by simp [Pool.act, h]⟩

/-- A driver submits its items from some point on. -/
theorem leads_submitting (b k : ℕ) : ∀ (p : Pool) (i w : ℕ), p.workers[w]? = some (.submitting b i) →
    i + k = p.size b → Leads p { p with
      queue := p.queue ++ (List.range' i k).map (.item b)
      workers := p.workers.set w (p.behind b) } := by
  induction k with
  | zero =>
    intro p i w hx hi
    refine leads_of_work (w := w) ?_
    rw [Pool.work, hx]
    simp [← hi, Pool.behind]
  | succ k ih =>
    intro p i w hx hi
    have hlt : w < p.workers.length := (List.getElem?_eq_some_iff.1 hx).1
    have hstep : p.work w = some { p with
        queue := p.queue ++ [.item b i], workers := p.workers.set w (.submitting b (i + 1)) } := by
      rw [Pool.work, hx]
      exact if_pos (by omega)
    refine leads_trans (leads_of_work hstep) ?_
    have hrest := ih { p with
      queue := p.queue ++ [.item b i], workers := p.workers.set w (.submitting b (i + 1)) } (i + 1) w
      (by simp [hlt]) ((Nat.succ_add_eq_add_succ i k).trans hi)
    simpa [List.range'_succ, List.append_assoc, Pool.behind, Pool.size] using hrest

/-- An idle worker takes the batch at the front of the queue, and is behind its items. -/
theorem leads_driving {p : Pool} {w b : ℕ} {queue : List Job} (hx : p.workers[w]? = some .idle)
    (hqueue : p.queue = .batch b :: queue) :
    Leads p { p with
      queue := queue ++ (List.range (p.size b)).map (.item b)
      workers := p.workers.set w (p.behind b) } := by
  have hlt : w < p.workers.length := (List.getElem?_eq_some_iff.1 hx).1
  have htake : p.work w = some { p with queue := queue, workers := p.workers.set w (.listing b) } := by
    rw [Pool.work, hx, hqueue]
    rfl
  have hlist : Pool.work { p with queue := queue, workers := p.workers.set w (.listing b) } w =
      some { p with queue := queue, workers := p.workers.set w (.submitting b 0) } := by
    simp [Pool.work, hlt]
  refine leads_trans (leads_of_work htake) (leads_trans (leads_of_work hlist) ?_)
  have hsubmit := leads_submitting b (p.size b)
    { p with queue := queue, workers := p.workers.set w (.submitting b 0) } 0 w (by simp [hlt])
    (Nat.zero_add _)
  simpa [Pool.behind, Pool.size, List.range_eq_range'] using hsubmit

/-- The first workers each wait for all the items of a batch, the others are idle. -/
def Pool.Held (p : Pool) (idle : ℕ) : Prop :=
  ∃ held, p.workers = held ++ List.replicate idle .idle ∧ ∀ x ∈ held, ∃ b, 0 < p.size b ∧ x = p.behind b

/-- With a batch in the queue for every worker that is idle, all of them come to wait. -/
theorem leads_held (bs : List ℕ) : ∀ (idle : ℕ) (p : Pool) (items : List Job), p.Held idle →
    p.queue = bs.map .batch ++ items → p.finished = [] → idle ≤ bs.countP (fun b => 0 < p.size b) →
    ∃ p', Leads p p' ∧ p'.Held 0 ∧ p'.finished = [] ∧ p'.sizes = p.sizes := by
  induction bs with
  | nil =>
    intro idle p items hheld hqueue hfinished hle
    obtain rfl : idle = 0 := Nat.le_zero.1 hle
    exact ⟨p, leads_refl p, hheld, hfinished, rfl⟩
  | cons b bs ih =>
    intro idle p items hheld hqueue hfinished hle
    cases idle with
    | zero => exact ⟨p, leads_refl p, hheld, hfinished, rfl⟩
    | succ idle =>
      obtain ⟨held, hworkers, hbehind⟩ := hheld
      have hx : p.workers[held.length]? = some .idle := by simp [hworkers, List.replicate_succ]
      have hdrive := leads_driving hx hqueue
      have hset (x : Worker) : p.workers.set held.length x = held ++ x :: List.replicate idle .idle := by
        simp [hworkers, List.replicate_succ]
      rw [hset] at hdrive
      rcases Nat.eq_zero_or_pos (p.size b) with hzero | hpos
      · -- a batch with no items gives its worker back
        have hback : Pool.work { p with
              queue := bs.map .batch ++ items ++ (List.range (p.size b)).map (.item b)
              workers := held ++ p.behind b :: List.replicate idle .idle } held.length =
            some { p with queue := bs.map .batch ++ items, workers := p.workers } := by
          simp [Pool.work, Pool.behind, hzero, hworkers, List.replicate_succ]
        have hcount : (b :: bs).countP (fun b => 0 < p.size b) = bs.countP (fun b => 0 < p.size b) := by
          simp [hzero]
        obtain ⟨p', hleads, hp'⟩ := ih (idle + 1) { p with queue := bs.map .batch ++ items, workers := p.workers }
          items ⟨held, hworkers, hbehind⟩ rfl hfinished (hcount ▸ hle)
        exact ⟨p', leads_trans hdrive (leads_trans (leads_of_work hback) hleads), hp'⟩
      · have hcount : (b :: bs).countP (fun b => 0 < p.size b) = bs.countP (fun b => 0 < p.size b) + 1 := by
          simp [hpos]
        obtain ⟨p', hleads, hp'⟩ := ih idle { p with
            queue := bs.map .batch ++ items ++ (List.range (p.size b)).map (.item b)
            workers := held ++ p.behind b :: List.replicate idle .idle }
          (items ++ (List.range (p.size b)).map (.item b))
          ⟨held ++ [p.behind b], by simp, by
            intro x hx
            rcases List.mem_append.1 hx with hx | hx
            · exact hbehind x hx
            · exact ⟨b, hpos, List.mem_singleton.1 hx⟩⟩
          (List.append_assoc ..) hfinished (by rw [hcount] at hle; exact Nat.le_of_succ_le_succ hle)
        exact ⟨p', leads_trans hdrive hleads, hp'⟩

theorem work_of_held {p : Pool} (hheld : p.Held 0) (hfinished : p.finished = []) (w : ℕ) : p.work w = none := by
  obtain ⟨held, hworkers, hbehind⟩ := hheld
  rw [List.replicate_zero, List.append_nil] at hworkers
  cases hx : p.workers[w]? with
  | none => rw [Pool.work, hx]
  | some x =>
    obtain ⟨b, hpos, rfl⟩ := hbehind x (hworkers ▸ List.mem_of_getElem? hx)
    have hfind : (List.range (p.size b)).find? (fun i => (b, i) ∈ p.finished) = none :=
      List.find?_eq_none.2 fun i _ => by simp [hfinished]
    rw [Pool.work, hx]
    simp [Pool.behind, Nat.ne_of_gt hpos, hfind]

theorem run_submit (sizes : List ℕ) : ∀ p : Pool, run Pool.act p (sizes.map .submit) = { p with
    queue := p.queue ++ (List.range' p.sizes.length sizes.length).map .batch
    sizes := p.sizes ++ sizes } := by
  induction sizes with
  | nil =>
    intro p
    simp
  | cons n sizes ih =>
    intro p
    rw [List.map_cons, run_cons, ih]
    simp [Pool.act, List.range'_succ]

theorem not_never_stuck {workers : ℕ} {sizes : List ℕ} (hpos : 1 ≤ workers)
    (h : workers ≤ sizes.countP (0 < ·)) : ¬ NeverStuck workers sizes := by
  intro hnever
  have hsubmit := run_submit sizes (Pool.made workers)
  set p := run Pool.act (Pool.made workers) (sizes.map .submit) with hp
  have hsizes : p.sizes = sizes := by rw [hsubmit]; rfl
  have hcount : (List.range sizes.length).countP (fun b => 0 < p.size b) = sizes.countP (0 < ·) := by
    rw [List.countP_eq_length_filter, ← hsizes]
    exact length_nonempty p
  obtain ⟨p', ⟨steps, hsteps⟩, hheld, hfinished, hsizes'⟩ :=
    leads_held (List.range sizes.length) workers p []
      ⟨[], by rw [hsubmit]; rfl, fun x hx => nomatch hx⟩
      (by rw [hsubmit, List.append_nil, List.range_eq_range']; rfl) (by rw [hsubmit]; rfl) (hcount ▸ h)
  have hrun : run Pool.act (Pool.made workers) (sizes.map .submit ++ steps.map .work) = p' := by
    rw [run_append, ← hp, hsteps]
  have hsub : submitted (sizes.map .submit ++ steps.map .work) = sizes := by
    simp [submitted, List.filterMap_append, List.filterMap_map]
  have hleft : p'.Unfinished := by
    obtain ⟨b, hb⟩ : ∃ b, b ∈ p.nonempty := by
      refine List.exists_mem_of_length_pos ?_
      rw [length_nonempty, hsizes]
      omega
    have hlt : 0 < p.size b := by simpa using (List.mem_filter.1 hb).2
    exact ⟨b, 0, by rwa [Pool.size, hsizes', ← Pool.size], by rw [hfinished]; exact List.not_mem_nil⟩
  obtain ⟨w, hw⟩ := hnever (sizes.map .submit ++ steps.map .work) (by simp only [hsub, List.prefix_rfl]) (by rwa [hrun])
  rw [hrun, work_of_held hheld hfinished] at hw
  exact absurd hw Bool.false_ne_true

/-- Some worker can always go on exactly when the batches that have items are fewer than the workers. -/
theorem never_stuck_iff {workers : ℕ} (sizes : List ℕ) (h : 1 ≤ workers) :
    NeverStuck workers sizes ↔ sizes.countP (0 < ·) < workers := by
  constructor
  · intro hnever
    by_contra hge
    exact not_never_stuck h (Nat.le_of_not_lt hge) hnever
  · exact never_stuck_of_lt

theorem never_stuck_two : NeverStuck 2 [3, 0] := (never_stuck_iff [3, 0] (by decide)).2 (by decide)

/-- One worker and one batch of one item: the worker waits for the item, which waits for the worker. -/
theorem stuck_one : ¬ NeverStuck 1 [1] := by
  intro hnever
  obtain ⟨w, hw⟩ := hnever [.submit 1, .work 0, .work 0, .work 0, .work 0] (by decide)
    ⟨0, 0, by decide, by decide⟩
  cases w with
  | zero => exact absurd hw (by decide)
  | succ w => exact absurd hw (by simp [Pool.act, Pool.work, Pool.made, Pool.size, Job.start])

end AgentLangraph.Batch
