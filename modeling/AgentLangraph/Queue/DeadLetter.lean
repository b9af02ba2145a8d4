import AgentLangraph.Lib.PyVal
import AgentLangraph.Lib.Trace
import Mathlib.Data.Rat.Floor

/-! The dead letters (`dead_letter_store.py`): one row for each task. `requeue` reads the row with one statement and
    marks it as resolved with another, which asks for nothing but the task; each statement is a step, and the steps
    of the callers come in any order.

        reading task ──SELECT──▶ updating (task, letter) ──UPDATE──▶ returned (some state)
             └── none, or resolved ─────────────────────────────────▶ returned none -/

namespace AgentLangraph.Queue.DeadLetter
open PyText Trace

/-- A row of `dead_letter_queue`. Which `enqueue` wrote it is not in the row: `number` is there to tell them
    apart. -/
structure Letter where
  taskId : Text
  status : Text
  state : Fields
  errors : PyVal
  retryCount : PyVal
  enqueuedAt : ℚ
  resolvedAt : Option ℚ
  number : ℕ
  deriving DecidableEq

/-- What `enqueue` writes. -/
def letterOf (state : Fields) (now : ℚ) (number : ℕ) : Letter where
  taskId := (state.field "task_id").toText
  status := (state.getD "status".toList (.str "DEAD_LETTER".toList)).toText
  state := state
  errors := state.getD "errors".toList (.other "[]".toList false)
  retryCount := state.getD "retry_count".toList (.int 0)
  enqueuedAt := now
  resolvedAt := none
  number := number

/-- What `requeue` sets of the state that it returns; the rest is as in every new state. -/
structure Requeued where
  taskId : Text
  sessionId : PyVal
  userId : PyVal
  taskType : PyVal
  inputPayload : PyVal
  executionMode : PyVal
  errors : PyVal := .other "[]".toList false
  retryCount : PyVal := .int 0
  status : Text := "NEW".toList
  currentNode : Text := "api".toList
  deriving DecidableEq

/-- `create_initial_state` of what the letter holds, and `merge_state`. -/
def requeuedState (raw : Fields) : Requeued where
  taskId := (raw.field "task_id").toText
  sessionId := (raw.field "session_id").orElse (raw.field "task_id")
  userId := raw.getD "user_id".toList (.str "anonymous".toList)
  taskType := raw.getD "task_type".toList (.str "qa".toList)
  inputPayload := (raw.field "input_payload").orElse (.other "\x7b\x7d".toList false)
  executionMode := raw.getD "execution_mode".toList (.str "single".toList)

/-! ### Callers -/

inductive Phase
  | reading (taskId : Text)
  /-- The letter was read, and was not resolved. -/
  | updating (taskId : Text) (entry : Letter)
  | returned (state : Option Requeued)
  deriving DecidableEq

/-- The table, the callers of `requeue`, how often `enqueue` was called, and for which of these calls a state was
    returned, the last one first. -/
structure Store where
  row : Text → Option Letter
  callers : List Phase
  enqueues : ℕ
  handed : List ℕ

def Store.start : Store := ⟨fun _ => none, [], 0, []⟩

inductive Event
  | enqueue (state : Fields) (now : ℚ)
  /-- A call of `requeue` begins. -/
  | requeue (taskId : Text)
  /-- The next statement of a caller. -/
  | step (i : ℕ) (now : ℚ)

/-- `INSERT OR REPLACE`. -/
def Store.enqueue (s : Store) (state : Fields) (now : ℚ) : Store :=
  let letter := letterOf state now s.enqueues
  { s with row := Function.update s.row letter.taskId (some letter), enqueues := s.enqueues + 1 }

/-- `UPDATE ... SET resolved_at = ? WHERE task_id = ?`. -/
def Store.resolve (s : Store) (taskId : Text) (now : ℚ) : Store :=
  { s with row := Function.update s.row taskId ((s.row taskId).map fun l => { l with resolvedAt := some now }) }

/-- The statement of a caller: the store without its callers, and the phase after it. -/
def Store.statement (s : Store) (phase : Phase) (now : ℚ) : Store × Phase :=
  match phase with
  | .reading taskId =>
    match s.row taskId with
    | none => (s, .returned none)
    | some entry => if entry.resolvedAt.isSome then (s, .returned none) else (s, .updating taskId entry)
  | .updating taskId entry =>
    ({ s.resolve taskId now with handed := entry.number :: s.handed }, .returned (some (requeuedState entry.state)))
  | .returned state => (s, .returned state)

def Store.step (s : Store) : Event → Store
  | .enqueue state now => s.enqueue state now
  | .requeue taskId => { s with callers := s.callers ++ [.reading taskId] }
  | .step i now =>
    match s.callers[i]? with
    | none => s
    | some phase =>
      let next := s.statement phase now
      { next.1 with callers := s.callers.set i next.2 }

/-! ### Once for each enqueue -/

/-- The statement to come is the `UPDATE` of a caller that has read this letter. -/
def Store.Updates (s : Store) (e : Event) (taskId : Text) (entry : Letter) : Prop :=
  ∃ i now, e = .step i now ∧ s.callers[i]? = some (.updating taskId entry)

/-- No `enqueue` has its state returned twice, and what is marked is the letter that was read. -/
structure Once (s : Store) (e : Event) : Prop where
  returned : (s.step e).handed.Nodup
  marked : ∀ taskId entry, s.Updates e taskId entry → ∀ l ∈ s.row taskId, l.number = entry.number

/-- At an `UPDATE` the row is still what the caller has read: not written again, and not resolved by another. -/
def Untouched (s : Store) (e : Event) : Prop :=
  ∀ taskId entry, s.Updates e taskId entry → ∃ l ∈ s.row taskId, l.number = entry.number ∧ l.resolvedAt = none

/-- The letters that are resolved are those whose state was returned. -/
structure Store.Sound (s : Store) : Prop where
  nodup : s.handed.Nodup
  resolved : ∀ taskId l, s.row taskId = some l → (l.resolvedAt = none ↔ l.number ∉ s.handed)
  unique : ∀ t t' l l', s.row t = some l → s.row t' = some l' → l.number = l'.number → t = t'
  row_lt : ∀ taskId l, s.row taskId = some l → l.number < s.enqueues
  handed_lt : ∀ n ∈ s.handed, n < s.enqueues
  updating : ∀ taskId entry, .updating taskId entry ∈ s.callers → (s.row taskId).isSome ∧ entry.number < s.enqueues

theorem sound_start : Store.start.Sound := by
  constructor <;> simp [Store.start]

/-- A statement reads, or it is an `UPDATE`. -/
theorem statement_cases (s : Store) (phase : Phase) (now : ℚ) :
    ((s.statement phase now).1 = s ∧ (∀ taskId entry, phase ≠ .updating taskId entry) ∧
      ∀ taskId entry, (s.statement phase now).2 = .updating taskId entry → s.row taskId = some entry) ∨
    ∃ taskId entry, phase = .updating taskId entry ∧ s.statement phase now =
      ({ s.resolve taskId now with handed := entry.number :: s.handed },
        .returned (some (requeuedState entry.state))) := by
  cases phase with
  | reading taskId =>
    rw [Store.statement]
    cases hrow : s.row taskId with
    | none => exact Or.inl (by simp)
    | some entry =>
      dsimp only
      split_ifs
      · exact Or.inl (by simp)
      · refine Or.inl ⟨rfl, by simp, fun taskId' entry' h => ?_⟩
        obtain ⟨rfl, rfl⟩ : taskId = taskId' ∧ entry = entry' := by simpa using h
        exact hrow
  | updating taskId entry => exact Or.inr ⟨taskId, entry, rfl, rfl⟩
  | returned state => exact Or.inl ⟨rfl, by simp, by simp [Store.statement]⟩

theorem step_of_none {s : Store} {i : ℕ} {now : ℚ} (h : s.callers[i]? = none) : s.step (.step i now) = s := by
  rw [Store.step, h]

theorem step_of_some {s : Store} {i : ℕ} {now : ℚ} {phase : Phase} (h : s.callers[i]? = some phase) :
    s.step (.step i now) = { (s.statement phase now).1 with callers := s.callers.set i (s.statement phase now).2 } := by
  rw [Store.step, h]

theorem sound_enqueue {s : Store} (h : s.Sound) (state : Fields) (now : ℚ) : (s.enqueue state now).Sound := by
  have hrow (t : Text) (l : Letter) (hl : (s.enqueue state now).row t = some l) :
      (t = (state.field "task_id").toText ∧ l = letterOf state now s.enqueues) ∨ s.row t = some l := by
    rw [Store.enqueue] at hl
    dsimp only at hl
    rw [Function.update_apply] at hl
    split_ifs at hl with ht
    · exact Or.inl ⟨ht, (Option.some.inj hl).symm⟩
    · exact Or.inr hl
  refine ⟨h.nodup, fun t l hl => ?_, fun t t' l l' hl hl' hsame => ?_, fun t l hl => ?_,
    fun n hn => Nat.lt_succ_of_lt (h.handed_lt n hn), fun t entry hupdating => ?_⟩
  · rcases hrow t l hl with ⟨-, rfl⟩ | hold
    · exact iff_of_true rfl fun hmem => Nat.lt_irrefl _ (h.handed_lt _ hmem)
    · exact h.resolved t l hold
  · rcases hrow t l hl with ⟨rfl, rfl⟩ | hold
    · rcases hrow t' l' hl' with ⟨rfl, -⟩ | hold'
      · rfl
      · exact absurd (h.row_lt t' l' hold') (by rw [← hsame]; exact Nat.lt_irrefl _)
    · rcases hrow t' l' hl' with ⟨-, rfl⟩ | hold'
      · exact absurd (h.row_lt t l hold) (by rw [hsame]; exact Nat.lt_irrefl _)
      · exact h.unique t t' l l' hold hold' hsame
  · rcases hrow t l hl with ⟨-, rfl⟩ | hold
    · exact Nat.lt_succ_self _
    · exact Nat.lt_succ_of_lt (h.row_lt t l hold)
  · obtain ⟨hsome, hlt⟩ := h.updating t entry hupdating
    refine ⟨?_, Nat.lt_succ_of_lt hlt⟩
    rw [Store.enqueue]
    dsimp only
    rw [Function.update_apply]
    split_ifs
    · rfl
    · exact hsome

/-- An `UPDATE` of a letter that is as it was read marks the letter, and its state is returned. -/
theorem sound_resolve {s : Store} (h : s.Sound) {taskId : Text} {entry l : Letter} (hrow : s.row taskId = some l)
    (hsame : l.number = entry.number) (hopen : l.resolvedAt = none) (now : ℚ) :
    ({ s.resolve taskId now with handed := entry.number :: s.handed } : Store).Sound := by
  have hfresh : entry.number ∉ s.handed := hsame ▸ (h.resolved taskId l hrow).1 hopen
  have hrows (t : Text) (l' : Letter) (hl' : (s.resolve taskId now).row t = some l') :
      (t = taskId ∧ l' = { l with resolvedAt := some now }) ∨ (t ≠ taskId ∧ s.row t = some l') := by
    rw [Store.resolve] at hl'
    dsimp only at hl'
    rw [Function.update_apply, hrow] at hl'
    split_ifs at hl' with ht
    · exact Or.inl ⟨ht, (Option.some.inj hl').symm⟩
    · exact Or.inr ⟨ht, hl'⟩
  refine ⟨List.nodup_cons.2 ⟨hfresh, h.nodup⟩, fun t l' hl' => ?_, fun t t' l₁ l₂ hl₁ hl₂ hnumber => ?_,
    fun t l' hl' => ?_, fun n hn => ?_, fun t e hupdating => ?_⟩
  · rcases hrows t l' hl' with ⟨-, rfl⟩ | ⟨hne, hold⟩
    · exact iff_of_false nofun fun hnot => hnot (hsame ▸ List.mem_cons_self)
    · -- a letter of another task has another number
      have hother : l'.number ≠ entry.number := fun heq => hne (h.unique t taskId l' l hold hrow (heq.trans hsame.symm))
      rw [h.resolved t l' hold]
      simp [hother]
  · rcases hrows t l₁ hl₁ with ⟨rfl, rfl⟩ | ⟨-, hold₁⟩
    · rcases hrows t' l₂ hl₂ with ⟨rfl, -⟩ | ⟨-, hold₂⟩
      · rfl
      · exact h.unique t t' l l₂ hrow hold₂ hnumber
    · rcases hrows t' l₂ hl₂ with ⟨rfl, rfl⟩ | ⟨-, hold₂⟩
      · exact h.unique t t' l₁ l hold₁ hrow hnumber
      · exact h.unique t t' l₁ l₂ hold₁ hold₂ hnumber
  · rcases hrows t l' hl' with ⟨-, rfl⟩ | ⟨-, hold⟩
    · exact h.row_lt taskId l hrow
    · exact h.row_lt t l' hold
  · rcases List.mem_cons.1 hn with rfl | hn
    · exact hsame ▸ h.row_lt taskId l hrow
    · exact h.handed_lt n hn
  · obtain ⟨hsome, hlt⟩ := h.updating t e hupdating
    refine ⟨?_, hlt⟩
    change ((Function.update s.row taskId _) t).isSome
    rw [Function.update_apply, hrow]
    split_ifs
    · rfl
    · exact hsome

/-- A phase in which no letter is held needs nothing. -/
theorem sound_set {s : Store} (h : s.Sound) (i : ℕ) {phase : Phase}
    (hphase : ∀ taskId entry, phase = .updating taskId entry → (s.row taskId).isSome ∧ entry.number < s.enqueues) :
    ({ s with callers := s.callers.set i phase } : Store).Sound := by
  refine ⟨h.nodup, h.resolved, h.unique, h.row_lt, h.handed_lt, fun t e hupdating => ?_⟩
  rcases List.mem_or_eq_of_mem_set hupdating with hold | hnew
  · exact h.updating t e hold
  · exact hphase t e hnew.symm

/-- STEP: while the `UPDATE`s find what was read, the letters that are resolved are those that were returned. -/
theorem sound_step {s : Store} (h : s.Sound) (e : Event) (huntouched : Untouched s e) : (s.step e).Sound := by
  cases e with
  | enqueue state now => exact sound_enqueue h state now
  | requeue taskId =>
    refine ⟨h.nodup, h.resolved, h.unique, h.row_lt, h.handed_lt, fun t entry hupdating => ?_⟩
    rcases List.mem_append.1 hupdating with hold | hnew
    · exact h.updating t entry hold
    · rw [List.mem_singleton] at hnew
      exact nomatch hnew
  | step i now =>
    cases hcaller : s.callers[i]? with
    | none =>
      rw [step_of_none hcaller]
      exact h
    | some phase =>
      rw [step_of_some hcaller]
      rcases statement_cases s phase now with ⟨hsame, -, hread⟩ | ⟨taskId, entry, rfl, hupdate⟩
      · rw [hsame]
        refine sound_set h i fun t entry hphase => ?_
        have hrow := hread t entry hphase
        exact ⟨by rw [hrow]; rfl, h.row_lt t entry hrow⟩
      · obtain ⟨l, hrow, hnumber, hopen⟩ := huntouched taskId entry ⟨i, now, rfl, hcaller⟩
        rw [hupdate]
        exact sound_set (sound_resolve h hrow hnumber hopen now) i nofun

/-- An `UPDATE` returns a state once and marks its own letter exactly when the row is as it was read. -/
theorem once_iff_untouched {s : Store} (h : s.Sound) (e : Event) : Once s e ↔ Untouched s e := by
  constructor
  · rintro ⟨hreturned, hmarked⟩ taskId entry ⟨i, now, rfl, hcaller⟩
    obtain ⟨hsome, -⟩ := h.updating taskId entry (List.mem_of_getElem? hcaller)
    obtain ⟨l, hrow⟩ := Option.isSome_iff_exists.1 hsome
    have hnumber := hmarked taskId entry ⟨i, now, rfl, hcaller⟩ l hrow
    refine ⟨l, hrow, hnumber, (h.resolved taskId l hrow).2 ?_⟩
    rw [step_of_some hcaller, Store.statement] at hreturned
    rw [hnumber]
    exact (List.nodup_cons.1 hreturned).1
  · intro huntouched
    refine ⟨(sound_step h e huntouched).nodup, fun taskId entry hupdates l hl => ?_⟩
    obtain ⟨l', hrow, hnumber, -⟩ := huntouched taskId entry hupdates
    rw [← hnumber, Option.some.inj (hl.symm.trans hrow)]

/-- Along every interleaving of the statements of any callers each enqueue has its state returned at most once, and
    no letter is marked by a caller that read an earlier one, exactly when each `UPDATE` finds the row as its caller
    has read it. -/
theorem requeued_once_iff (events : List Event) :
    Along Store.step Once .start events ↔ Along Store.step Untouched .start events :=
  along_iff (I := Store.Sound) (fun _ e h => once_iff_untouched h e) (fun _ e h huntouched => sound_step h e huntouched)
    events .start sound_start

/-- A caller between whose two statements no other caller and no `enqueue` has a step finds the row as it was. -/
theorem untouched_of_alone {s : Store} {i : ℕ} {now now' : ℚ} {taskId : Text}
    (h : s.callers[i]? = some (.reading taskId)) :
    Untouched (s.step (.step i now)) (.step i now') := by
  rintro t entry ⟨j, _, hj, hcaller⟩
  rw [Event.step.injEq] at hj
  obtain ⟨rfl, rfl⟩ := hj
  have hlt : i < s.callers.length := (List.getElem?_eq_some_iff.1 h).1
  rw [step_of_some h] at hcaller ⊢
  dsimp only at hcaller ⊢
  rw [List.getElem?_set_self hlt, Option.some.injEq, Store.statement] at hcaller
  rw [Store.statement]
  cases hrow : s.row taskId with
  | none => rw [hrow] at hcaller; exact nomatch hcaller
  | some l =>
    rw [hrow] at hcaller
    dsimp only at hcaller ⊢
    split_ifs at hcaller ⊢ with hresolved
    rw [Phase.updating.injEq] at hcaller
    obtain ⟨rfl, rfl⟩ := hcaller
    refine ⟨l, hrow, rfl, ?_⟩
    rwa [Option.not_isSome_iff_eq_none] at hresolved

/-- A state as `enqueue` is handed it. -/
def failedState : Fields := PyDict.empty.put "task_id" (.str "t".toList)

/-- Both callers read the letter before either of them marks it, and the task runs twice; a failure that comes
    between the two statements of a caller is marked as resolved, and its state is returned by no call. -/
theorem requeued_twice :
    (∃ events, ¬ (run Store.step .start events).handed.Nodup) ∧
      ∃ events e taskId entry, (run Store.step .start events).Updates e taskId entry ∧
        ∃ l ∈ (run Store.step .start events).row taskId, l.number ≠ entry.number := by
  constructor
  · refine ⟨[.enqueue failedState 0, .requeue "t".toList, .requeue "t".toList, .step 0 1, .step 1 1, .step 0 2,
      .step 1 2], ?_⟩
    decide +kernel
  · refine ⟨[.enqueue failedState 0, .requeue "t".toList, .step 0 1, .enqueue failedState 2], .step 0 3, "t".toList,
      letterOf failedState 0 0, ⟨0, 3, rfl, rfl⟩, letterOf failedState 2 1, rfl, ?_⟩
    simp [letterOf]

end AgentLangraph.Queue.DeadLetter
