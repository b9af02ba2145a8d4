import AgentLangraph.Run.Fence
import AgentLangraph.Run.Signal
import AgentLangraph.Run.Turn

/-! Threads that work on their own copies of the task's state: a copy is loaded, changed, and stored
    as a whole. The foreground epoch lives in the state, so it is bumped by load, change and store
    too, and a copy that was loaded before a bump takes it back when it is stored after.

        load ─ work ─ … ─ store        stored epoch after a store = epoch of the copy -/

namespace AgentLangraph.Run
open PyText Session Trace

/-- A name for each thread, or for each of the copies a thread works on. -/
abbrev Thread := ℕ

/-- A change of a copy that is not about the foreground epoch. -/
structure Work (cfg : Surroundings) where
  change : AgentState → AgentState
  epoch : ∀ s, getForegroundEpoch cfg (change s) = getForegroundEpoch cfg s

/-- An operation on the registries. -/
abbrev RegistryOp := { op : Op // ∀ s, op ≠ .save s }

inductive Event (cfg : Surroundings)
  | load (t : Thread)
  | work (t : Thread) (f : Work cfg)
  /-- `bump_foreground_epoch`. -/
  | bump (t : Thread)
  | registry (op : RegistryOp)
  /-- The `request_pause` of `trigger_foreground_preempt`. -/
  | preemptPause (reason : Text)
  /-- A control check of a run on its way through a tool. -/
  | check (runId : Text) (stepEpoch : Option ℤ) (phase : Text)
  /-- A save of the copy, which for a run commits a tool observation. -/
  | store (t : Thread) (observationOf : Option Text)

/-- The process and the copies of its threads. -/
structure Threads where
  world : World
  copy : Thread → Option AgentState

/-- `bump_foreground_epoch`; a malformed epoch raises. What the event says besides its name is read
    by nothing modelled. -/
def bumpForegroundEpoch (cfg : Surroundings) (s : AgentState) : Option AgentState :=
  (intField cfg (ensureInterruptContext s) "foreground_epoch").map fun epoch =>
    { s with
      interruptContext := some ((((ensureInterruptContext s).put "foreground_epoch"
        (.int (epoch + 1))).put "control_state" (.str "INTERRUPT_REQUESTED".toList)).put
          "last_control_event" (.other "\x7b'event': 'foreground_epoch_bumped'\x7d".toList true)) }

/-- The copy of one thread after `f`. -/
def Threads.update (m : Threads) (t : Thread) (f : AgentState → AgentState) : Threads :=
  { m with copy := fun t' => if t' = t then (m.copy t).map f else m.copy t' }

variable {cfg : Surroundings}

/-- The operation on the registries that an event is, if any. -/
def Event.op? : Event cfg → Option Op
  | .registry op => some op.1
  | .preemptPause reason => some (.request .pause "web".toList reason)
  | _ => none

def Threads.step (m : Threads) : Event cfg → Threads
  | .load t => { m with copy := fun t' => if t' = t then m.world.row else m.copy t' }
  | .work t f => m.update t f.change
  | .bump t => m.update t fun s => (bumpForegroundEpoch cfg s).getD s
  | .registry op => { m with world := m.world.step cfg op.1 }
  | .preemptPause reason =>
    { m with world := m.world.step cfg (.request .pause "web".toList reason) }
  | .check _ _ _ => m
  | .store t _ =>
    match m.copy t with
    | none => m
    | some s => { m with world := m.world.save cfg s }

def Threads.run (m : Threads) (trace : List (Event cfg)) : Threads := Trace.run Threads.step m trace

/-! ### What each event does to the row, the copies and the control handle -/

theorem registry_row (w : World) {op : Op} (h : ∀ s, op ≠ .save s) :
    (w.step cfg op).row = w.row := by
  rw [step_row]
  cases op with
  | save s => exact absurd rfl (h s)
  | _ => rfl

theorem threads_row (m : Threads) (e : Event cfg) : (m.step e).world.row =
    match e with
    | .store t _ =>
      match m.copy t with
      | none => m.world.row
      | some s => rowAfter m.world.row (m.world.surroundings cfg, s)
    | _ => m.world.row := by
  cases e with
  | registry op => exact registry_row m.world op.2
  | preemptPause reason => exact registry_row m.world fun s => by simp
  | store t observationOf =>
    simp only [Threads.step]
    cases m.copy t with
    | none => rfl
    | some s => exact save_row m.world s
  | _ => rfl

theorem threads_copy (m : Threads) (e : Event cfg) (t : Thread) : (m.step e).copy t =
    match e with
    | .load t' => if t = t' then m.world.row else m.copy t
    | .work t' f => if t = t' then (m.copy t).map f.change else m.copy t
    | .bump t' =>
      if t = t' then (m.copy t).map fun s => (bumpForegroundEpoch cfg s).getD s else m.copy t
    | _ => m.copy t := by
  cases e with
  | work t' f =>
    by_cases h : t = t'
    · subst h
      rfl
    · simp [Threads.step, Threads.update, h]
  | bump t' =>
    by_cases h : t = t'
    · subst h
      rfl
    · simp [Threads.step, Threads.update, h]
  | store t' observationOf =>
    rw [Threads.step]
    cases m.copy t' <;> rfl
  | _ => rfl

theorem threads_control (m : Threads) (e : Event cfg) : (m.step e).world.control =
    match e.op? with
    | some op => (m.world.step cfg op).control
    | none => m.world.control := by
  cases e with
  | store t observationOf =>
    rw [Threads.step]
    cases m.copy t with
    | none => rfl
    | some s => exact (save_frame m.world s).2.1
  | _ => rfl

/-! ### The epoch of a copy and of the record -/

theorem getForegroundEpoch_congr {s s' : AgentState}
    (h : s'.interruptContext = s.interruptContext) :
    getForegroundEpoch cfg s' = getForegroundEpoch cfg s := by
  rw [getForegroundEpoch, getForegroundEpoch, ensureInterruptContext, ensureInterruptContext, h]

/-- A context that is complete is not changed by completing it. -/
theorem field_ensureInterruptContext {s : AgentState} {ctx : Fields}
    (hctx : s.interruptContext = some ctx) {key : String}
    (h : (ctx.get? key.toList).isSome = true) : (ensureInterruptContext s).field key = ctx.field key := by
  rw [ensureInterruptContext, hctx, PyDict.field_update, recordOr, Option.getD_some, if_pos h]

theorem isSome_foreground_epoch (s : AgentState) :
    ((ensureInterruptContext s).get? "foreground_epoch".toList).isSome = true := by
  rw [ensureInterruptContext, PyDict.get?_update, Option.isSome_or]
  exact Bool.or_eq_true_iff.2 (Or.inr (by decide +kernel))

/-- A bump never lowers the epoch of a copy. -/
theorem epoch_le_bump (s : AgentState) : getForegroundEpoch cfg s ≤
    getForegroundEpoch cfg ((bumpForegroundEpoch cfg s).getD s) := by
  cases hepoch : intField cfg (ensureInterruptContext s) "foreground_epoch" with
  | none =>
    rw [bumpForegroundEpoch, hepoch]
    exact Nat.le_refl _
  | some epoch =>
    have hbumped : getForegroundEpoch cfg ((bumpForegroundEpoch cfg s).getD s) =
        (epoch + 1).toNat := by
      rw [bumpForegroundEpoch, hepoch, Option.map_some, Option.getD_some, getForegroundEpoch,
        intField, field_ensureInterruptContext rfl (by simp [PyDict.put, PyDict.get?_set]),
        PyDict.field_put_ne _ (by decide), PyDict.field_put_ne _ (by decide),
        PyDict.field_put_self, PyVal.toInt?_orElse_int, Option.getD_some]
    rw [hbumped, getForegroundEpoch, hepoch, Option.getD_some]
    omega

/-- The stored epoch; there is none before the first save. -/
def storedEpoch (cfg : Surroundings) (row : Option AgentState) : ℕ :=
  (row.map (getForegroundEpoch cfg)).getD 0

/-- The store writes the state: it is not dropped, and the guard accepts it. -/
def Writes (cfg : Surroundings) (w : World) (s : AgentState) : Prop :=
  ¬ (cfg.tombstoned = true ∨ Protects w.row s) ∧
    ∃ s', writeRow (w.surroundings cfg) w.row s = .ok s'

theorem storedEpoch_of_writes {w : World} {s : AgentState} (h : Writes cfg w s) :
    storedEpoch cfg (rowAfter w.row (w.surroundings cfg, s)) = getForegroundEpoch cfg s := by
  obtain ⟨hkeep, s', hwrite⟩ := h
  rw [not_or] at hkeep
  rw [rowAfter, Session.save, if_neg (by exact hkeep.1), if_neg hkeep.2, hwrite]
  exact getForegroundEpoch_congr (writeRow_untouched hwrite).interruptContext

theorem rowAfter_of_not_writes {w : World} {s : AgentState} (h : ¬ Writes cfg w s) :
    rowAfter w.row (w.surroundings cfg, s) = w.row := by
  rw [rowAfter, Session.save]
  split_ifs with htomb hprot
  · rfl
  · rfl
  · cases hwrite : writeRow (w.surroundings cfg) w.row s with
    | error e => rfl
    | ok s' => exact absurd ⟨not_or.2 ⟨htomb, hprot⟩, s', hwrite⟩ h

/-- A store by the thread, made now, writes a record of this epoch. -/
def StoresEpoch (cfg : Surroundings) (m : Threads) (t : Thread) (epoch : ℕ) : Prop :=
  ∃ s, m.copy t = some s ∧ Writes cfg m.world s ∧ getForegroundEpoch cfg s = epoch

theorem storedEpoch_of_storesEpoch {m : Threads} {t : Thread} {epoch : ℕ}
    (h : StoresEpoch cfg m t epoch) (observationOf : Option Text) :
    storedEpoch cfg (m.step (.store t observationOf : Event cfg)).world.row = epoch := by
  obtain ⟨s, hcopy, hwrites, rfl⟩ := h
  rw [threads_row]
  dsimp only
  rw [hcopy]
  exact storedEpoch_of_writes hwrites

/-- Only a store that writes changes the record. -/
theorem row_or_storesEpoch (m : Threads) (e : Event cfg) :
    (m.step e).world.row = m.world.row ∨ ∃ t observationOf, e = .store t observationOf ∧
      StoresEpoch cfg m t (storedEpoch cfg (m.step e).world.row) := by
  cases e with
  | store t observationOf =>
    cases hcopy : m.copy t with
    | none =>
      left
      rw [threads_row]
      dsimp only
      rw [hcopy]
    | some s =>
      by_cases hwrites : Writes cfg m.world s
      · right
        refine ⟨t, observationOf, rfl, s, hcopy, hwrites, ?_⟩
        rw [threads_row]
        dsimp only
        rw [hcopy]
        exact (storedEpoch_of_writes hwrites).symm
      · left
        rw [threads_row]
        dsimp only
        rw [hcopy]
        exact rowAfter_of_not_writes hwrites
  | _ => exact Or.inl (threads_row m _)

/-- Between two loads the epoch of a copy does not fall. -/
theorem copy_epoch_le {m : Threads} {e : Event cfg} {t : Thread} (hload : e ≠ .load t)
    {s : AgentState} (h : (m.step e).copy t = some s) :
    ∃ s₀, m.copy t = some s₀ ∧ getForegroundEpoch cfg s₀ ≤ getForegroundEpoch cfg s := by
  rw [threads_copy] at h
  have hmap : ∀ f : AgentState → AgentState,
      (∀ s, getForegroundEpoch cfg s ≤ getForegroundEpoch cfg (f s)) →
        (m.copy t).map f = some s →
          ∃ s₀, m.copy t = some s₀ ∧ getForegroundEpoch cfg s₀ ≤ getForegroundEpoch cfg s := by
    intro f hf hs
    obtain ⟨s₀, hcopy, rfl⟩ := Option.map_eq_some_iff.1 hs
    exact ⟨s₀, hcopy, hf s₀⟩
  cases e with
  | load t' =>
    have hne : t ≠ t' := by
      rintro rfl
      exact hload rfl
    dsimp only at h
    rw [if_neg hne] at h
    exact ⟨s, h, Nat.le_refl _⟩
  | work t' f =>
    dsimp only at h
    split_ifs at h
    · exact hmap f.change (fun s => Nat.le_of_eq (f.epoch s).symm) h
    · exact ⟨s, h, Nat.le_refl _⟩
  | bump t' =>
    dsimp only at h
    split_ifs at h
    · exact hmap _ (fun s => epoch_le_bump s) h
    · exact ⟨s, h, Nat.le_refl _⟩
  | _ => exact ⟨s, h, Nat.le_refl _⟩

/-! ### When the stored epoch never decreases -/

/-- The stored epoch never decreases. -/
def EpochMonotone (cfg : Surroundings) (m : Threads) (trace : List (Event cfg)) : Prop :=
  ∀ pre mid, pre ++ mid <+: trace →
    storedEpoch cfg (m.run pre).world.row ≤ storedEpoch cfg (m.run (pre ++ mid)).world.row

/-- No thread writes a copy of an older epoch than what was written since it loaded that copy. -/
def NotOvertaken (cfg : Surroundings) (m : Threads) (trace : List (Event cfg)) : Prop :=
  ∀ pre t₁ o₁ mid t₂ o₂ post e₁ e₂,
    trace = pre ++ Event.store t₁ o₁ :: (mid ++ Event.store t₂ o₂ :: post) → Event.load t₂ ∉ mid →
      StoresEpoch cfg (m.run pre) t₁ e₁ →
        StoresEpoch cfg (m.run (pre ++ Event.store t₁ o₁ :: mid)) t₂ e₂ → e₁ ≤ e₂

theorem threads_run_concat (m : Threads) (trace : List (Event cfg)) (e : Event cfg) :
    m.run (trace ++ [e]) = (m.run trace).step e := Trace.run_append _ _ _

/-- A copy is at the stored epoch or beyond it, or the record was written since the copy was
    loaded. -/
theorem ahead_or_overtaken {m : Threads} (hcopies : ∀ t s, m.copy t = some s →
      storedEpoch cfg m.world.row ≤ getForegroundEpoch cfg s) (trace : List (Event cfg)) :
    ∀ t s, (m.run trace).copy t = some s →
      storedEpoch cfg (m.run trace).world.row ≤ getForegroundEpoch cfg s ∨
        ∃ pre t₁ o₁ mid, trace = pre ++ Event.store t₁ o₁ :: mid ∧ Event.load t ∉ mid ∧
          StoresEpoch cfg (m.run pre) t₁ (storedEpoch cfg (m.run trace).world.row) := by
  induction trace using List.reverseRecOn with
  | nil => exact fun t s h => Or.inl (hcopies t s h)
  | append_singleton trace e ih =>
    intro t s hs
    rw [threads_run_concat] at hs ⊢
    rcases row_or_storesEpoch (m.run trace) e with hrow | ⟨t₁, o₁, rfl, hstores⟩
    · rw [hrow]
      by_cases hload : e = Event.load t
      · subst hload
        rw [threads_copy] at hs
        dsimp only at hs
        rw [if_pos rfl] at hs
        left
        rw [hs]
        exact Nat.le_refl _
      · obtain ⟨s₀, hs₀, hle⟩ := copy_epoch_le hload hs
        rcases ih t s₀ hs₀ with hahead | ⟨pre, t₁, o₁, mid, rfl, hmid, hstores⟩
        · exact Or.inl (hahead.trans hle)
        · refine Or.inr ⟨pre, t₁, o₁, mid ++ [e], by simp, ?_, hstores⟩
          simpa [hmid] using Ne.symm hload
    · exact Or.inr ⟨trace, t₁, o₁, [], rfl, by simp, hstores⟩

/-- The stored epoch never decreases exactly when no thread writes a copy that was overtaken. -/
theorem epochMonotone_iff {m : Threads} (hcopies : ∀ t s, m.copy t = some s →
      storedEpoch cfg m.world.row ≤ getForegroundEpoch cfg s) (trace : List (Event cfg)) :
    EpochMonotone cfg m trace ↔ NotOvertaken cfg m trace := by
  constructor
  · rintro hmono pre t₁ o₁ mid t₂ o₂ post e₁ e₂ rfl - h₁ h₂
    have hle := hmono (pre ++ [Event.store t₁ o₁]) (mid ++ [Event.store t₂ o₂]) ⟨post, by simp⟩
    have hsecond : pre ++ [Event.store t₁ o₁] ++ (mid ++ [Event.store t₂ o₂]) =
        pre ++ Event.store t₁ o₁ :: mid ++ [Event.store t₂ o₂] := by simp
    rwa [hsecond, threads_run_concat, threads_run_concat, storedEpoch_of_storesEpoch h₁,
      storedEpoch_of_storesEpoch h₂] at hle
  · intro hover
    have hone : ∀ pre e, pre ++ [e] <+: trace → storedEpoch cfg (m.run pre).world.row ≤
        storedEpoch cfg ((m.run pre).step e).world.row := by
      rintro pre e ⟨post, rfl⟩
      rcases row_or_storesEpoch (m.run pre) e with hrow | ⟨t₂, o₂, rfl, s, hs, hwrites, hepoch⟩
      · rw [hrow]
      · rw [← hepoch]
        rcases ahead_or_overtaken hcopies pre t₂ s hs with hahead | ⟨p, t₁, o₁, mid, rfl, hmid, h₁⟩
        · exact hahead
        · exact hover p t₁ o₁ mid t₂ o₂ post _ _ (by simp) hmid h₁ ⟨s, hs, hwrites, rfl⟩
    intro pre mid
    induction mid using List.reverseRecOn with
    | nil => intro _; rw [List.append_nil]
    | append_singleton mid e ih =>
      intro hprefix
      rw [← List.append_assoc] at hprefix ⊢
      rw [threads_run_concat]
      exact (ih ((List.prefix_append _ _).trans hprefix)).trans (hone _ e hprefix)

end AgentLangraph.Run
