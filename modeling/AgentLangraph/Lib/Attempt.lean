import Mathlib.Logic.Basic

/-! Programs over a state that may raise. An exception does not undo what was done before it: the state
    comes back either way. -/

/-- A program that takes a state, and gives the state back with a value or an exception. -/
def Attempt (σ ε α : Type) := σ → σ × Except ε α

namespace Attempt

variable {σ ε α β : Type}

instance : Monad (Attempt σ ε) where
  pure a := fun s => (s, .ok a)
  bind x f := fun s =>
    match x s with
    | (s', .ok a) => f a s'
    | (s', .error e) => (s', .error e)

def raise (e : ε) : Attempt σ ε α := fun s => (s, .error e)

/-- Read something off the state. -/
def ask (f : σ → α) : Attempt σ ε α := fun s => (s, .ok (f s))

def change (f : σ → σ) : Attempt σ ε Unit := fun s => (f s, .ok ())

def lift (x : Except ε α) : Attempt σ ε α := fun s => (s, x)

/-- Catch every exception. -/
def caught (x : Attempt σ ε α) (h : ε → α) : Attempt σ ε α := fun s =>
  match x s with
  | (s', .ok a) => (s', .ok a)
  | (s', .error e) => (s', .ok (h e))

@[simp] theorem pure_apply (a : α) (s : σ) : (pure a : Attempt σ ε α) s = (s, .ok a) := rfl

@[simp] theorem raise_apply (e : ε) (s : σ) : (raise e : Attempt σ ε α) s = (s, .error e) := rfl

@[simp] theorem ask_apply (f : σ → α) (s : σ) : (ask f : Attempt σ ε α) s = (s, .ok (f s)) := rfl

@[simp] theorem change_apply (f : σ → σ) (s : σ) : (change f : Attempt σ ε Unit) s = (f s, .ok ()) :=
  rfl

@[simp] theorem lift_apply (x : Except ε α) (s : σ) : (lift x : Attempt σ ε α) s = (s, x) := rfl

theorem bind_ok {x : Attempt σ ε α} {s s' : σ} {a : α} (h : x s = (s', .ok a))
    (f : α → Attempt σ ε β) : (x >>= f) s = f a s' := by
  change (match x s with
    | (s', .ok a) => f a s'
    | (s', .error e) => (s', .error e)) = _
  rw [h]

theorem bind_error {x : Attempt σ ε α} {s s' : σ} {e : ε} (h : x s = (s', .error e))
    (f : α → Attempt σ ε β) : (x >>= f) s = (s', .error e) := by
  change (match x s with
    | (s', .ok a) => f a s'
    | (s', .error e) => (s', .error e)) = _
  rw [h]

@[simp] theorem pure_bind (a : α) (f : α → Attempt σ ε β) : (pure a >>= f) = f a := rfl

@[simp] theorem raise_bind (e : ε) (f : α → Attempt σ ε β) : (raise e >>= f) = raise e := rfl

@[simp] theorem lift_ok_bind (a : α) (f : α → Attempt σ ε β) : (lift (.ok a) >>= f) = f a := rfl

@[simp] theorem lift_error_bind (e : ε) (f : α → Attempt σ ε β) : (lift (.error e) >>= f) = raise e := rfl

@[simp] theorem ask_bind_apply (g : σ → α) (f : α → Attempt σ ε β) (s : σ) :
    (ask g >>= f) s = f (g s) s := rfl

@[simp] theorem change_bind_apply (g : σ → σ) (f : Unit → Attempt σ ε β) (s : σ) :
    (change g >>= f) s = f () (g s) := rfl

theorem caught_ok {x : Attempt σ ε α} {s s' : σ} {a : α} (h : x s = (s', .ok a)) (k : ε → α) :
    caught x k s = (s', .ok a) := by
  rw [caught, h]

theorem caught_error {x : Attempt σ ε α} {s s' : σ} {e : ε} (h : x s = (s', .error e)) (k : ε → α) :
    caught x k s = (s', .ok (k e)) := by
  rw [caught, h]

/-! ### What a program keeps -/

/-- Whatever the state was before, the program takes it to one related to it, raising or not. -/
def Moves (R : σ → σ → Prop) (x : Attempt σ ε α) : Prop := ∀ s, R s (x s).1

section
variable {R : σ → σ → Prop}

theorem moves_pure (hrefl : ∀ s, R s s) (a : α) : Moves R (pure a : Attempt σ ε α) := fun s => hrefl s

theorem moves_raise (hrefl : ∀ s, R s s) (e : ε) : Moves R (raise e : Attempt σ ε α) :=
  fun s => hrefl s

theorem moves_ask (hrefl : ∀ s, R s s) (f : σ → α) : Moves R (ask f : Attempt σ ε α) :=
  fun s => hrefl s

theorem moves_lift (hrefl : ∀ s, R s s) (x : Except ε α) : Moves R (lift x : Attempt σ ε α) :=
  fun s => hrefl s

theorem moves_change {f : σ → σ} (h : ∀ s, R s (f s)) : Moves R (change f : Attempt σ ε Unit) := h

/-- SEQUENCE RULE: steps that keep a relation keep it one after the other. -/
theorem moves_bind (htrans : ∀ s t u, R s t → R t u → R s u) {x : Attempt σ ε α}
    {f : α → Attempt σ ε β} (hx : Moves R x) (hf : ∀ a, Moves R (f a)) : Moves R (x >>= f) := by
  intro s
  have hfirst := hx s
  rcases hr : x s with ⟨s', r⟩
  rw [hr] at hfirst
  cases r with
  | ok a =>
    rw [bind_ok hr]
    exact htrans s s' _ hfirst (hf a s')
  | error e =>
    rw [bind_error hr]
    exact hfirst

theorem moves_caught {x : Attempt σ ε α} (hx : Moves R x) (h : ε → α) : Moves R (caught x h) := by
  intro s
  have hfirst := hx s
  rcases hr : x s with ⟨s', r⟩
  rw [hr] at hfirst
  cases r with
  | ok a =>
    rw [caught_ok hr]
    exact hfirst
  | error e =>
    rw [caught_error hr]
    exact hfirst

end

/-! ### A program for each element of a list -/

def forEach (body : α → Attempt σ ε Unit) : List α → Attempt σ ε Unit
  | [] => pure ()
  | a :: l => body a >>= fun _ => forEach body l

@[simp] theorem forEach_nil (body : α → Attempt σ ε Unit) (s : σ) : forEach body [] s = (s, .ok ()) := rfl

section
variable {body : α → Attempt σ ε Unit}

theorem forEach_cons_ok {a : α} {s s' : σ} (h : body a s = (s', .ok ())) (l : List α) :
    forEach body (a :: l) s = forEach body l s' := bind_ok h _

theorem forEach_cons_error {a : α} {s s' : σ} {e : ε} (h : body a s = (s', .error e)) (l : List α) :
    forEach body (a :: l) s = (s', .error e) := bind_error h _

theorem forEach_append_ok : ∀ {pre : List α} {s s' : σ}, forEach body pre s = (s', .ok ()) →
    ∀ l, forEach body (pre ++ l) s = forEach body l s'
  | [], s, s', h, l => by
      cases h
      rfl
  | a :: pre, s, s', h, l => by
      rcases hr : body a s with ⟨s₁, r⟩
      cases r with
      | ok u =>
        rw [forEach_cons_ok hr] at h
        rw [List.cons_append, forEach_cons_ok hr]
        exact forEach_append_ok h l
      | error e =>
        rw [forEach_cons_error hr] at h
        cases h

/-- RUN RULE: a relation that every element's program keeps is kept by all of them in a row, whether one
    raises or not. -/
theorem forEach_moves {R : σ → σ → Prop} (hrefl : ∀ s, R s s) (htrans : ∀ s t u, R s t → R t u → R s u) :
    ∀ {l : List α}, (∀ a ∈ l, Moves R (body a)) → Moves R (forEach body l)
  | [], _ => moves_pure hrefl ()
  | a :: l, h => by
      have hrest := forEach_moves hrefl htrans fun b hb => h b (.tail a hb)
      exact moves_bind htrans (h a List.mem_cons_self) fun _ => hrest

/-- Every element that is come to, with the state it is come to in, has the property. -/
def Along (body : α → Attempt σ ε Unit) (P : σ → α → Prop) : σ → List α → Prop
  | _, [] => True
  | s, a :: l => P s a ∧ ∀ s', body a s = (s', .ok ()) → Along body P s' l

theorem along_iff_forall {P : σ → α → Prop} : ∀ {l : List α} {s : σ}, Along body P s l ↔
    ∀ pre a post, l = pre ++ a :: post → ∀ s', forEach body pre s = (s', .ok ()) → P s' a
  | [], s => by simp [Along]
  | b :: l, s => by
      constructor
      · rintro ⟨hb, hl⟩ pre a post heq s' hpre
        cases pre with
        | nil =>
          cases heq
          cases hpre
          exact hb
        | cons c pre =>
          cases heq
          rcases hr : body b s with ⟨s₁, r⟩
          cases r with
          | ok u =>
            rw [forEach_cons_ok hr] at hpre
            exact along_iff_forall.1 (hl s₁ hr) pre a post rfl s' hpre
          | error e =>
            rw [forEach_cons_error hr] at hpre
            cases hpre
      · intro h
        refine ⟨h [] b l rfl s rfl, fun s₁ hr => along_iff_forall.2 ?_⟩
        rintro pre a post rfl s' hpre
        exact h (b :: pre) a post rfl s' ((forEach_cons_ok hr pre).trans hpre)

theorem along_mono {P Q : σ → α → Prop} {l : List α} {s : σ} (h : ∀ s, ∀ a ∈ l, P s a → Q s a)
    (hp : Along body P s l) : Along body Q s l := by
  rw [along_iff_forall] at hp ⊢
  intro pre a post heq s' hpre
  exact h s' a (by rw [heq]; simp) (hp pre a post heq s' hpre)

theorem along_of_append {P : σ → α → Prop} {l m : List α} {s : σ} (h : Along body P s (l ++ m)) :
    Along body P s l := by
  rw [along_iff_forall] at h ⊢
  rintro pre a post rfl
  exact h pre a (post ++ m) (by simp)

/-- Some element that is come to, with the state it is come to in, has the property. -/
def Sometime (body : α → Attempt σ ε Unit) (P : σ → α → Prop) (s : σ) (l : List α) : Prop :=
  ∃ pre a post, l = pre ++ a :: post ∧ ∃ s', forEach body pre s = (s', .ok ()) ∧ P s' a

theorem not_along_iff {P : σ → α → Prop} {l : List α} {s : σ} :
    ¬ Along body P s l ↔ Sometime body (fun s a => ¬ P s a) s l := by
  rw [along_iff_forall, Sometime]
  simp only [Classical.not_forall, exists_prop]

theorem sometime_congr {P Q : σ → α → Prop} {l : List α} {s : σ} (h : ∀ s, ∀ a ∈ l, P s a ↔ Q s a) :
    Sometime body P s l ↔ Sometime body Q s l := by
  refine exists_congr fun pre => exists_congr fun a => exists_congr fun post => and_congr_right fun heq => ?_
  refine exists_congr fun s' => and_congr_right fun _ => h s' a ?_
  rw [heq]
  simp

/-- PREFIX RULE: every beginning of the list leaves a state with a property exactly when the first state
    has it, and every element that is come to leaves one. -/
theorem forall_prefix_iff {I : σ → Prop} : ∀ {l : List α} {s : σ},
    (∀ pre, pre <+: l → I (forEach body pre s).1) ↔ I s ∧ Along body (fun s a => I (body a s).1) s l
  | [], s => by simp [Along]
  | a :: l, s => by
      constructor
      · intro h
        refine ⟨h [] (List.nil_prefix), ?_, fun s' hr => (forall_prefix_iff.1 fun pre hpre => ?_).2⟩
        · have hone := h [a] (by simp)
          dsimp only
          rcases hr : body a s with ⟨s', e | u⟩
          · rwa [forEach_cons_error hr] at hone
          · rwa [forEach_cons_ok hr, forEach_nil] at hone
        · have hmore := h (a :: pre) (List.cons_prefix_cons.2 ⟨rfl, hpre⟩)
          rwa [forEach_cons_ok hr] at hmore
      · rintro ⟨hs, ha, hrest⟩ pre hpre
        cases pre with
        | nil => exact hs
        | cons b pre =>
          obtain ⟨rfl, hmore⟩ := List.cons_prefix_cons.1 hpre
          rcases hr : body b s with ⟨s', e | u⟩
          · rw [forEach_cons_error hr]
            rwa [hr] at ha
          · rw [forEach_cons_ok hr]
            rw [hr] at ha
            exact forall_prefix_iff.2 ⟨ha, hrest s' hr⟩ pre hmore

/-- GUARD RULE: where an element has a property exactly when it meets a condition, as long as the ones
    before met theirs, all that are come to have it exactly when all meet the condition. -/
theorem along_iff {I : σ → Prop} {P C : σ → α → Prop} : ∀ {l : List α} {s : σ},
    (∀ s, ∀ a ∈ l, I s → (P s a ↔ C s a)) →
    (∀ s, ∀ a ∈ l, ∀ s', I s → C s a → body a s = (s', .ok ()) → I s') → I s →
    (Along body P s l ↔ Along body C s l)
  | [], _, _, _, _ => Iff.rfl
  | a :: l, s, hiff, hstep, hs => by
      rw [Along, Along, hiff s a List.mem_cons_self hs]
      refine and_congr_right fun hc => forall_congr' fun s' => forall_congr' fun hr => ?_
      exact along_iff (fun s b hb => hiff s b (.tail a hb)) (fun s b hb => hstep s b (.tail a hb))
        (hstep s a List.mem_cons_self s' hs hc hr)

/-- HINDSIGHT RULE: of a run that has gone through, each element may be judged by the state that the run
    has ended in. -/
theorem along_congr_of_ok {P C : σ → α → Prop} : ∀ {l : List α} {s out : σ},
    forEach body l s = (out, .ok ()) →
    (∀ a post, a :: post <:+ l → ∀ s s', body a s = (s', .ok ()) → forEach body post s' = (out, .ok ()) →
      (P s a ↔ C s a)) →
    (Along body P s l ↔ Along body C s l)
  | [], _, _, _, _ => Iff.rfl
  | a :: l, s, out, hrun, h => by
      rcases hr : body a s with ⟨s', e | u⟩
      · rw [forEach_cons_error hr] at hrun
        cases hrun
      · rw [forEach_cons_ok hr] at hrun
        rw [Along, Along, h a l List.suffix_rfl s s' hr hrun]
        refine and_congr_right fun _ => forall_congr' fun s₁ => forall_congr' fun hr₁ => ?_
        rw [hr] at hr₁
        cases hr₁
        exact along_congr_of_ok hrun fun b post hsuffix => h b post (hsuffix.trans (List.suffix_cons a l))

end

end Attempt
