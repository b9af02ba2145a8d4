import AgentLangraph.Access.Tasks

/-! What the requests of a principal do to a task of another user. The handlers that check the owner refuse
    them; the others work on whatever task or directory they are given, so the task is only left alone by
    requests that get through to nothing of it. -/

namespace AgentLangraph.Access
open PyText Session Run Trace Footprint
open AgentLangraph.Artifact (Path File Disk Io taskDir)

variable {ρ : Type}

/-- The stored state of a task, and its directory. -/
def belongings (taskId : Text) : List Slot := [.row taskId, .folder (taskDir taskId)]

/-- The row of the task names another user. -/
def BelongsToOther (p : AuthPrincipal) (taskId : Text) (w : World) : Prop :=
  ∃ owner, w.owner taskId = some owner ∧ Foreign p owner

/-- The world after some requests, and the replies to them. -/
abbrev served (v : Server ρ) (p : AuthPrincipal) : World → List (TaskRequest ρ) → World :=
  finalState (handle v p)

abbrev replies (v : Server ρ) (p : AuthPrincipal) : World → List (TaskRequest ρ) → List (Reply ρ) :=
  outputs (handle v p)

/-- A sequence of requests neither changes what belongs to the task nor shows anything of it. -/
structure Isolated (v : Server ρ) (p : AuthPrincipal) (taskId : Text) (w : World)
    (trace : List (TaskRequest ρ)) : Prop where
  unchanged : ∀ pre, pre <+: trace → ∀ k ∈ belongings taskId, served v p w pre k = w k
  unseen : ∀ w', AgreeOff (belongings taskId) w w' → BelongsToOther p taskId w' →
    replies v p w trace = replies v p w' trace

/-- A request that gets past its check works on nothing that belongs to the task. -/
def Clear (v : Server ρ) (p : AuthPrincipal) (taskId : Text) (w : World) (r : TaskRequest ρ) : Prop :=
  gate v p w r = .ok () → ∀ k ∈ workedOn v r, k ∉ belongings taskId

variable {v : Server ρ} {p : AuthPrincipal} {taskId : Text} {w w' : World}

/-! ### What works on a task -/

/-- Two tasks that share no directory. -/
def ApartDirs (taskId other : Text) : Prop := taskDir other = [] ∨ taskDir other ≠ taskDir taskId

/-! ### The checks -/

theorem owner_congr (hagree : AgreeOff (belongings taskId) w w') {other : Text} (h : other ≠ taskId) :
    w.owner other = w'.owner other := by
  rw [World.owner, World.owner, hagree (.row other) (by simp [belongings, h])]

theorem assertTaskAccess_foreign (hauth : v.api.authEnabled = true) (hother : BelongsToOther p taskId w) :
    assertTaskAccess v.api.authEnabled p (w.owner taskId) = .error .forbidden := by
  obtain ⟨owner, howner, hforeign⟩ := hother
  rw [hauth, howner]
  exact assertTaskAccess_iff.2 hforeign

theorem assertStoredAccess_foreign (hauth : v.api.authEnabled = true) (hother : BelongsToOther p taskId w) :
    assertStoredAccess v.api.authEnabled p (w.owner taskId) = .error .forbidden := by
  have hrefused := assertTaskAccess_foreign hauth hother
  obtain ⟨owner, howner, -⟩ := hother
  rw [howner] at hrefused ⊢
  exact hrefused

/-- The handlers with a check refuse the task itself. -/
theorem gate_foreign (hauth : v.api.authEnabled = true) (hother : BelongsToOther p taskId w) :
    gate v p w (.deleteTask taskId) ≠ .ok () ∧
      (∀ m event turn, gate v p w (.streamMessageTask taskId m event turn) ≠ .ok ()) ∧
        ∀ route args, gate v p w (.behindAccess route taskId args) ≠ .ok () := by
  have hstored := assertStoredAccess_foreign hauth hother
  refine ⟨?_, fun m event turn => ?_, fun route args => ?_⟩
  · rw [gate, hstored]
    exact fun h => nomatch h
  · rw [gate, hstored]
    split_ifs <;> exact fun h => nomatch h
  · rw [gate, assertTaskAccess_foreign hauth hother]
    exact fun h => nomatch h

/-- The checks cannot tell apart what belongs to another user. -/
theorem gate_congr (hauth : v.api.authEnabled = true) (hagree : AgreeOff (belongings taskId) w w')
    (hother : BelongsToOther p taskId w) (hother' : BelongsToOther p taskId w') (r : TaskRequest ρ) :
    gate v p w r = gate v p w' r := by
  have hstored : ∀ other, assertStoredAccess v.api.authEnabled p (w.owner other) =
      assertStoredAccess v.api.authEnabled p (w'.owner other) := by
    intro other
    by_cases h : other = taskId
    · rw [h, assertStoredAccess_foreign hauth hother, assertStoredAccess_foreign hauth hother']
    · rw [owner_congr hagree h]
  cases r with
  | deleteTask other => exact hstored other
  | streamMessageTask other m event turn =>
    rw [gate, gate, hstored other]
  | behindAccess route other args =>
    rw [gate, gate]
    by_cases h : other = taskId
    · rw [h, assertTaskAccess_foreign hauth hother, assertTaskAccess_foreign hauth hother']
    · rw [owner_congr hagree h]
  | _ => rfl

/-! ### One request -/

/-- STEP: a request that is clear of a task leaves alone what belongs to it. -/
theorem handle_frame {r : TaskRequest ρ} (hclear : Clear v p taskId w r) {k : Slot}
    (hk : k ∈ belongings taskId) : (handle v p w r).1 k = w k := by
  rw [handle]
  cases hgate : gate v p w r with
  | error e => rfl
  | ok u =>
    obtain ⟨f, hact⟩ := perform_eq_act v p r
    dsimp only
    rw [hact]
    exact act_frame fun hmem => hclear hgate k hmem hk

/-- STEP: the reply to a request that is clear of a task does not depend on what belongs to it, and neither
    does what becomes of the rest. -/
theorem handle_agreeOff {r : TaskRequest ρ} (hgate : gate v p w r = gate v p w' r)
    (hagree : AgreeOff (belongings taskId) w w') (hclear : Clear v p taskId w r) :
    (handle v p w r).2 = (handle v p w' r).2 ∧
      AgreeOff (belongings taskId) (handle v p w r).1 (handle v p w' r).1 := by
  rw [handle, handle, ← hgate]
  cases hok : gate v p w r with
  | error e => exact ⟨rfl, hagree⟩
  | ok u =>
    obtain ⟨f, hact⟩ := perform_eq_act v p r
    dsimp only
    rw [hact]
    exact ⟨act_congr hagree (hclear hok), act_agreeOff hagree (hclear hok)⟩

theorem belongsToOther_congr (h : w' (.row taskId) = w (.row taskId)) (hother : BelongsToOther p taskId w) :
    BelongsToOther p taskId w' := by
  rw [BelongsToOther, World.owner, h]
  exact hother

/-- In the second world the same request is clear of the task. -/
theorem clear_congr {r : TaskRequest ρ} (hgate : gate v p w r = gate v p w' r)
    (hclear : Clear v p taskId w r) : Clear v p taskId w' r :=
  fun hok => hclear (hgate.trans hok)

/-! ### Runs -/

/-- Two worlds that differ in what belongs to the task alone, which is another user's in both. -/
structure Twins (p : AuthPrincipal) (taskId : Text) (w w' : World) : Prop where
  agree : AgreeOff (belongings taskId) w w'
  left : BelongsToOther p taskId w
  right : BelongsToOther p taskId w'

/-- STEP: twins reply alike to a request that is clear of the task, and stay twins. -/
theorem twins_step (hauth : v.api.authEnabled = true) {r : TaskRequest ρ} (htwins : Twins p taskId w w')
    (hclear : Clear v p taskId w r) : (handle v p w r).2 = (handle v p w' r).2 ∧
      Twins p taskId (handle v p w r).1 (handle v p w' r).1 := by
  have hgate := gate_congr hauth htwins.agree htwins.left htwins.right r
  have hrow : Slot.row taskId ∈ belongings taskId := List.mem_cons_self
  obtain ⟨hreply, hagree⟩ := handle_agreeOff hgate htwins.agree hclear
  exact ⟨hreply, hagree, belongsToOther_congr (handle_frame hclear hrow) htwins.left,
    belongsToOther_congr (handle_frame (clear_congr hgate hclear) hrow) htwins.right⟩

/-- With authentication enabled, every sequence of requests that is clear of a task of another user, request
    by request, leaves its stored state and its directory as they are, and no reply depends on them. -/
theorem isolated_of_clear (v : Server ρ) (p : AuthPrincipal) (taskId : Text) (w : World)
    (trace : List (TaskRequest ρ)) (hauth : v.api.authEnabled = true) (hother : BelongsToOther p taskId w)
    (hclear : Along (fun w r => (handle v p w r).1) (Clear v p taskId) w trace) :
    Isolated v p taskId w trace := by
  constructor
  · rintro pre ⟨post, rfl⟩ k hk
    refine run_of_along (I := fun s => s k = w k) (fun s r hs hr => ?_) pre w rfl
      ((along_append pre post w).1 hclear).1
    exact (handle_frame hr hk).trans hs
  · intro w' hagree hother'
    have hstep : ∀ s s' r, Twins p taskId s s' → Clear v p taskId s r → (handle v p s r).2 =
        (handle v p s' r).2 ∧ Twins p taskId (handle v p s r).1 (handle v p s' r).1 :=
      fun s s' r htwins hr => twins_step hauth htwins hr
    exact unwinding hstep trace w w' ⟨hagree, hother, hother'⟩ hclear

/-! ### A manuscript that is not the caller's -/

/-- A server whose graph and handlers do nothing. -/
def idleServer : Server Unit where
  api := idleApi
  artifactsRoot := ["/".toList, "artifacts".toList]
  route := fun _ _ _ w => (w, ())

/-- The manuscript of a first user. -/
def manuscript (text : Text) : World
  | .row taskId => if taskId = "t1".toList then
      some { userId := "u1".toList, state := { taskId := "t1".toList, sessionId := "t1".toList } } else none
  | .tombstone _ => false
  | .folder dir => if dir = "t1".toList then
      { emptyFolder with files := PyDict.ofList [(["novel.txt".toList], { text := text })] } else emptyFolder

/-- A second user. -/
def secondUser : AuthPrincipal := ⟨"u2".toList, "user".toList⟩

theorem manuscript_other (text : Text) : BelongsToOther secondUser "t1".toList (manuscript text) :=
  ⟨"u1".toList, rfl, by decide, by decide, by decide⟩

/-- A delete of the task, and a look into a directory of one's own. -/
theorem manuscript_isolated : Isolated idleServer secondUser "t1".toList (manuscript "Chapter 1".toList)
    [.deleteTask "t1".toList, .listArtifacts "t2".toList] :=
  isolated_of_clear idleServer secondUser "t1".toList (manuscript "Chapter 1".toList) _ rfl
    (manuscript_other _)
    ⟨fun h => absurd h (gate_foreign rfl (manuscript_other _)).1, fun _ => by decide, trivial⟩

/-- A second user overwrites the manuscript of the first. -/
theorem manuscript_not_isolated : ¬ Isolated idleServer secondUser "t1".toList
    (manuscript "Chapter 1".toList)
    [.writeTaskFileContent "t1".toList "novel.txt".toList "gone".toList false 1] := by
  intro h
  have hsame := h.unchanged _ List.prefix_rfl (.folder "t1".toList) (by decide)
  have htext := congrArg (fun d : Disk => d.textAt ["novel.txt".toList]) hsame
  exact absurd htext (by decide)

end AgentLangraph.Access
