import AgentLangraph.Lib.PyText
import Mathlib.Data.List.Basic
import Mathlib.Order.Lattice
import Mathlib.Tactic.Cases

/-! The bounded build (`engineering_execution.py`): a plan, its files, a look at what they make, and repairs while
    that fails, each step paid for out of one budget.

        plan ──▶ write ──▶ read back ──▶ verify ──▶ (fix ──▶ plan ──▶ write ──▶ verify) …
         1         2           3           4          5        6       7          8

    A repair that finds the budget empty after its plan does not write it, and a write that has written anything
    takes the place of the list of files. -/

namespace AgentLangraph.Run.Engineering
open PyText

/-! ### Results -/

/-- `ok`, `failed`, `degraded` or `skipped`. -/
inductive Status where
  | ok
  | failed
  | degraded
  | skipped
  deriving DecidableEq

structure ProjectVerifyResult where
  ok : Bool
  backend : Text
  status : Status
  issues : List Text := []
  stderr : Text := []
  deriving DecidableEq

structure PlanFile where
  path : Text
  content : Text

/-- A plan, and what went wrong when it was made. -/
structure Plan where
  summary : Text
  files : List PlanFile
  planErr : Option Text := none

structure WriteFilesResult where
  written : List Text
  errors : List Text

/-- What the model plans; what becomes of each file of each plan, `none` where it is written and the error else;
    which files the small repairs change, from the error text and the kind; what the verifier says or raises, one
    call after the other; and the kind and the backend for what is planned and written. -/
structure World where
  plan : ℕ → Plan
  outcome : ℕ → ℕ → Option Text
  fixes : Text → Text → Text → Bool
  verifyProject : ℕ → Except Text ProjectVerifyResult
  targets : Text → List Text → List PlanFile → Text × Text

/-- What happens to the files. -/
inductive Event where
  | wrote (n : ℕ) (paths : List Text)
  | fixed (paths : List Text)
  | verified (result : ProjectVerifyResult)
  deriving DecidableEq

/-- The files that an event changes. -/
def Event.changed : Event → List Text
  | .wrote _ paths | .fixed paths => paths
  | .verified _ => []

def skippedWith (issue : String) : ProjectVerifyResult where
  ok := false
  backend := []
  status := .skipped
  issues := [issue.toList]

/-- The variables of the run, the budget, and for the record: how many plans and verdicts were asked for, whose the
    summary is, and what has happened. -/
structure Build where
  used : ℕ := 0
  stepsLog : List Text := []
  intentKind : Text
  backendId : Text := []
  summary : Text := []
  written : List Text := []
  writeErrors : List Text := []
  verify : ProjectVerifyResult := skippedWith "not_started"
  repairAttempts : ℕ := 0
  degradedReason : Text := []
  planError : Option Text := none
  repairPlanErrors : List Text := []
  plans : ℕ := 0
  verdicts : ℕ := 0
  author : Option ℕ := none
  events : List Event := []

/-- `_NON_RETRYABLE_VERIFY_ISSUES`. -/
def nonRetryableVerifyIssues : List Text :=
  ["no_backend_for_intent".toList, "backend_not_whitelisted".toList, "verify_disabled".toList,
    "session_root_missing".toList, "no_files_written".toList]

def verifyIsNonRetryable (v : ProjectVerifyResult) : Bool := v.issues.any (· ∈ nonRetryableVerifyIssues)

/-! ### Steps -/

def Build.spend (s : Build) (name : String) : Build :=
  { s with used := s.used + 1, stepsLog := s.stepsLog ++ [name.toList] }

section
variable (maxSteps : ℕ)

/-- `budget.consume(name)`. -/
def consume (s : Build) (name : String) : Option Build :=
  if maxSteps < s.used + 1 then none else some (s.spend name)

def exhausted (s : Build) : Bool := maxSteps ≤ s.used

/-- A step that is left out where the budget is empty. -/
def paid (s : Build) (name : String) (step : Build → Build) : Build := ((consume maxSteps s name).map step).getD s

end

section
variable (w : World)

/-- `_write_files` for the files of a plan. -/
def writeFiles (n : ℕ) : WriteFilesResult :=
  let items := ((w.plan n).files.zipIdx.map fun p => (strip p.1.path, w.outcome n p.2)).filter fun p => p.1 ≠ []
  { written := (items.filter fun p => p.2.isNone).map Prod.fst
    errors := items.filterMap fun p => p.2.map fun e => p.1 ++ ": ".toList ++ e }

/-- `a or b`. -/
def orText (a b : Text) : Text := if a = [] then b else a

/-- The next plan, and its summary if it has one. -/
def planStep (s : Build) : Build :=
  let p := w.plan s.plans
  { s with
    plans := s.plans + 1
    summary := orText p.summary s.summary
    author := if p.summary = [] then s.author else some s.plans }

/-- The files of the last plan. -/
def writeStep (s : Build) : Build :=
  let n := s.plans - 1
  let wf := writeFiles w n
  let written := if wf.written = [] then s.written else wf.written
  let target := w.targets s.intentKind written (w.plan n).files
  { s with
    written := written
    writeErrors := s.writeErrors ++ wf.errors
    intentKind := target.1
    backendId := target.2
    events := s.events ++ [.wrote n wf.written] }

/-- `_run_verify`. -/
def verifyStep (s : Build) : Build :=
  if s.written = [] then
    { s with verify := { ok := false, backend := s.backendId, status := .skipped,
                         issues := ["no_files_written".toList] } }
  else if s.backendId = [] then
    { s with verify := { ok := false, backend := [], status := .failed,
                         issues := ["no_backend_for_intent".toList] } }
  else
    match w.verifyProject s.verdicts with
    | .ok v => { s with verify := v, verdicts := s.verdicts + 1, events := s.events ++ [.verified v] }
    | .error e =>
      { s with
        verify := { ok := false, backend := s.backendId, status := .degraded, stderr := e,
                    issues := ["verify_exception".toList] }
        verdicts := s.verdicts + 1 }

/-- What is put down about the first plan and its files. -/
def notePlan (s : Build) : Build :=
  match (w.plan 0).planErr with
  | none => s
  | some e =>
    { s with planError := some e, degradedReason := orText s.degradedReason ("结构规划异常，已使用默认骨架：".toList ++ e) }

def noteWrite (s : Build) : Build :=
  if s.writeErrors = [] then s
  else if s.written = [] then { s with degradedReason := orText s.degradedReason "全部文件落盘失败".toList }
  else { s with degradedReason := orText s.degradedReason "部分文件落盘失败".toList }

def noteRepairPlan (n : ℕ) (s : Build) : Build :=
  match (w.plan n).planErr with
  | none => s
  | some e => { s with repairPlanErrors := s.repairPlanErrors ++ [e] }

/-- No verdict as yet. -/
def skipVerify (s : Build) : Build :=
  { s with verify := { ok := false, backend := s.backendId, status := .skipped,
                       issues := ["verify_skipped_budget".toList] } }

section
variable (maxSteps : ℕ)

/-- From the first plan to the first verdict; the plan is paid for. -/
def firstRound (s : Build) : Build :=
  let s := notePlan w (planStep w s)
  let s := paid maxSteps s "write_files" fun s => noteWrite (writeStep w s)
  let s := if s.written = [] then s else paid maxSteps s "read_back" id
  paid maxSteps (skipVerify s) "verify" (verifyStep w)

def errText (v : ProjectVerifyResult) : Text := orText (strip v.stderr) (List.intercalate ['\n'] v.issues)

/-- The small repairs of the first round, and whether the round goes on. -/
def minimalRepair (s : Build) (err : Text) : Build × Bool :=
  if s.repairAttempts = 1 then
    match consume maxSteps s "repair_minimal" with
    | none => (s, true)
    | some s =>
      let changed := s.written.filter (w.fixes err s.intentKind)
      if changed = [] then (s, !exhausted maxSteps s)
      else
        let s := verifyStep w { s with events := s.events ++ [.fixed changed] }
        (s, !s.verify.ok && !exhausted maxSteps s)
  else (s, true)

/-- A plan of the model for the repair, its files and a verdict, and whether there is another round. -/
def llmRepair (s : Build) : Build × Bool :=
  match consume maxSteps s "repair_llm" with
  | none => ({ s with degradedReason := orText s.degradedReason "步数预算耗尽（LLM 修复前）".toList }, false)
  | some s =>
    let s := noteRepairPlan w s.plans (planStep w s)
    let s := paid maxSteps s "write_files" (writeStep w)
    if exhausted maxSteps s then (s, false) else (paid maxSteps s "verify" (verifyStep w), true)

/-- One round of the loop. -/
def repairRound (s : Build) : Build × Bool :=
  let s := { s with repairAttempts := s.repairAttempts + 1 }
  let err := errText s.verify
  if strip err = [] then (s, false)
  else
    match minimalRepair w maxSteps s err with
    | (s, false) => (s, false)
    | (s, true) => llmRepair w maxSteps s

variable (maxRepairs : ℕ)

/-- The loop goes on. -/
def wantsRepair (s : Build) : Bool :=
  !s.verify.ok && s.repairAttempts < maxRepairs && s.verify.status ≠ .skipped && s.verify.status ≠ .degraded &&
    !verifyIsNonRetryable s.verify && !exhausted maxSteps s

/-- The loop; each round is one attempt. -/
def repairLoop : ℕ → Build → Build
  | 0, s => s
  | left + 1, s =>
    if wantsRepair maxSteps maxRepairs s then
      match repairRound w maxSteps s with
      | (s, true) => repairLoop left s
      | (s, false) => s
    else s

/-- The status that is reported. -/
def finish (s : Build) : Build :=
  if !s.verify.ok && verifyIsNonRetryable s.verify then { s with verify := { s.verify with status := .degraded } }
  else if exhausted maxSteps s && !s.verify.ok then { s with verify := { s.verify with status := .degraded } }
  else if !s.verify.ok && s.verify.status ≠ .skipped && maxRepairs ≤ s.repairAttempts then
    { s with verify := { s.verify with status := .failed } }
  else s

end

/-- The limits of the contract of the mode, or the usual ones. -/
structure Contract where
  maxRepairAttempts : ℤ := 3
  maxSteps : ℤ := 6

def Contract.repairs (c : Contract) : ℕ := (max 0 c.maxRepairAttempts).toNat

def Contract.steps (c : Contract) : ℕ := (max 3 c.maxSteps).toNat

/-- `run_engineering_bounded`. -/
def runEngineeringBounded (c : Contract) (goal intentKind : Text) : Build :=
  let s : Build := { intentKind := intentKind }
  let s :=
    if strip goal = [] then
      { s with
        degradedReason := "工程交付需要非空的 goal（描述要生成的项目或文件）。".toList
        verify := skippedWith "empty_goal" }
    else
      match consume c.steps s "structure_plan" with
      | none =>
        { s with degradedReason := "步数预算耗尽（结构规划前）".toList, verify := skippedWith "verify_skipped_budget" }
      | some s => repairLoop w c.steps c.repairs c.repairs (firstRound w c.steps s)
  finish c.steps c.repairs s

end

/-! ### What the report is to be about -/

/-- A verdict with the status `ok` was the last thing that happened: the verifier saw all files as they are. -/
def VerdictFresh (s : Build) : Prop :=
  s.verify.status = .ok → ∃ before after, s.events = before ++ Event.verified s.verify :: after ∧
    ∀ e ∈ after, e.changed = []

/-- Every file that the run has changed is in the list. -/
def FilesListed (s : Build) : Prop := ∀ e ∈ s.events, ∀ path ∈ e.changed, path ∈ s.written

/-- The files of the plan whose summary is reported were written. -/
def SummaryDelivered (w : World) (s : Build) : Prop :=
  ∀ n, s.author = some n → ∃ paths, Event.wrote n paths ∈ s.events ∧
    ∀ f ∈ (w.plan n).files, strip f.path ≠ [] → strip f.path ∈ paths

/-! ### What is written when -/

/-- The budget has a step left for the files of the plan: it is the first, or it does not take the last step. -/
def Affordable (steps n : ℕ) : Prop := n = 0 ∨ 3 * (n + 1) ≠ steps

/-- Every file of the plan is written, where it is tried. -/
def WritesAll (w : World) (n : ℕ) : Prop :=
  ∀ f ∈ (w.plan n).files, strip f.path ≠ [] → strip f.path ∈ (writeFiles w n).written

/-- The last of some plans that has a summary. -/
def LastTold (w : World) (made n : ℕ) : Prop :=
  n < made ∧ (w.plan n).summary ≠ [] ∧ ∀ k, n < k → k < made → (w.plan k).summary = []

/-- The last of some plans of which anything is written. -/
def LastWriting (w : World) (steps made n : ℕ) : Prop :=
  n < made ∧ Affordable steps n ∧ (writeFiles w n).written ≠ [] ∧
    ∀ k, n < k → k < made → Affordable steps k → (writeFiles w k).written = []

section
variable (w : World)

/-- The list of files after some writes. -/
def listed : ℕ → List Text
  | 0 => []
  | n + 1 => if (writeFiles w n).written = [] then listed n else (writeFiles w n).written

/-- Whose the summary is after some plans. -/
def teller : ℕ → Option ℕ
  | 0 => none
  | n + 1 => if (w.plan n).summary = [] then teller n else some n

variable {w}

theorem teller_eq_some {made n : ℕ} : teller w made = some n ↔ LastTold w made n := by
  induction made with
  | zero => simp [teller, LastTold]
  | succ m ih =>
    rw [teller]
    split_ifs with hnil
    · rw [ih]
      constructor
      · rintro ⟨hlt, hne, hlast⟩
        refine ⟨by omega, hne, fun k hk hkm => ?_⟩
        rcases Nat.lt_succ_iff_lt_or_eq.1 hkm with hkm | rfl
        · exact hlast k hk hkm
        · exact hnil
      · rintro ⟨hlt, hne, hlast⟩
        have hnm : n ≠ m := fun h => hne (h ▸ hnil)
        exact ⟨by omega, hne, fun k hk hkm => hlast k hk (by omega)⟩
    · constructor
      · intro h
        obtain rfl := Option.some.inj h
        exact ⟨by omega, hnil, fun k hk hkm => by omega⟩
      · rintro ⟨hlt, hne, hlast⟩
        by_contra hne'
        have hnm : n ≠ m := fun h => hne' (h ▸ rfl)
        exact hnil (hlast m (by omega) (by omega))

/-- The list is that of the last write that has written anything. -/
theorem listed_cases (c : ℕ) : (listed w c = [] ∧ ∀ n < c, (writeFiles w n).written = []) ∨
    ∃ n < c, listed w c = (writeFiles w n).written ∧ (writeFiles w n).written ≠ [] ∧
      ∀ k, n < k → k < c → (writeFiles w k).written = [] := by
  induction c with
  | zero => exact Or.inl ⟨rfl, fun n hn => absurd hn (Nat.not_lt_zero n)⟩
  | succ c ih =>
    rw [listed]
    split_ifs with hnil
    · rcases ih with ⟨heq, hall⟩ | ⟨n, hn, heq, hne, hlast⟩
      · refine Or.inl ⟨heq, fun n hn => ?_⟩
        rcases Nat.lt_succ_iff_lt_or_eq.1 hn with hn | rfl
        · exact hall n hn
        · exact hnil
      · refine Or.inr ⟨n, by omega, heq, hne, fun k hk hkc => ?_⟩
        rcases Nat.lt_succ_iff_lt_or_eq.1 hkc with hkc | rfl
        · exact hlast k hk hkc
        · exact hnil
    · exact Or.inr ⟨c, by omega, rfl, hnil, fun k hk hkc => by omega⟩

end

/-! ### What a step does to the books -/

section
variable {w : World} {maxSteps : ℕ} {s s' : Build}

theorem consume_eq_some {name : String} : consume maxSteps s name = some s' ↔
    s.used + 1 ≤ maxSteps ∧ s' = s.spend name := by
  rw [consume]
  split_ifs with h
  · simp only [false_iff, not_and]
    omega
  · simp only [Option.some.injEq, eq_comm (a := s')]
    exact (and_iff_right (by omega)).symm

variable (maxSteps) in
theorem paid_cases (s : Build) (name : String) (step : Build → Build) :
    (maxSteps ≤ s.used ∧ paid maxSteps s name step = s) ∨
      (s.used + 1 ≤ maxSteps ∧ paid maxSteps s name step = step (s.spend name)) := by
  rw [paid, consume]
  split_ifs with h
  · exact Or.inl ⟨by omega, rfl⟩
  · exact Or.inr ⟨by omega, rfl⟩

theorem exhausted_iff : exhausted maxSteps s = true ↔ maxSteps ≤ s.used := decide_eq_true_iff

variable (w s) in
/-- A verdict touches neither the budget nor the plans nor the files. -/
theorem verifyStep_books : (verifyStep w s).used = s.used ∧ (verifyStep w s).plans = s.plans ∧
    (verifyStep w s).repairAttempts = s.repairAttempts ∧ (verifyStep w s).written = s.written ∧
    (verifyStep w s).author = s.author ∧ (verifyStep w s).summary = s.summary := by
  rw [verifyStep]
  split_ifs
  · exact ⟨rfl, rfl, rfl, rfl, rfl, rfl⟩
  · exact ⟨rfl, rfl, rfl, rfl, rfl, rfl⟩
  · split
    · exact ⟨rfl, rfl, rfl, rfl, rfl, rfl⟩
    · exact ⟨rfl, rfl, rfl, rfl, rfl, rfl⟩

variable (w s) in
theorem verifyStep_events : (verifyStep w s).events = s.events ∨
    (verifyStep w s).events = s.events ++ [.verified (verifyStep w s).verify] := by
  rw [verifyStep]
  split_ifs
  · exact Or.inl rfl
  · exact Or.inl rfl
  · split
    · exact Or.inr rfl
    · exact Or.inl rfl

variable (w s) in
theorem verdictFresh_verifyStep : VerdictFresh (verifyStep w s) := by
  rw [verifyStep]
  split_ifs
  · exact fun h => Status.noConfusion h
  · exact fun h => Status.noConfusion h
  · split
    · exact fun _ => ⟨s.events, [], rfl, fun e he => by cases he⟩
    · exact fun h => Status.noConfusion h

theorem verifyStep_skipped (h : s.written = []) : (verifyStep w s).verify.status = .skipped := by
  rw [verifyStep, if_pos h]

theorem VerdictFresh.congr (h : VerdictFresh s) (hevents : s'.events = s.events) (hverify : s'.verify = s.verify) :
    VerdictFresh s' := by
  rw [VerdictFresh, hevents, hverify]
  exact h

theorem exists_changed_concat {es : List Event} {e : Event} {path : Text} :
    (∃ e' ∈ es ++ [e], path ∈ e'.changed) ↔ (∃ e' ∈ es, path ∈ e'.changed) ∨ path ∈ e.changed := by
  simp only [List.mem_append, List.mem_singleton, or_and_right, exists_or, exists_eq_left]

variable (w) in
/-- The books of a run that has written the files of some plans: what it has changed, its list, and whose the summary
    is. -/
structure Account (s : Build) (writes : ℕ) : Prop where
  writes_le : writes ≤ s.plans
  changed : ∀ path, (∃ e ∈ s.events, path ∈ e.changed) ↔ ∃ n < writes, path ∈ (writeFiles w n).written
  wrote : ∀ n paths, Event.wrote n paths ∈ s.events ↔ n < writes ∧ paths = (writeFiles w n).written
  written : s.written = listed w writes
  author : s.author = teller w s.plans
  summary : s.summary = (s.author.map fun n => (w.plan n).summary).getD []

namespace Account
variable {c : ℕ}

theorem congr (h : Account w s c) (hplans : s'.plans = s.plans) (hevents : s'.events = s.events)
    (hwritten : s'.written = s.written) (hauthor : s'.author = s.author) (hsummary : s'.summary = s.summary) :
    Account w s' c where
  writes_le := hplans ▸ h.writes_le
  changed := hevents ▸ h.changed
  wrote := hevents ▸ h.wrote
  written := hwritten.trans h.written
  author := by rw [hauthor, hplans, h.author]
  summary := by rw [hsummary, hauthor, h.summary]

theorem spend (h : Account w s c) (name : String) : Account w (s.spend name) c := h.congr rfl rfl rfl rfl rfl

theorem plan (h : Account w s c) : Account w (planStep w s) c where
  writes_le := Nat.le_succ_of_le h.writes_le
  changed := h.changed
  wrote := h.wrote
  written := h.written
  author := by
    change (if (w.plan s.plans).summary = [] then s.author else some s.plans) = teller w (s.plans + 1)
    rw [teller, h.author]
  summary := by
    change orText (w.plan s.plans).summary s.summary =
      ((if (w.plan s.plans).summary = [] then s.author else some s.plans).map fun n => (w.plan n).summary).getD []
    rw [orText]
    split_ifs
    · exact h.summary
    · rfl

/-- The files of the plan that is next. -/
theorem write (h : Account w s c) (hplans : s.plans = c + 1) : Account w (writeStep w s) (c + 1) := by
  have hn : s.plans - 1 = c := by omega
  refine ⟨hplans.ge, fun path => ?_, fun n paths => ?_, ?_, h.author, h.summary⟩
  · have hconcat : (∃ e' ∈ s.events ++ [.wrote c (writeFiles w c).written], path ∈ e'.changed) ↔ _ :=
      exists_changed_concat
    rw [h.changed] at hconcat
    simp only [writeStep, hn, hconcat, Nat.lt_succ_iff_lt_or_eq, or_and_right, exists_or, exists_eq_left]
    rfl
  · simp only [writeStep, hn, List.mem_append, List.mem_singleton, h.wrote, Event.wrote.injEq, Nat.lt_succ_iff_lt_or_eq]
    constructor
    · rintro (⟨hlt, rfl⟩ | ⟨rfl, rfl⟩)
      · exact ⟨Or.inl hlt, rfl⟩
      · exact ⟨Or.inr rfl, rfl⟩
    · rintro ⟨hlt | rfl, rfl⟩
      · exact Or.inl ⟨hlt, rfl⟩
      · exact Or.inr ⟨rfl, rfl⟩
  · rw [listed, ← h.written]
    simp only [writeStep, hn]

theorem verify (h : Account w s c) : Account w (verifyStep w s) c := by
  obtain ⟨-, hplans, -, hwritten, hauthor, hsummary⟩ := verifyStep_books w s
  rcases verifyStep_events w s with hevents | hevents
  · exact h.congr hplans hevents hwritten hauthor hsummary
  · refine ⟨hplans ▸ h.writes_le, fun path => ?_, fun n paths => ?_, hwritten.trans h.written, ?_, ?_⟩
    · rw [hevents, exists_changed_concat, h.changed]
      exact or_iff_left List.not_mem_nil
    · simp only [hevents, List.mem_append, List.mem_singleton, h.wrote, reduceCtorEq, or_false]
    · rw [hauthor, hplans, h.author]
    · rw [hsummary, hauthor, h.summary]

/-- A small repair changes files of the list. -/
theorem fix (h : Account w s c) {paths : List Text} (hpaths : paths ⊆ s.written) :
    Account w { s with events := s.events ++ [.fixed paths] } c where
  writes_le := h.writes_le
  changed := fun path => by
    rw [exists_changed_concat, h.changed]
    refine or_iff_left_of_imp fun hpath => ?_
    have hmem : path ∈ listed w c := h.written ▸ hpaths hpath
    rcases listed_cases (w := w) c with ⟨hnil, -⟩ | ⟨n, hn, heq, -⟩
    · rw [hnil] at hmem
      cases hmem
    · exact ⟨n, hn, heq ▸ hmem⟩
  wrote := fun n paths' => by
    simp only [List.mem_append, List.mem_singleton, h.wrote, reduceCtorEq, or_false]
  written := h.written
  author := h.author
  summary := h.summary

end Account

/-- What is put down beside the books. -/
structure SameBooks (s s' : Build) : Prop where
  used : s'.used = s.used
  plans : s'.plans = s.plans
  repairAttempts : s'.repairAttempts = s.repairAttempts
  written : s'.written = s.written
  verify : s'.verify = s.verify
  author : s'.author = s.author
  summary : s'.summary = s.summary
  events : s'.events = s.events

theorem sameBooks_notePlan : SameBooks s (notePlan w s) := by
  rw [notePlan]
  split
  · exact ⟨rfl, rfl, rfl, rfl, rfl, rfl, rfl, rfl⟩
  · exact ⟨rfl, rfl, rfl, rfl, rfl, rfl, rfl, rfl⟩

theorem sameBooks_noteWrite : SameBooks s (noteWrite s) := by
  rw [noteWrite]
  split_ifs
  · exact ⟨rfl, rfl, rfl, rfl, rfl, rfl, rfl, rfl⟩
  · exact ⟨rfl, rfl, rfl, rfl, rfl, rfl, rfl, rfl⟩
  · exact ⟨rfl, rfl, rfl, rfl, rfl, rfl, rfl, rfl⟩

theorem sameBooks_noteRepairPlan {n : ℕ} : SameBooks s (noteRepairPlan w n s) := by
  rw [noteRepairPlan]
  split
  · exact ⟨rfl, rfl, rfl, rfl, rfl, rfl, rfl, rfl⟩
  · exact ⟨rfl, rfl, rfl, rfl, rfl, rfl, rfl, rfl⟩

theorem Account.same {c : ℕ} (h : Account w s c) (hsame : SameBooks s s') : Account w s' c :=
  h.congr hsame.plans hsame.events hsame.written hsame.author hsame.summary

/-! ### The rounds -/

variable (w maxSteps) in
/-- A run at the head of its loop: one round for each plan, of three steps; the first has two more. -/
structure Head (s : Build) : Prop where
  account : Account w s s.plans
  affordable : ∀ n < s.plans, Affordable maxSteps n
  used_le : s.used ≤ maxSteps
  fresh : VerdictFresh s
  plans_eq : s.plans = s.repairAttempts + 1
  used_eq : s.verify.status ≠ .skipped → s.used = if s.plans = 1 then 4 else 3 * s.plans + 2

variable (w maxSteps) in
/-- A run between the small repairs and the plan of the model. -/
structure Mid (s : Build) : Prop where
  account : Account w s s.plans
  affordable : ∀ n < s.plans, Affordable maxSteps n
  used_le : s.used ≤ maxSteps
  fresh : VerdictFresh s
  plans_eq : s.plans = s.repairAttempts
  used_eq : s.used = 3 * s.plans + 2
  pos : 0 < s.plans
  not_ok : s.verify.ok = false

variable (w maxSteps) in
/-- A run with a plan whose files are not yet tried. -/
structure Pending (s : Build) (writes : ℕ) : Prop where
  account : Account w s writes
  affordable : ∀ n < writes, Affordable maxSteps n
  plans_eq : s.plans = writes + 1
  attempts_eq : s.repairAttempts = writes
  used_eq : s.used = 3 * writes + 3
  pos : 0 < writes
  not_ok : s.verify.ok = false

variable (w maxSteps) in
/-- A run with files that are not yet verified. -/
structure Unverified (s : Build) : Prop where
  account : Account w s s.plans
  affordable : ∀ n < s.plans, Affordable maxSteps n
  plans_eq : s.plans = s.repairAttempts + 1
  used_eq : s.used = 3 * s.plans + 1
  used_le : s.used ≤ maxSteps
  many : 1 < s.plans
  not_ok : s.verify.ok = false

variable (w maxSteps) in
/-- A run that has left its loop. A verdict that is older than the files is not `ok`, and the budget is empty. -/
structure Settled (s : Build) : Prop where
  account : ∃ c, Account w s c ∧ ∀ n < s.plans, n < c ↔ Affordable maxSteps n
  used_le : s.used ≤ maxSteps
  fresh : VerdictFresh s ∨ (s.verify.ok = false ∧ maxSteps ≤ s.used)

theorem settled_of_account (haccount : Account w s s.plans) (haffordable : ∀ n < s.plans, Affordable maxSteps n)
    (hused : s.used ≤ maxSteps) (hfresh : VerdictFresh s ∨ (s.verify.ok = false ∧ maxSteps ≤ s.used)) :
    Settled w maxSteps s :=
  ⟨⟨s.plans, haccount, fun n hn => iff_of_true hn (haffordable n hn)⟩, hused, hfresh⟩

theorem Head.settled (h : Head w maxSteps s) : Settled w maxSteps s :=
  settled_of_account h.account h.affordable h.used_le (Or.inl h.fresh)

theorem Mid.plan (h : Mid w maxSteps s) (name : String) :
    Pending w maxSteps (noteRepairPlan w (s.spend name).plans (planStep w (s.spend name))) s.plans := by
  have hsame := sameBooks_noteRepairPlan (w := w) (n := (s.spend name).plans) (s := planStep w (s.spend name))
  refine ⟨((h.account.spend name).plan).same hsame, h.affordable, hsame.plans, ?_, ?_, h.pos, ?_⟩
  · rw [hsame.repairAttempts]
    exact h.plans_eq.symm
  · rw [hsame.used]
    exact congrArg (· + 1) h.used_eq
  · rw [hsame.verify]
    exact h.not_ok

/-- The plan has taken the last step: its files are not written. -/
theorem Pending.settled {c : ℕ} (h : Pending w maxSteps s c) (hle : s.used ≤ maxSteps) (hfull : maxSteps ≤ s.used) :
    Settled w maxSteps s := by
  have hused := h.used_eq
  have hpos := h.pos
  refine ⟨⟨c, h.account, fun n hn => ?_⟩, hle, Or.inr ⟨h.not_ok, hfull⟩⟩
  rw [h.plans_eq, Nat.lt_succ_iff_lt_or_eq] at hn
  rcases hn with hn | rfl
  · exact iff_of_true hn (h.affordable n hn)
  · refine iff_of_false (lt_irrefl _) ?_
    rintro (hzero | hne) <;> omega

theorem Pending.write {c : ℕ} (h : Pending w maxSteps s c) (hle : s.used + 1 ≤ maxSteps) (name : String) :
    Unverified w maxSteps (writeStep w (s.spend name)) := by
  have hused := h.used_eq
  have hplans : (writeStep w (s.spend name)).plans = c + 1 := h.plans_eq
  have haccount := (h.account.spend name).write h.plans_eq
  refine ⟨hplans ▸ haccount, fun n hn => ?_, ?_, ?_, hle, ?_, h.not_ok⟩
  · rw [hplans, Nat.lt_succ_iff_lt_or_eq] at hn
    rcases hn with hn | rfl
    · exact h.affordable n hn
    · exact Or.inr (by omega)
  · rw [hplans]
    exact congrArg (· + 1) h.attempts_eq.symm
  · rw [hplans]
    change s.used + 1 = 3 * (c + 1) + 1
    omega
  · rw [hplans]
    exact Nat.succ_lt_succ h.pos

theorem Unverified.verify (h : Unverified w maxSteps s) (hle : s.used + 1 ≤ maxSteps) (name : String) :
    Head w maxSteps (verifyStep w (s.spend name)) := by
  obtain ⟨hused, hplans, hattempts, -⟩ := verifyStep_books w (s.spend name)
  have hplans' : (verifyStep w (s.spend name)).plans = s.plans := hplans
  have hmany := h.many
  refine ⟨?_, ?_, ?_, verdictFresh_verifyStep w _, ?_, fun _ => ?_⟩
  · rw [hplans']
    exact (h.account.spend name).verify
  · rw [hplans']
    exact h.affordable
  · rw [hused]
    exact hle
  · rw [hplans', hattempts]
    exact h.plans_eq
  · rw [hplans', hused, if_neg (by omega)]
    exact congrArg (· + 1) h.used_eq

/-- The plan of the model, its files and its verdict. -/
theorem llmRepair_spec (h : Mid w maxSteps s) {go : Bool} (hrun : llmRepair w maxSteps s = (s', go)) :
    if go then Head w maxSteps s' else Settled w maxSteps s' := by
  rw [llmRepair] at hrun
  cases hconsume : consume maxSteps s "repair_llm" with
  | none =>
    rw [hconsume] at hrun
    cases hrun
    exact settled_of_account (h.account.congr rfl rfl rfl rfl rfl) h.affordable h.used_le
      (Or.inl (h.fresh.congr rfl rfl))
  | some s₁ =>
    rw [hconsume] at hrun
    obtain ⟨hused, rfl⟩ := consume_eq_some.1 hconsume
    have hpending := h.plan "repair_llm"
    have hle := hpending.used_eq
    rw [h.used_eq] at hused
    dsimp only at hrun
    generalize noteRepairPlan w (s.spend "repair_llm").plans (planStep w (s.spend "repair_llm")) = s₂
      at hpending hrun hle
    rcases paid_cases maxSteps s₂ "write_files" (writeStep w) with ⟨hfull, heq⟩ | ⟨hroom, heq⟩
    · simp only [heq, exhausted_iff.2 hfull, if_true] at hrun
      cases hrun
      exact hpending.settled (by omega) hfull
    · have hunverified := hpending.write hroom "write_files"
      simp only [heq] at hrun
      split_ifs at hrun with hfull
      · cases hrun
        exact settled_of_account hunverified.account hunverified.affordable hunverified.used_le
          (Or.inr ⟨hunverified.not_ok, exhausted_iff.1 hfull⟩)
      · rw [exhausted_iff] at hfull
        rcases paid_cases maxSteps (writeStep w (s₂.spend "write_files")) "verify" (verifyStep w) with
          ⟨hfull', -⟩ | ⟨hroom', heq'⟩
        · exact absurd hfull' hfull
        · rw [heq'] at hrun
          cases hrun
          exact hunverified.verify hroom' "verify"

variable (w maxSteps) in
/-- A run at the beginning of a round. -/
structure Begun (s : Build) : Prop where
  account : Account w s s.plans
  affordable : ∀ n < s.plans, Affordable maxSteps n
  room : s.used + 1 ≤ maxSteps
  fresh : VerdictFresh s
  plans_eq : s.plans = s.repairAttempts
  used_eq : s.used = if s.plans = 1 then 4 else 3 * s.plans + 2
  pos : 0 < s.plans
  not_ok : s.verify.ok = false

theorem Head.begun (h : Head w maxSteps s) (hskip : s.verify.status ≠ .skipped) (hok : s.verify.ok = false)
    (hroom : s.used < maxSteps) : Begun w maxSteps { s with repairAttempts := s.repairAttempts + 1 } :=
  ⟨h.account.congr rfl rfl rfl rfl rfl, h.affordable, hroom, h.fresh.congr rfl rfl, h.plans_eq, h.used_eq hskip,
    h.plans_eq.symm ▸ Nat.succ_pos _, hok⟩

theorem Begun.mid (h : Begun w maxSteps s) (hmany : s.plans ≠ 1) : Mid w maxSteps s :=
  ⟨h.account, h.affordable, Nat.le_of_succ_le h.room, h.fresh, h.plans_eq, h.used_eq.trans (if_neg hmany), h.pos,
    h.not_ok⟩

theorem Begun.spend (h : Begun w maxSteps s) (hone : s.plans = 1) (name : String) : Mid w maxSteps (s.spend name) := by
  refine ⟨h.account.spend name, h.affordable, h.room, h.fresh.congr rfl rfl, h.plans_eq, ?_, h.pos, h.not_ok⟩
  change s.used + 1 = 3 * s.plans + 2
  rw [h.used_eq, if_pos hone, hone]

theorem Mid.settled (h : Mid w maxSteps s) : Settled w maxSteps s :=
  settled_of_account h.account h.affordable h.used_le (Or.inl h.fresh)

/-- Files that are changed are looked at again. -/
theorem Mid.fix (h : Mid w maxSteps s) {paths : List Text} (hpaths : paths ⊆ s.written) {s₁ : Build}
    (hs₁ : s₁ = verifyStep w { s with events := s.events ++ [.fixed paths] }) :
    Settled w maxSteps s₁ ∧ (s₁.verify.ok = false → Mid w maxSteps s₁) := by
  obtain ⟨hused, hplans, hattempts, -⟩ := verifyStep_books w { s with events := s.events ++ [.fixed paths] }
  have hfresh := verdictFresh_verifyStep w { s with events := s.events ++ [.fixed paths] }
  have haccount := (h.account.fix hpaths).verify
  rw [← hs₁] at hused hplans hattempts hfresh haccount
  have hplans' : s₁.plans = s.plans := hplans
  rw [← hplans'] at haccount
  have haffordable : ∀ n < s₁.plans, Affordable maxSteps n := by
    rw [hplans']
    exact h.affordable
  have hused_le : s₁.used ≤ maxSteps := by
    rw [hused]
    exact h.used_le
  refine ⟨settled_of_account haccount haffordable hused_le (Or.inl hfresh), fun hok => ?_⟩
  refine ⟨haccount, haffordable, hused_le, hfresh, ?_, ?_, ?_, hok⟩
  · rw [hplans', hattempts]
    exact h.plans_eq
  · rw [hplans', hused]
    exact h.used_eq
  · rw [hplans']
    exact h.pos

/-- The small repairs of the first round. -/
theorem minimalRepair_spec (h : Begun w maxSteps s) {err : Text} {go : Bool}
    (hrun : minimalRepair w maxSteps s err = (s', go)) : if go then Mid w maxSteps s' else Settled w maxSteps s' := by
  rw [minimalRepair] at hrun
  split_ifs at hrun with hfirst
  · have hmid := h.spend (h.plans_eq.trans hfirst) "repair_minimal"
    rw [consume_eq_some.2 ⟨h.room, rfl⟩] at hrun
    dsimp only at hrun
    generalize s.spend "repair_minimal" = s₁ at hmid hrun
    split_ifs at hrun with hchanged
    · obtain ⟨rfl, rfl⟩ := Prod.mk.inj hrun
      cases exhausted maxSteps s₁ with
      | true => exact hmid.settled
      | false => exact hmid
    · obtain ⟨hs', rfl⟩ := Prod.mk.inj hrun
      obtain ⟨hsettled, hmid'⟩ := hmid.fix (List.filter_subset_self _) hs'.symm
      rw [hs']
      cases hok : s'.verify.ok with
      | true => exact hsettled
      | false =>
        cases exhausted maxSteps s' with
        | true => exact hsettled
        | false => exact hmid' hok
  · cases hrun
    exact h.mid fun hone => hfirst (h.plans_eq.symm.trans hone)

/-- One round: back to the head of the loop, or out of it. -/
theorem repairRound_spec (h : Head w maxSteps s) {maxRepairs : ℕ} (hwants : wantsRepair maxSteps maxRepairs s = true)
    {go : Bool} (hrun : repairRound w maxSteps s = (s', go)) :
    if go then Head w maxSteps s' else Settled w maxSteps s' := by
  simp only [wantsRepair, Bool.and_eq_true, Bool.not_eq_true', decide_eq_true_eq, exhausted, decide_eq_false_iff_not,
    not_le] at hwants
  obtain ⟨⟨⟨⟨⟨hok, -⟩, hskip⟩, -⟩, -⟩, hroom⟩ := hwants
  rw [repairRound] at hrun
  dsimp only at hrun
  split_ifs at hrun with herr
  · cases hrun
    exact settled_of_account (h.account.congr rfl rfl rfl rfl rfl) h.affordable h.used_le
      (Or.inl (h.fresh.congr rfl rfl))
  · cases hmin : minimalRepair w maxSteps { s with repairAttempts := s.repairAttempts + 1 } (errText s.verify) with
    | mk s₁ go₁ =>
      have hspec := minimalRepair_spec (h.begun hskip hok hroom) hmin
      rw [hmin] at hrun
      cases go₁ with
      | false =>
        cases hrun
        exact hspec
      | true => exact llmRepair_spec hspec hrun

/-- RUN: however many rounds there are, what is so at the head of the loop is so behind it. -/
theorem settled_repairLoop {maxRepairs : ℕ} : ∀ {left : ℕ} {s : Build}, Head w maxSteps s →
    Settled w maxSteps (repairLoop w maxSteps maxRepairs left s)
  | 0, _, h => h.settled
  | left + 1, s, h => by
    rw [repairLoop]
    split_ifs with hwants
    · cases hround : repairRound w maxSteps s with
      | mk s' go =>
        have hspec := repairRound_spec h hwants hround
        cases go with
        | false => exact hspec
        | true => exact settled_repairLoop hspec
    · exact h.settled

theorem account_zero (h : s.events = []) (hwritten : s.written = []) (hplans : s.plans = 0) (hauthor : s.author = none)
    (hsummary : s.summary = []) : Account w s 0 where
  writes_le := Nat.zero_le _
  changed := fun path => by simp [h]
  wrote := fun n paths => by simp [h]
  written := hwritten
  author := by rw [hauthor, hplans, teller]
  summary := by
    rw [hsummary, hauthor]
    rfl

variable (w) in
/-- The first plan and its files, which there is always a step for. -/
structure FirstWritten (s : Build) (used : ℕ) : Prop where
  account : Account w s 1
  plans_eq : s.plans = 1
  attempts_eq : s.repairAttempts = 0
  used_eq : s.used = used

theorem FirstWritten.head {used : ℕ} (h : FirstWritten w s used) (hle : s.used ≤ maxSteps) (hfresh : VerdictFresh s)
    (hfour : s.verify.status ≠ .skipped → used = 4) : Head w maxSteps s where
  account := by
    rw [h.plans_eq]
    exact h.account
  affordable := fun n hn => Or.inl (by rw [h.plans_eq] at hn; omega)
  used_le := hle
  fresh := hfresh
  plans_eq := by rw [h.plans_eq, h.attempts_eq]
  used_eq := fun hskip => by rw [if_pos h.plans_eq, h.used_eq, hfour hskip]

theorem firstWritten_write (hsteps : 3 ≤ maxSteps) (h : Account w s 0) (hplans : s.plans = 0)
    (hattempts : s.repairAttempts = 0) (hused : s.used = 1) :
    FirstWritten w (paid maxSteps (notePlan w (planStep w s)) "write_files" fun s => noteWrite (writeStep w s)) 2 := by
  have hnote := sameBooks_notePlan (w := w) (s := planStep w s)
  have haccount := h.plan.same hnote
  have hplans₁ := hnote.plans.trans (congrArg (· + 1) hplans)
  have hused₁ := hnote.used.trans hused
  have hattempts₁ := hnote.repairAttempts.trans hattempts
  generalize notePlan w (planStep w s) = s₁ at haccount hplans₁ hused₁ hattempts₁ ⊢
  rcases paid_cases maxSteps s₁ "write_files" fun s => noteWrite (writeStep w s) with ⟨hfull, -⟩ | ⟨-, heq⟩
  · omega
  · have hnoted := sameBooks_noteWrite (s := writeStep w (s₁.spend "write_files"))
    rw [heq]
    exact ⟨((haccount.spend "write_files").write hplans₁).same hnoted, hnoted.plans.trans hplans₁,
      hnoted.repairAttempts.trans hattempts₁, hnoted.used.trans (congrArg (· + 1) hused₁)⟩

theorem firstWritten_readBack (hsteps : 3 ≤ maxSteps) (h : FirstWritten w s 2) :
    FirstWritten w (if s.written = [] then s else paid maxSteps s "read_back" id)
      (if (if s.written = [] then s else paid maxSteps s "read_back" id).written = [] then 2 else 3) := by
  have hused := h.used_eq
  split_ifs with hnil hnil'
  · exact h
  · rcases paid_cases maxSteps s "read_back" id with ⟨hfull, -⟩ | ⟨-, heq⟩
    · omega
    · rw [heq] at hnil'
      exact absurd hnil' hnil
  · rcases paid_cases maxSteps s "read_back" id with ⟨hfull, -⟩ | ⟨-, heq⟩
    · omega
    · rw [heq]
      exact ⟨h.account.spend _, h.plans_eq, h.attempts_eq, congrArg (· + 1) hused⟩

/-- The first plan is always written; it is verified where it has written anything and there is a fourth step. -/
theorem head_firstRound (hsteps : 3 ≤ maxSteps) (h : Account w s 0) (hplans : s.plans = 0)
    (hattempts : s.repairAttempts = 0) (hused : s.used = 1) : Head w maxSteps (firstRound w maxSteps s) := by
  have hread := firstWritten_readBack hsteps (firstWritten_write hsteps h hplans hattempts hused)
  rw [firstRound]
  generalize (if
    (paid maxSteps (notePlan w (planStep w s)) "write_files" fun s => noteWrite (writeStep w s)).written = [] then
      paid maxSteps (notePlan w (planStep w s)) "write_files" fun s => noteWrite (writeStep w s)
    else paid maxSteps (paid maxSteps (notePlan w (planStep w s)) "write_files" fun s => noteWrite (writeStep w s))
      "read_back" id) = s₁ at hread ⊢
  have hle : s₁.used ≤ maxSteps := by
    rw [hread.used_eq]
    split_ifs <;> omega
  have hskipped : FirstWritten w (skipVerify s₁) (if s₁.written = [] then 2 else 3) :=
    ⟨hread.account.congr rfl rfl rfl rfl rfl, hread.plans_eq, hread.attempts_eq, hread.used_eq⟩
  rcases paid_cases maxSteps (skipVerify s₁) "verify" (verifyStep w) with ⟨-, heq⟩ | ⟨hroom, heq⟩
  · rw [heq]
    exact hskipped.head hle (fun hok => Status.noConfusion hok) fun hskip => absurd rfl hskip
  · rw [heq]
    obtain ⟨hused', hplans', hattempts', -⟩ := verifyStep_books w ((skipVerify s₁).spend "verify")
    have hwritten : FirstWritten w (verifyStep w ((skipVerify s₁).spend "verify"))
        ((if s₁.written = [] then 2 else 3) + 1) :=
      ⟨(hskipped.account.spend "verify").verify, hplans'.trans hskipped.plans_eq,
        hattempts'.trans hskipped.attempts_eq, hused'.trans (congrArg (· + 1) hskipped.used_eq)⟩
    refine hwritten.head (hused' ▸ hroom) (verdictFresh_verifyStep w _) fun hskip => ?_
    have hne : s₁.written ≠ [] := fun hnil => hskip (verifyStep_skipped hnil)
    rw [if_neg hne]

/-! ### The report -/

variable (maxSteps) in
theorem finish_books (maxRepairs : ℕ) (s : Build) :
    SameBooks s { finish maxSteps maxRepairs s with verify := s.verify } := by
  rw [finish]
  split_ifs <;> exact ⟨rfl, rfl, rfl, rfl, rfl, rfl, rfl, rfl⟩

/-- A status `ok` is that of the verdict, which is not of a run that ended on an empty budget without one. -/
theorem finish_ok {maxRepairs : ℕ} (h : (finish maxSteps maxRepairs s).verify.status = .ok) :
    finish maxSteps maxRepairs s = s ∧ ¬ (s.verify.ok = false ∧ maxSteps ≤ s.used) := by
  rw [finish] at h ⊢
  split_ifs at h ⊢ with hretry hempty hfailed
  · refine ⟨rfl, fun hstale => ?_⟩
    rw [hstale.1, exhausted_iff.2 hstale.2] at hempty
    exact hempty rfl

variable (w) in
theorem settled_run (c : Contract) (goal intentKind : Text) :
    ∃ s, Settled w c.steps s ∧ runEngineeringBounded w c goal intentKind = finish c.steps c.repairs s := by
  have hsteps : 3 ≤ c.steps := by
    rw [Contract.steps]
    omega
  rw [runEngineeringBounded]
  dsimp only
  split_ifs with hgoal
  · refine ⟨_, ?_, rfl⟩
    exact ⟨⟨0, account_zero rfl rfl rfl rfl rfl, fun n hn => absurd hn (Nat.not_lt_zero n)⟩, Nat.zero_le _,
      Or.inl fun hok => Status.noConfusion hok⟩
  · have hconsume : consume c.steps { intentKind := intentKind } "structure_plan" =
        some (({ intentKind := intentKind } : Build).spend "structure_plan") :=
      consume_eq_some.2 ⟨by change 0 + 1 ≤ c.steps; omega, rfl⟩
    rw [hconsume]
    exact ⟨_, settled_repairLoop (head_firstRound hsteps (account_zero rfl rfl rfl rfl rfl) rfl rfl rfl), rfl⟩

/-- The list has every file just where the last write that wrote anything wrote all files before it again. -/
theorem filesListed_iff {c : ℕ} (h : Account w s c) (hc : ∀ n < s.plans, n < c ↔ Affordable maxSteps n) :
    FilesListed s ↔ ∀ n, LastWriting w maxSteps s.plans n → ∀ k < n,
      (writeFiles w k).written ⊆ (writeFiles w n).written := by
  have hlisted : FilesListed s ↔ ∀ k < c, (writeFiles w k).written ⊆ listed w c := by
    rw [← h.written]
    constructor
    · intro hall k hk path hpath
      obtain ⟨e, he, hmem⟩ := (h.changed path).2 ⟨k, hk, hpath⟩
      exact hall e he path hmem
    · intro hall e he path hpath
      obtain ⟨k, hk, hmem⟩ := (h.changed path).1 ⟨e, he, hpath⟩
      exact hall k hk hmem
  have hlt : ∀ n, n < c ↔ n < s.plans ∧ Affordable maxSteps n := by
    intro n
    constructor
    · intro hn
      have hplans := hn.trans_le h.writes_le
      exact ⟨hplans, (hc n hplans).1 hn⟩
    · rintro ⟨hn, haffordable⟩
      exact (hc n hn).2 haffordable
  rw [hlisted]
  rcases listed_cases (w := w) c with ⟨-, hall⟩ | ⟨m, hm, heq, hne, hlast⟩
  · constructor
    · rintro - n ⟨hn, haffordable, hwrites, -⟩
      exact absurd (hall n ((hlt n).2 ⟨hn, haffordable⟩)) hwrites
    · intro _ k hk
      rw [hall k hk]
      exact List.nil_subset _
  · have hmlast : LastWriting w maxSteps s.plans m :=
      ⟨((hlt m).1 hm).1, ((hlt m).1 hm).2, hne, fun k hk hkp hkb => hlast k hk ((hlt k).2 ⟨hkp, hkb⟩)⟩
    rw [heq]
    constructor
    · rintro hall n ⟨hn, haffordable, hwrites, hnlast⟩ k hk
      have hnc : n < c := (hlt n).2 ⟨hn, haffordable⟩
      rcases lt_trichotomy n m with hnm | rfl | hmn
      · exact absurd (hnlast m hnm hmlast.1 hmlast.2.1) hne
      · exact hall k (hk.trans hnc)
      · exact absurd (hlast n hmn hnc) hwrites
    · intro hall k hk
      rcases lt_trichotomy k m with hkm | rfl | hmk
      · exact hall m hmlast k hkm
      · exact List.Subset.refl _
      · rw [hlast k hmk hk]
        exact List.nil_subset _

/-- The summary is delivered just where the last plan that has one could be paid for and all its files were written. -/
theorem summaryDelivered_iff {c : ℕ} (h : Account w s c) (hc : ∀ n < s.plans, n < c ↔ Affordable maxSteps n) :
    SummaryDelivered w s ↔ ∀ n, LastTold w s.plans n → Affordable maxSteps n ∧ WritesAll w n := by
  rw [SummaryDelivered, h.author]
  refine forall_congr' fun n => ?_
  rw [teller_eq_some]
  refine imp_congr_right fun htold => ?_
  simp only [h.wrote, hc n htold.1]
  constructor
  · rintro ⟨_, ⟨haffordable, rfl⟩, hall⟩
    exact ⟨haffordable, hall⟩
  · rintro ⟨haffordable, hall⟩
    exact ⟨_, ⟨haffordable, rfl⟩, hall⟩

end

/-- A run stays within its steps; a verdict `ok` is about the files as they are; the list of files is whole just
    where the last write that wrote anything wrote all files before it again; and the summary is delivered just where
    the last plan that has one did not take the last step, and all its files could be written. -/
theorem report_iff (w : World) (c : Contract) (goal intentKind : Text) :
    (runEngineeringBounded w c goal intentKind).used ≤ c.steps ∧
    VerdictFresh (runEngineeringBounded w c goal intentKind) ∧
    (FilesListed (runEngineeringBounded w c goal intentKind) ↔
      ∀ n, LastWriting w c.steps (runEngineeringBounded w c goal intentKind).plans n → ∀ k < n,
        (writeFiles w k).written ⊆ (writeFiles w n).written) ∧
    (runEngineeringBounded w c goal intentKind).summary =
      ((runEngineeringBounded w c goal intentKind).author.map fun n => (w.plan n).summary).getD [] ∧
    (SummaryDelivered w (runEngineeringBounded w c goal intentKind) ↔
      ∀ n, LastTold w (runEngineeringBounded w c goal intentKind).plans n → Affordable c.steps n ∧ WritesAll w n) := by
  obtain ⟨s, hsettled, heq⟩ := settled_run w c goal intentKind
  obtain ⟨writes, haccount, hwrites⟩ := hsettled.account
  have hsame := finish_books c.steps c.repairs s
  have hplans : (finish c.steps c.repairs s).plans = s.plans := hsame.plans
  have haccount' : Account w (finish c.steps c.repairs s) writes :=
    haccount.congr hsame.plans hsame.events hsame.written hsame.author hsame.summary
  rw [heq]
  refine ⟨?_, fun hok => ?_, filesListed_iff haccount' (hplans ▸ hwrites), haccount'.summary,
    summaryDelivered_iff haccount' (hplans ▸ hwrites)⟩
  · exact hsame.used.trans_le hsettled.used_le
  · obtain ⟨hfinish, hnot⟩ := finish_ok hok
    rw [hfinish] at hok ⊢
    rcases hsettled.fresh with hfresh | hstale
    · exact hfresh hok
    · exact absurd hstale hnot

/-- A plan of two files, and one that repairs the second; the verifier does not like the first. -/
def twoPlans : World where
  plan := fun n =>
    if n = 0 then ⟨"first".toList, [⟨"a.py".toList, []⟩, ⟨"b.py".toList, []⟩], none⟩
    else ⟨"second".toList, [⟨"b.py".toList, "pass".toList⟩], none⟩
  outcome := fun _ _ => none
  fixes := fun _ _ _ => false
  verifyProject := fun n =>
    if n = 0 then .ok ⟨false, "python".toList, .failed, ["compile".toList], "error".toList⟩
    else .ok ⟨true, "python".toList, .ok, [], []⟩
  targets := fun _ _ _ => ("code".toList, "python".toList)

/-- With the usual six steps the summary is that of a plan that is never written; with twelve, the list has lost a
    file of the first plan. -/
theorem report_of_twoPlans :
    ¬ SummaryDelivered twoPlans (runEngineeringBounded twoPlans {} "app".toList "code".toList) ∧
    ¬ FilesListed (runEngineeringBounded twoPlans { maxSteps := 12 } "app".toList "code".toList) := by
  constructor
  · intro h
    obtain ⟨paths, hwrote, -⟩ := h 1 (by decide +kernel)
    have hevents : (runEngineeringBounded twoPlans {} "app".toList "code".toList).events =
        [.wrote 0 ["a.py".toList, "b.py".toList],
          .verified ⟨false, "python".toList, .failed, ["compile".toList], "error".toList⟩] := by
      decide +kernel
    rw [hevents] at hwrote
    simp at hwrote
  · intro h
    exact absurd (h (.wrote 0 ["a.py".toList, "b.py".toList]) (by decide +kernel) "a.py".toList (by decide +kernel))
      (by decide +kernel)

end AgentLangraph.Run.Engineering
