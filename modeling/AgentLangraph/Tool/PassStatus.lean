import AgentLangraph.Artifact.Steps
import AgentLangraph.Tool.Commit

/-! Whether a pass of the tool node is reported as failed (`tool_execution_node`, `_run_planned_actions`,
    `_classify_failures` of `tool_node.py`).

        planned actions ──▶ rows of the pass                      ──▶ all of them failures?
        stages          ──▶ rows of before, of the pass, by tool  ──▶ as many failures as rows of
                                                                      selected tools?
        an exception    ──▶ pause or cancel, or failed -/

namespace AgentLangraph.PassStatus
open PyText AgentLangraph.Tool.Commit
open AgentLangraph.Artifact (Raise Entry Exec TurnFacts Run Step Tools executeActions)

/-- What the node makes of the status; a control exception has a status of its own. -/
inductive Status
  | toolFailed | toolExecuted | handled
  deriving DecidableEq

/-- `handle_control_exception` takes the exception for a control signal. -/
def isControl : Raise → Bool
  | .other name _ => name ∈ ["PauseRequested".toList, "CancelRequested".toList, "OperationCancelled".toList,
      "StreamInterrupted".toList]
  | _ => false

/-- The status of a pass, after its verdict and what saving and recording it raises. -/
def settle (failed : Except Raise Bool) (rest : Option Raise) : Status :=
  match failed, rest with
  | .error e, _ | .ok _, some e => if isControl e then .handled else .toolFailed
  | .ok true, none => .toolFailed
  | .ok false, none => .toolExecuted

/-- The calls of a pass, each with whether it ended badly, make it a failed one. -/
def Failed (calls : List Bool) : Prop := calls ≠ [] ∧ ∀ bad ∈ calls, bad = true

/-! ### The planned actions -/

/-- The row is a failure to `_classify_failures`. -/
def failedEntry (e : Entry) : Bool :=
  e.status ∈ ["error".toList, "skipped".toList] || decide (e.error ≠ [])

/-- `_run_planned_actions`, as far as its verdict. -/
def plannedFailed (t : Tools) (x : Exec) (facts : TurnFacts) (steps : List Step) : Except Raise Bool :=
  match executeActions t steps (Run.begin x facts) with
  | (out, .ok ()) =>
    let new := out.exec.toolResults.drop x.toolResults.length
    let failures := new.filter failedEntry
    .ok (decide (new ≠ [] ∧ failures.length = new.length))
  | (_, .error e) => .error e

/-- An action that a tool is called for. -/
def isCall (step : Step) : Bool :=
  match step.planned.action with
  | .ok a => a.type.onArtifact || decide (a.type = .runTool)
  | .error _ => false

/-- The calls that are come to, each with its row or with what it raises. -/
def plannedCalls (t : Tools) : Run → List Step → List (Except Raise Entry)
  | _, [] => []
  | r, step :: steps =>
    match Run.step t step r with
    | (r', .ok ()) =>
      (if isCall step then (r'.results.drop r.results.length).map .ok else []) ++ plannedCalls t r' steps
    | (_, .error e) => if isCall step then [.error e] else []

/-- The call has ended in an error: it has raised, or its row is a failure or has the result of one. A
    control signal only interrupts it. -/
def endedBadly : Except Raise Entry → Bool
  | .ok e => failedEntry e || decide ((e.result.getD {}).status = "error".toList)
  | .error e => !isControl e

/-! ### The stages -/

/-- What a call of `_invoke` comes to. -/
inductive Came
  /-- A row, and whether the result in it is one of an error. -/
  | row (fields : Fields) (resultError : Bool)
  /-- The guard refuses the call. -/
  | skipped (tool issues : Text)
  /-- A repeated read, which is given something else, with its status and its error. -/
  | repeated (tool status error : Text)
  | raised (error : Text)

/-- What `_invoke` returns: the rows of a refused call and of a repeated read are set aside, and only their
    results go on, which name no tool. -/
def Came.returned : Came → Except Text Fields
  | .row fields _ => .ok fields
  | .skipped _ issues =>
    .ok ((PyDict.empty.put "status" (.str "blocked".toList)).put "issues" (.other issues true))
  | .repeated _ status error => .ok ((PyDict.empty.put "status" (.str status)).put "error" (.str error))
  | .raised error => .error error

/-- The row in `blocked_results`. -/
def Came.aside : Came → Option Fields
  | .skipped tool issues => some
    (((PyDict.empty.put "tool" (.str tool)).put "status" (.str "skipped".toList)).put "error" (.str issues))
  | .repeated tool status error =>
    let row := (PyDict.empty.put "tool" (.str tool)).put "status"
      (.str (if status = "cached".toList then "cached".toList else "blocked".toList))
    some (if error = [] then row else row.put "error" (.str error))
  | _ => none

/-- `r.get("status") in ("error", "skipped") or r.get("error")`. -/
def failedRow (row : Fields) : Bool :=
  decide (row.field "status" = .str "error".toList) || decide (row.field "status" = .str "skipped".toList) ||
    (row.field "error").truthy

/-- `r.get("tool") in tools`. -/
def selectedRow (tools : List Text) (row : Fields) : Bool :=
  match row.field "tool" with
  | .str t => t ∈ tools
  | _ => false

/-- The call has ended in an error or was refused. -/
def Came.endedBadly : Came → Bool
  | .row fields resultError => failedRow fields || resultError
  | .skipped _ _ | .raised _ => true
  | .repeated _ _ error => error ≠ []

/-- What each call comes to: the stage, the place in the stage, and the tool. -/
abbrev Outcomes := ℕ → ℕ → Text → Came

/-- `blocked_results`, from a stage on. -/
def asideRows (outcomes : Outcomes) (c : Completion) : ℕ → List (List Text) → List Fields
  | _, [] => []
  | i, tools :: stages =>
    let rows := (tools.mapIdx fun j tool => (outcomes i j tool).aside).reduceOption
    (if parallelOk tools then c.order i rows else rows) ++ asideRows outcomes c (i + 1) stages

/-- The calls of the stages, from a stage on. -/
def stagedCalls (outcomes : Outcomes) : ℕ → List (List Text) → List Bool
  | _, [] => []
  | i, tools :: stages =>
    (tools.mapIdx fun j tool => (outcomes i j tool).endedBadly) ++ stagedCalls outcomes (i + 1) stages

/-- A pass over the stages. -/
structure Staged where
  digit : Char → Option ℕ
  state : CommitState
  selectedTools : List Text
  stages : List (List Text)
  outcomes : Outcomes
  completion : Completion
  /-- The order that rows are set aside in. -/
  setAside : Completion

namespace Staged

/-- The rows that the calls return. -/
def observations (s : Staged) : List Fields :=
  executed s.state (fun i j tool => (s.outcomes i j tool).returned) s.completion s.stages

def blockedResults (s : Staged) : List Fields := asideRows s.outcomes s.setAside 0 s.stages

/-- The staged part of `tool_execution_node`, as far as its verdict. -/
def failed (s : Staged) : Except Raise Bool := do
  let merged ← mergeObservations s.digit s.state s.observations
  let results := merged ++ s.blockedResults
  let failures := results.filter failedRow
  let toolInvocations := results.filter (selectedRow s.selectedTools)
  pure (decide (s.selectedTools ≠ [] ∧ failures ≠ [] ∧ failures.length = toolInvocations.length))

def calls (s : Staged) : List Bool := stagedCalls s.outcomes 0 s.stages

end Staged

/-! ### The node -/

/-- A pass of the node, behind its checks that the run goes on: what the planned path goes by, an element of
    `planned_actions` being `none` where it is no dictionary, and what the staged path goes by. -/
structure NodePass where
  tools : Tools
  exec : Exec
  facts : TurnFacts := {}
  actions : List (Option Step) := []
  staged : Staged
  /-- What saving and recording the pass raises. -/
  rest : Option Raise := none

namespace NodePass

/-- `has_planned_actions`. -/
def hasPlannedActions (n : NodePass) : Bool :=
  n.actions.any fun a => a.any fun step => decide (step.planned.type ∉ ["answer".toList, "retrieve".toList])

/-- The actions as they are carried out. -/
def steps (n : NodePass) : List Step := n.actions.map fun a => a.getD { planned := { type := [] } }

/-- `tool_execution_node`, as far as its status. -/
def status (n : NodePass) : Status :=
  settle (if n.hasPlannedActions then plannedFailed n.tools n.exec n.facts n.steps else n.staged.failed) n.rest

/-- The calls of the pass, each with whether it ended badly. -/
def calls (n : NodePass) : List Bool :=
  if n.hasPlannedActions then (plannedCalls n.tools (Run.begin n.exec n.facts) n.steps).map endedBadly
  else n.staged.calls

end NodePass

/-! ### What the staged path counts -/

/-- The last row of each tool. -/
def lasts : List Fields → List Fields
  | [] => []
  | row :: rows => if toolOf row = [] ∨ toolOf row ∈ named rows then lasts rows else row :: lasts rows

/-- Merging replaces the rows of the named tools by the last one of each. -/
theorem foldl_putRow_eq (rows : List Fields) : ∀ merged : List Fields, rows.foldl putRow merged =
    merged.filter (fun r => nameOf r ∉ named rows) ++ lasts rows := by
  induction rows with
  | nil =>
    intro merged
    simp [named, lasts]
  | cons row rows ih =>
    intro merged
    have hcons : ∀ t, t ∈ named (row :: rows) ↔ (toolOf row ≠ [] ∧ toolOf row = t) ∨ t ∈ named rows := by
      intro t
      simp only [mem_named, List.exists_mem_cons_iff]
      constructor
      · rintro ⟨hne, rfl | hrow⟩
        · exact Or.inl ⟨hne, rfl⟩
        · exact Or.inr ⟨hne, hrow⟩
      · rintro (⟨hne, rfl⟩ | ⟨hne, hrow⟩)
        · exact ⟨hne, Or.inl rfl⟩
        · exact ⟨hne, Or.inr hrow⟩
    rw [List.foldl_cons, ih, putRow, lasts]
    by_cases hempty : toolOf row = []
    · rw [if_pos hempty, if_pos (Or.inl hempty)]
      congr 1
      refine List.filter_congr fun r _ => ?_
      simp [hcons, hempty]
    rw [if_neg hempty, List.filter_append, List.filter_filter, List.filter_singleton, nameOf_eq_toolOf hempty,
      List.append_assoc]
    congr 1
    · refine List.filter_congr fun r _ => ?_
      by_cases hname : nameOf r = toolOf row
      · simp [hcons, hname, hempty]
      · simp [hcons, hname, Ne.symm hname]
    · by_cases hlater : toolOf row ∈ named rows
      · rw [if_pos (Or.inr hlater)]
        simp [hlater]
      · rw [if_neg (by simp [hempty, hlater])]
        simp [hlater]

theorem mergeObservations_of_filter {digit : Char → Option ℕ} {st : CommitState} {rows kept : List Fields}
    (h : filterToolObservations digit st rows = .ok kept) :
    mergeObservations digit st rows = .ok (untouched st kept ++ lasts kept) := by
  rw [mergeObservations, h, untouched, ← foldl_putRow_eq,
    ← foldl_mergeRow kept st.toolResults _ fun r hr => List.mem_map_of_mem hr]
  rfl

theorem length_filter_add {α : Type} (p q : α → Bool) (l : List α) :
    (l.filter p).length + (l.filter fun a => q a && !p a).length =
      (l.filter q).length + (l.filter fun a => p a && !q a).length := by
  induction l with
  | nil => rfl
  | cons a l ih =>
    cases hp : p a <;> cases hq : q a <;> simp [hp, hq] <;> omega

/-- There are failures, and as many of tools that are not selected as there are rows of selected tools that
    are none. -/
def CountedFailed (tools : List Text) (rows : List Fields) : Prop :=
  tools ≠ [] ∧ (∃ row ∈ rows, failedRow row = true) ∧
    (rows.filter fun row => failedRow row && !selectedRow tools row).length =
      (rows.filter fun row => selectedRow tools row && !failedRow row).length

theorem countedFailed_iff (tools : List Text) (rows : List Fields) : CountedFailed tools rows ↔
    tools ≠ [] ∧ rows.filter failedRow ≠ [] ∧
      (rows.filter failedRow).length = (rows.filter (selectedRow tools)).length := by
  have hadd := length_filter_add failedRow (selectedRow tools) rows
  have hany : (∃ row ∈ rows, failedRow row = true) ↔ rows.filter failedRow ≠ [] := by
    rw [ne_eq, List.filter_eq_nil_iff]
    push Not
    rfl
  rw [CountedFailed, hany]
  refine and_congr_right fun _ => and_congr_right fun _ => ?_
  omega

namespace Staged

/-- The rows that are counted: those of before that nothing replaces, the last of each tool among the rows
    that the gate lets through, and those that were set aside. -/
def rows (s : Staged) (kept : List Fields) : List Fields :=
  untouched s.state kept ++ lasts kept ++ s.blockedResults

theorem failed_eq {s : Staged} {kept : List Fields}
    (h : filterToolObservations s.digit s.state s.observations = .ok kept) :
    ∃ b, s.failed = .ok b ∧ (b = true ↔ CountedFailed s.selectedTools (s.rows kept)) := by
  rw [failed, mergeObservations_of_filter h]
  exact ⟨_, rfl, decide_eq_true_iff.trans (countedFailed_iff _ _).symm⟩

theorem failed_error {s : Staged} {e : Raise}
    (h : filterToolObservations s.digit s.state s.observations = .error e) : s.failed = .error e := by
  rw [failed, mergeObservations, h]
  rfl

end Staged

/-! ### What the planned path counts -/

/-- An element of the plan that is no action leaves a row of its own, and no tool is called for it. -/
def invalid (step : Step) : Bool :=
  match step.planned.action with
  | .error _ => true
  | .ok _ => false

/-- `run_code` leaves the rows as they are. -/
def KeepsRows (step : Step) : Prop :=
  ∀ p, step.planned.action = .ok ⟨.runCode, p⟩ → ∀ s x facts status,
    step.code s = ((x, facts), .ok status) → x.toolResults = s.1.toolResults

section
variable {t : Tools}

/-- STEP: a call adds one row; an action that is none adds a failure where it is invalid. -/
theorem rows_of_step {step : Step} {r r' : Run} (hkeeps : KeepsRows step)
    (h : Run.step t step r = (r', .ok ())) : ∃ new, r'.results = r.results ++ new ∧
      (isCall step = true ∧ (∃ e, new = [e]) ∧ invalid step = false ∨
        isCall step = false ∧ (∀ e ∈ new, failedEntry e = true) ∧ (new ≠ [] ↔ invalid step = true)) := by
  rw [isCall, invalid]
  rcases Artifact.step_cases h with ⟨ex, hact, rfl⟩ | ⟨a, ws, e, hact, hown, -, rfl⟩ | ⟨a, hact, hty, rfl⟩ |
    ⟨p, x, facts, status, hact, hcode, rfl⟩ <;> rw [hact] <;> dsimp only
  · exact ⟨_, rfl, Or.inr ⟨rfl, by simp [failedEntry, Artifact.errorEntry], by simp⟩⟩
  · exact ⟨[e], rfl, Or.inl ⟨by simpa using hown, ⟨e, rfl⟩, rfl⟩⟩
  · refine ⟨[], (List.append_nil _).symm, Or.inr ⟨?_, by simp, by simp⟩⟩
    rcases hty with hty | hty <;> rw [hty] <;> rfl
  · refine ⟨[], ?_, Or.inr ⟨rfl, by simp, by simp⟩⟩
    rw [List.append_nil]
    exact hkeeps p hact _ _ _ _ hcode

/-- RUN: the rows of a run are those of its calls and of its invalid actions. -/
theorem rows_of_run : ∀ {steps : List Step} {r r' : Run}, (∀ step ∈ steps, KeepsRows step) →
    Run.steps t steps r = (r', .ok ()) → ∃ new, r'.results = r.results ++ new ∧
      (new ≠ [] ↔ plannedCalls t r steps ≠ [] ∨ ∃ step ∈ steps, invalid step = true) ∧
      ((∀ e ∈ new, failedEntry e = true) ↔
        ∀ e, .ok e ∈ plannedCalls t r steps → failedEntry e = true) ∧
      ∀ c ∈ plannedCalls t r steps, ∃ e, c = .ok e
  | [], r, r', _, h => by
      cases h
      exact ⟨[], by simp, by simp [plannedCalls], by simp [plannedCalls], by simp [plannedCalls]⟩
  | step :: steps, r, r', hkeeps, h => by
      rw [List.forall_mem_cons] at hkeeps
      rcases hstep : Run.step t step r with ⟨r₁, e | u⟩
      · rw [Run.steps, Attempt.forEach_cons_error hstep] at h
        cases h
      rw [Run.steps, Attempt.forEach_cons_ok hstep] at h
      obtain ⟨new, hnew, hne, hall, hok⟩ := rows_of_run hkeeps.2 h
      obtain ⟨first, hfirst, hkind⟩ := rows_of_step hkeeps.1 hstep
      refine ⟨first ++ new, by rw [hnew, hfirst, List.append_assoc], ?_⟩
      rw [plannedCalls, hstep]
      dsimp only
      rw [hfirst, List.drop_left]
      rcases hkind with ⟨hcall, ⟨e, rfl⟩, hvalid⟩ | ⟨hcall, hfailed, hinvalid⟩
      · rw [if_pos hcall, List.map_singleton, List.singleton_append]
        refine ⟨by simp, ?_, ?_⟩
        · rw [List.singleton_append, List.forall_mem_cons, hall]
          simp only [List.mem_cons, Except.ok.injEq]
          constructor
          · rintro ⟨he, hrest⟩ e' (rfl | hmem)
            · exact he
            · exact hrest e' hmem
          · exact fun hrest => ⟨hrest e (Or.inl rfl), fun e' hmem => hrest e' (Or.inr hmem)⟩
        · exact List.forall_mem_cons.2 ⟨⟨e, rfl⟩, hok⟩
      · rw [if_neg (by simp [hcall]), List.nil_append]
        refine ⟨?_, ?_, hok⟩
        · rw [List.exists_mem_cons_iff, ← hinvalid, ne_eq, List.append_eq_nil_iff, not_and_or, ← ne_eq, ← ne_eq,
            hne]
          exact or_left_comm
        · rw [List.forall_mem_append, hall]
          exact and_iff_right hfailed

end

/-- No element is taken for a failed call where no call is made, and calls that end badly leave failures. -/
def PlannedTells (t : Tools) (r : Run) (steps : List Step) : Prop :=
  (plannedCalls t r steps = [] → ∀ step ∈ steps, invalid step = false) ∧
    (Failed ((plannedCalls t r steps).map endedBadly) →
      ∀ e, .ok e ∈ plannedCalls t r steps → failedEntry e = true)

theorem plannedFailed_eq {t : Tools} {x : Exec} {facts : TurnFacts} {steps : List Step} {r : Run}
    (hkeeps : ∀ step ∈ steps, KeepsRows step) (h : Run.steps t steps (Run.begin x facts) = (r, .ok ())) :
    ∃ b, plannedFailed t x facts steps = .ok b ∧
      ((b = true ↔ Failed ((plannedCalls t (Run.begin x facts) steps).map endedBadly)) ↔
        PlannedTells t (Run.begin x facts) steps) := by
  obtain ⟨out, hout, -, hresults⟩ := Artifact.executeActions_ok h
  obtain ⟨new, hnew, hne, hall, hok⟩ := rows_of_run hkeeps h
  have hdrop : out.exec.toolResults.drop x.toolResults.length = new := by
    rw [hresults, hnew]
    exact List.drop_left
  rw [plannedFailed, hout]
  refine ⟨_, rfl, ?_⟩
  rw [hdrop, decide_eq_true_iff, List.length_filter_eq_length_iff, hne, hall, PlannedTells, Failed]
  generalize plannedCalls t (Run.begin x facts) steps = calls at hok ⊢
  have hbad : (∀ e, .ok e ∈ calls → failedEntry e = true) → ∀ bad ∈ calls.map endedBadly, bad = true := by
    intro hfailed bad hmem
    obtain ⟨c, hc, rfl⟩ := List.mem_map.1 hmem
    obtain ⟨e, rfl⟩ := hok c hc
    rw [endedBadly, hfailed e hc, Bool.true_or]
  by_cases hnil : calls = []
  · simp [hnil]
  · simp only [hnil, List.map_eq_nil_iff, ne_eq, not_false_eq_true, true_or, true_and, false_imp_iff]
    exact ⟨fun h => h.2, fun h => ⟨hbad, h⟩⟩

/-! ### The status of a pass -/

namespace NodePass

/-- What the pass raises: an action, or the gate on a row, or else what saves and records it. -/
def raises (n : NodePass) : Option Raise :=
  match if n.hasPlannedActions then (executeActions n.tools n.steps (Run.begin n.exec n.facts)).2
    else (filterToolObservations n.staged.digit n.staged.state n.staged.observations).map fun _ => () with
  | .error e => some e
  | .ok () => n.rest

/-- The pass tells whether it has failed: by an exception that is no control signal; or by its rows, which on
    the planned path are those of its calls, and on the staged path are counted together with the rows of
    before that nothing has replaced. -/
def Tells (n : NodePass) : Prop :=
  match n.raises with
  | some e => isControl e = false ↔ Failed n.calls
  | none =>
    if n.hasPlannedActions = true then PlannedTells n.tools (Run.begin n.exec n.facts) n.steps
    else ∀ kept, filterToolObservations n.staged.digit n.staged.state n.staged.observations = .ok kept →
      (Failed n.calls ↔ CountedFailed n.staged.selectedTools (n.staged.rows kept))

end NodePass

theorem settle_error {e : Raise} (rest : Option Raise) :
    settle (.error e) rest = .toolFailed ↔ isControl e = false := by
  rw [settle]
  split_ifs with h <;> simp [h]

theorem settle_rest (b : Bool) (e : Raise) : settle (.ok b) (some e) = .toolFailed ↔ isControl e = false := by
  cases b <;> exact settle_error none

theorem settle_ok (b : Bool) : settle (.ok b) none = .toolFailed ↔ b = true := by
  cases b <;> simp [settle]

/-- A pass without stages. -/
def noStages : Staged where
  digit := fun _ => none
  state := {}
  selectedTools := []
  stages := []
  outcomes := fun _ _ _ => .raised []
  completion := .listed
  setAside := .listed

/-- A plan that reads a file. -/
def readPass : NodePass where
  tools := Artifact.plainTools
  exec := Artifact.oneFile "old".toList
  actions := [some (Artifact.onNote .readArtifact [])]
  staged := noStages

/-- The only tool of a pass goes well, while another one has failed before. -/
def staleFailure : NodePass where
  tools := Artifact.plainTools
  exec := Artifact.oneFile "old".toList
  staged := { noStages with
    state := { toolResults := [((PyDict.empty.put "tool" (.str "grep_file".toList)).put "status"
      (.str "error".toList)).put "error" (.str "no such file".toList)] }
    selectedTools := ["read_file".toList]
    stages := [["read_file".toList]]
    outcomes := fun _ _ tool => .row ((PyDict.empty.put "tool" (.str tool)).put "result"
      (.other "\x7b'status': 'ok'\x7d".toList true)) false }

end AgentLangraph.PassStatus
