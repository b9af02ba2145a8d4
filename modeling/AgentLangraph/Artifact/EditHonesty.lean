import AgentLangraph.Artifact.Steps

/-! What `turn_facts.edit_applied` says of a turn. An edit counts as applied by the replacements that it
    reports, which is not the same as a text that has changed:

        edit with a target     counts when it replaces        changes unless dry, or by itself
        edit without a target  never counts                   changes what it writes over -/

namespace AgentLangraph.Artifact
open PyText

/-- An edit that is come to, in the state it is come to in. -/
structure Attempted where
  run : Run
  step : Step
  params : Params

def Run.edit? (r : Run) (step : Step) : Option Attempted :=
  match step.planned.action with
  | .ok ⟨.editArtifact, p⟩ => some ⟨r, step, callParams r.exec.turn p⟩
  | _ => none

/-- The edits of a run, in order. -/
def editsFrom (t : Tools) : Run → List Step → List Attempted
  | _, [] => []
  | r, step :: steps => (r.edit? step).toList ++ editsFrom t (Run.step t step r).1 steps

namespace Attempted

/-- The disk that an edit finds. -/
def disk (e : Attempted) : Disk := (e.run.exec.ws.at e.step.now).disk

/-- The file that the edit names. -/
def path (e : Attempted) : Option Path := (target e.params).map fun f => filePath f.1 f.2

/-- The edit leaves its file with another text than it finds there. -/
def Changed (t : Tools) (e : Attempted) : Prop :=
  ∃ path, e.path = some path ∧
    (Run.step t e.step e.run).1.exec.ws.disk.stored path ≠ e.run.exec.ws.disk.stored path

/-- The edit has a target, goes through, and does not pass over all that it is asked for. -/
def counted (t : Tools) (e : Attempted) : Bool :=
  editHasTarget e.params && (editPlan t e.params e.disk).isSome &&
    (e.params.edits.isEmpty || e.params.edits.any effective)

/-- What a write of some text leaves in a file. -/
def leftBy (t : Tools) (fence : Fence) (p : Params) (d : Disk) (path : Path) : Option Text :=
  match writePlan t fence p d with
  | some w => (w.after t d).stored path
  | none => d.stored path

/-- The edit puts another text into its file: one that it has made of the text there, or one that is
    written over it. -/
def PutsOther (t : Tools) (e : Attempted) : Prop :=
  ∃ path, e.path = some path ∧
    if editHasTarget e.params = true then
      ∃ plan, editPlan t e.params e.disk = some plan ∧ dryRun e.params = false ∧
        e.disk.stored path ≠ some plan.updated
    else
      match resolveWriteContent t e.step.supply e.run.exec.turn e.params e.disk with
      | (d, .ok content) =>
        leftBy t (some e.run.exec.fence) (e.params.withContent content) d path ≠ e.disk.stored path
      | (d, .error _) => d.stored path ≠ e.disk.stored path

end Attempted

/-- No edit counts wrongly; or some edit neither counts nor changes a text; or errors of both kinds make
    up for each other. Where no edit is attempted, the facts say it already. -/
def CountsRight (t : Tools) (facts : TurnFacts) (edits : List Attempted) : Prop :=
  if edits = [] then facts.editApplied = some true
  else
    (∃ e ∈ edits, e.counted t = false ∧ ¬ e.PutsOther t) ∨
      ((∃ e ∈ edits, e.counted t = true ∧ ¬ e.PutsOther t) ↔
        ∃ e ∈ edits, e.counted t = false ∧ e.PutsOther t)

/-! ### One edit -/

section
variable {t : Tools} {step : Step} {r : Run} {p : Params}

theorem of_checked {cfg : Settings} {edited : Except Raise (Text × ℕ)} {x : Text × ℕ}
    (h : (edited >>= fun r => checkSize cfg r.1 0 >>= fun _ => Except.ok r) = .ok x) : edited = .ok x := by
  cases edited with
  | error e => cases h
  | ok y =>
    change (checkSize cfg y.1 0 >>= fun _ => Except.ok y) = _ at h
    cases hsize : checkSize cfg y.1 0 with
    | error e =>
      rw [hsize] at h
      cases h
    | ok _ =>
      rw [hsize] at h
      exact h

theorem one_le_singleEdit {m : Matcher} {original : Text} {startLine endLine occurrenceIndex : Option ℤ}
    {x : Text × ℕ} (h : singleEdit m p original startLine endLine occurrenceIndex = .ok x) : 1 ≤ x.2 := by
  unfold singleEdit at h
  by_cases hnone : optional p "old_text" = [] ∧ startLine = none ∧ endLine = none
  · have herror := (if_pos hnone).symm.trans h
    cases herror
  · exact one_le_applyPrecisionEdit ((if_neg hnone).symm.trans h)

/-- A plan replaces something unless every edit is passed over. -/
theorem one_le_replacements_iff {d : Disk} {plan : EditPlan} (h : editPlan t p d = some plan) :
    1 ≤ plan.replacements ↔ (p.edits.isEmpty || p.edits.any effective) = true := by
  obtain ⟨-, -, -, _, _, _, -, -, -, hedited⟩ := editPlan_eq_some_iff.1 h
  rw [editedText] at hedited
  split_ifs at hedited with hedits
  · have hdone := of_checked hedited
    have hempty : p.edits.isEmpty = false := by simpa using hedits
    rw [hempty, Bool.false_or]
    cases hany : p.edits.any effective with
    | true =>
      have hpos : 0 < p.edits.countP effective := List.countP_pos_iff.2 (List.any_eq_true.1 hany)
      have hle := le_applyBatchEdits hdone
      exact iff_of_true (by change 0 + _ ≤ plan.replacements at hle; omega) rfl
    | false =>
      have hzero : p.edits.countP effective = 0 := by
        rw [List.countP_eq_zero]
        intro b hb heff
        have hsome := List.any_eq_true.2 ⟨b, hb, heff⟩
        rw [hany] at hsome
        cases hsome
      rw [applyBatchEdits_of_none _ hzero, Except.ok.injEq, Prod.mk.injEq] at hdone
      exact iff_of_false (by rw [← hdone.2]; decide) nofun
  · have hempty : p.edits.isEmpty = true := by simpa using hedits
    exact iff_of_true (one_le_singleEdit (of_checked hedited)) (by rw [hempty]; rfl)

theorem not_applied_of_status {r : Result} (h : r.status = "error".toList) :
    isEditApplied (some r) = false := by
  rw [isEditApplied, h]
  rfl

theorem not_applied_raised (tool : Text) (ty : ActionType) (e : Raise) :
    isEditApplied (raisedEntry tool ty e).result = false := by
  cases e <;> rfl

/-- An edit without a target reports no replacement, whatever it writes. -/
theorem executeImprecise_of_text {x : Exec} {ws : Workspace} {d : Disk} {content : Text}
    (h : resolveWriteContent t step.supply x.turn p ws.disk = (d, .ok content)) :
    ∃ d' e, executeImprecise t step.supply x p ws = ({ ws with disk := d' }, .ok e) ∧
      isEditApplied e.result = false ∧
      ∀ path, d'.stored path = Attempted.leftBy t (some x.fence) (p.withContent content) d path := by
  rw [executeImprecise, Attempt.bind_ok (onDisk_eq h)]
  simp only [Attempted.leftBy]
  cases hplan : writePlan t (some x.fence) (p.withContent content) d with
  | some w =>
    obtain ⟨r, hr, -, hreplaced, -⟩ := handleWrite_of_plan hplan
    refine ⟨_, _, entryOf_ok (onDisk_eq hr), ?_, fun _ => rfl⟩
    simp [okEntry, isEditApplied, hreplaced]
  | none =>
    obtain ⟨d', r, hr, hfiles, herror⟩ := handleWrite_of_none hplan
    have hstored : ∀ path, d'.stored path = d.stored path := fun path => by
      rw [Disk.stored, hfiles, Disk.stored]
    cases r with
    | ok res =>
      refine ⟨_, _, entryOf_ok (onDisk_eq hr), ?_, hstored⟩
      exact not_applied_of_status (herror res rfl).1
    | error e => exact ⟨_, _, entryOf_error (onDisk_eq hr), not_applied_raised .., hstored⟩

end

theorem edit?_eq_some_iff {r : Run} {step : Step} {e : Attempted} : r.edit? step = some e ↔
    ∃ p, step.planned.action = .ok ⟨.editArtifact, p⟩ ∧ e = ⟨r, step, callParams r.exec.turn p⟩ := by
  rw [Run.edit?]
  split
  · rename_i p hact
    rw [hact]
    constructor
    · intro h
      exact ⟨p, rfl, (Option.some.inj h).symm⟩
    · rintro ⟨q, hq, rfl⟩
      cases hq
      rfl
  · rename_i hact
    exact iff_of_false nofun fun ⟨p, hp, _⟩ => hact p hp

theorem mem_editsFrom {t : Tools} {r : Run} {step : Step} {e : Attempted} (h : r.edit? step = some e)
    (steps : List Step) : e ∈ editsFrom t r (step :: steps) := by
  rw [editsFrom, h]
  exact List.mem_append_left _ List.mem_cons_self

/-- The counters after an edit. -/
theorem counters_of_entry {t : Tools} {step : Step} {a : Action} {r r' : Run} {ws : Workspace} {e : Entry}
    (hact : step.planned.action = .ok a) (hty : a.type = .editArtifact)
    (hentry : executeEntry t step r.exec a (r.exec.ws.at step.now) = (ws, .ok e))
    (h : Run.step t step r = (r', .ok ())) :
    r'.exec.ws = ws ∧ r'.attempted = r.attempted + 1 ∧
      r'.applied = r.applied + if isEditApplied e.result = true then 1 else 0 := by
  rw [step_eq_execute hact (Or.inl (by rw [hty]; rfl)), execute_ok hentry] at h
  cases h
  refine ⟨rfl, if_pos hty, ?_⟩
  change (if a.type = .editArtifact ∧ isEditApplied e.result = true then r.applied + 1 else r.applied) = _
  rw [hty]
  split_ifs <;> simp_all

theorem changed_iff {t : Tools} {step : Step} {r r' : Run} {p : Params} {ws : Workspace}
    (h : Run.step t step r = (r', .ok ())) (hws : r'.exec.ws = ws) :
    Attempted.Changed t ⟨r, step, p⟩ ↔ ∃ path, Attempted.path ⟨r, step, p⟩ = some path ∧
      ws.disk.stored path ≠ r.exec.ws.disk.stored path := by
  rw [Attempted.Changed]
  dsimp only
  rw [h, hws]

/-- What an edit with a target comes to. -/
theorem precise_step {t : Tools} {step : Step} {r r' : Run} {p : Params}
    (hact : step.planned.action = .ok ⟨.editArtifact, p⟩)
    (htarget : editHasTarget (callParams r.exec.turn p) = true) (h : Run.step t step r = (r', .ok ())) :
    (Attempted.Changed t ⟨r, step, callParams r.exec.turn p⟩ ↔
        Attempted.PutsOther t ⟨r, step, callParams r.exec.turn p⟩) ∧
      r'.attempted = r.attempted + 1 ∧ r'.applied =
        r.applied + if Attempted.counted t ⟨r, step, callParams r.exec.turn p⟩ = true then 1 else 0 := by
  have hentry : executeEntry t step r.exec ⟨.editArtifact, p⟩ = executePrecise t (callParams r.exec.turn p) :=
    executeEntry_precise rfl htarget
  set q := callParams r.exec.turn p with hq
  cases hplan : editPlan t q (r.exec.ws.at step.now).disk with
  | some plan =>
    obtain ⟨hws, hattempted, happlied⟩ := counters_of_entry hact rfl
      ((congrFun hentry _).trans (executePrecise_of_plan hplan)) h
    have hpath : Attempted.path ⟨r, step, q⟩ = some plan.path := by
      rw [Attempted.path, (editPlan_eq_some_iff.1 hplan).1]
      rfl
    refine ⟨?_, hattempted, ?_⟩
    · rw [changed_iff h hws, Attempted.PutsOther, hpath]
      simp only [Option.some.injEq, exists_eq_left', Attempted.disk, hplan, after_stored, at_stored]
      rw [if_pos htarget]
      cases dryRun q with
      | true => simp
      | false => simp [eq_comm]
    · have hcounted : isEditApplied (some (plan.result q)) = Attempted.counted t ⟨r, step, q⟩ := by
        have hsome : (editPlan t q (Attempted.disk ⟨r, step, q⟩)).isSome = true := by
          rw [Attempted.disk, hplan]
          rfl
        rw [Attempted.counted, htarget, hsome, Bool.true_and, Bool.true_and, Bool.eq_iff_iff,
          ← one_le_replacements_iff hplan]
        simp only [isEditApplied, EditPlan.result, Option.getD_some, decide_true, Bool.true_and]
        exact decide_eq_true_iff
      rw [happlied, ← hcounted]
      rfl
  | none =>
    obtain ⟨d, ex, hraised, hfiles⟩ := executePrecise_of_none hplan
    obtain ⟨hws, hattempted, happlied⟩ := counters_of_entry hact rfl ((congrFun hentry _).trans hraised) h
    refine ⟨?_, hattempted, ?_⟩
    · rw [changed_iff h hws, Attempted.PutsOther]
      refine iff_of_false ?_ ?_
      · rintro ⟨path, -, hne⟩
        exact hne (by rw [Disk.stored, hfiles]; rfl)
      · rintro ⟨path, -, hputs⟩
        rw [if_pos htarget] at hputs
        obtain ⟨plan, hsome, -⟩ := hputs
        rw [Attempted.disk, hplan] at hsome
        cases hsome
    · have hcounted : Attempted.counted t ⟨r, step, q⟩ = false := by
        rw [Attempted.counted, Attempted.disk, hplan, Option.isSome_none, Bool.and_false, Bool.false_and]
      rw [happlied, hcounted, not_applied_raised]

/-- What an edit without a target comes to. -/
theorem imprecise_step {t : Tools} {step : Step} {r r' : Run} {p : Params}
    (hact : step.planned.action = .ok ⟨.editArtifact, p⟩)
    (htarget : ¬ editHasTarget (callParams r.exec.turn p) = true) (h : Run.step t step r = (r', .ok ())) :
    (Attempted.Changed t ⟨r, step, callParams r.exec.turn p⟩ ↔
        Attempted.PutsOther t ⟨r, step, callParams r.exec.turn p⟩) ∧
      r'.attempted = r.attempted + 1 ∧ r'.applied =
        r.applied + if Attempted.counted t ⟨r, step, callParams r.exec.turn p⟩ = true then 1 else 0 := by
  have hentry : executeEntry t step r.exec ⟨.editArtifact, p⟩ =
      executeImprecise t step.supply r.exec (callParams r.exec.turn p) :=
    executeEntry_imprecise rfl htarget
  set q := callParams r.exec.turn p with hq
  rcases hr : resolveWriteContent t step.supply r.exec.turn q (r.exec.ws.at step.now).disk with ⟨d, e | content⟩
  · have hraised := (congrFun hentry _).trans (Attempt.bind_error (onDisk_eq hr) _)
    rw [step_eq_execute hact (Or.inl rfl), execute_error hraised] at h
    cases h
  · obtain ⟨d', e, hdone, hnot, hleft⟩ := executeImprecise_of_text hr
    obtain ⟨hws, hattempted, happlied⟩ := counters_of_entry hact rfl ((congrFun hentry _).trans hdone) h
    refine ⟨?_, hattempted, ?_⟩
    · rw [changed_iff h hws, Attempted.PutsOther]
      simp only [if_neg htarget, Attempted.disk, hr, at_stored, hleft]
    · have hcounted : Attempted.counted t ⟨r, step, q⟩ = false := by
        rw [Attempted.counted, Bool.eq_false_iff.2 htarget, Bool.false_and, Bool.false_and]
      rw [happlied, hcounted, hnot]

/-- STEP: an edit changes its file when it puts another text there, and is counted. -/
theorem edit_step {t : Tools} {step : Step} {r r' : Run} {e : Attempted} (he : r.edit? step = some e)
    (h : Run.step t step r = (r', .ok ())) :
    (e.Changed t ↔ e.PutsOther t) ∧ r'.attempted = r.attempted + 1 ∧
      r'.applied = r.applied + if e.counted t = true then 1 else 0 := by
  obtain ⟨p, hact, rfl⟩ := edit?_eq_some_iff.1 he
  by_cases htarget : editHasTarget (callParams r.exec.turn p) = true
  · exact precise_step hact htarget h
  · exact imprecise_step hact htarget h

/-- STEP: no other action is counted. -/
theorem other_step {t : Tools} {step : Step} {r r' : Run} (hother : r.edit? step = none)
    (h : Run.step t step r = (r', .ok ())) : r'.attempted = r.attempted ∧ r'.applied = r.applied := by
  rcases step_cases h with ⟨ex, -, rfl⟩ | ⟨a, ws, e, hact, -, -, rfl⟩ | ⟨a, -, -, rfl⟩ |
    ⟨p, x, facts, status, -, -, rfl⟩
  · exact ⟨rfl, rfl⟩
  · have hne : a.type ≠ .editArtifact := by
      intro hedit
      rw [(edit?_eq_some_iff (e := ⟨r, step, callParams r.exec.turn a.params⟩)).2
        ⟨a.params, by rw [hact, ← hedit], rfl⟩] at hother
      cases hother
    exact ⟨if_neg hne, if_neg fun hedit => hne hedit.1⟩
  · exact ⟨rfl, rfl⟩
  · exact ⟨rfl, rfl⟩

/-- RUN: the counters count the edits, and the ones that are counted as applied. -/
theorem counters_of_run {t : Tools} : ∀ {steps : List Step} {r r' : Run},
    Run.steps t steps r = (r', .ok ()) →
    r'.attempted = r.attempted + (editsFrom t r steps).length ∧
      r'.applied = r.applied + (editsFrom t r steps).countP (Attempted.counted t) ∧
      ∀ e ∈ editsFrom t r steps, (e.Changed t ↔ e.PutsOther t)
  | [], r, r', h => by
      cases h
      exact ⟨rfl, rfl, by simp [editsFrom]⟩
  | step :: steps, r, r', h => by
      rcases hstep : Run.step t step r with ⟨r₁, e | u⟩
      · rw [Run.steps, Attempt.forEach_cons_error hstep] at h
        cases h
      rw [Run.steps, Attempt.forEach_cons_ok hstep] at h
      obtain ⟨hattempted, happlied, hrest⟩ := counters_of_run h
      rw [editsFrom, hstep]
      cases hedit : r.edit? step with
      | some e =>
        obtain ⟨hchanged, hattempted₁, happlied₁⟩ := edit_step hedit hstep
        simp only [Option.toList_some, List.singleton_append, List.length_cons, List.countP_cons,
          List.forall_mem_cons]
        refine ⟨by omega, by omega, hchanged, hrest⟩
      | none =>
        obtain ⟨hattempted₁, happlied₁⟩ := other_step hedit hstep
        simp only [Option.toList_none, List.nil_append]
        refine ⟨by omega, by omega, hrest⟩

/-! ### The turn -/

theorem annotateWriteHonesty_editApplied (facts : TurnFacts) (rows : List Entry) :
    (annotateWriteHonesty facts rows).editApplied = facts.editApplied := by
  rw [annotateWriteHonesty]
  split_ifs <;> rfl

/-- What the facts say in the end: what the counters say, if they have counted anything. -/
theorem editApplied_of_run {t : Tools} {steps : List Step} {x : Exec} {facts : TurnFacts} {r out : Run}
    (hrun : Run.steps t steps (Run.begin x facts) = (r, .ok ()))
    (h : executeActions t steps (Run.begin x facts) = (out, .ok ())) :
    out.facts.editApplied =
      if r.attempted = 0 then r.facts.editApplied else some (decide (r.applied = r.attempted)) := by
  rw [executeActions] at h
  split_ifs at h with hnil
  · subst hnil
    cases hrun
    cases h
    rfl
  · rw [Attempt.bind_ok hrun] at h
    cases h
    change (annotateWriteHonesty r.countedFacts r.results).editApplied = _
    rw [annotateWriteHonesty_editApplied, Run.countedFacts]
    dsimp only
    split_ifs <;> rfl

/-- Two properties hold of all elements together exactly when an element has neither, or when each fails
    alone somewhere if the other does. -/
theorem all_iff_all_iff {α : Type} {l : List α} {C P : α → Prop} :
    ((∀ a ∈ l, C a) ↔ ∀ a ∈ l, P a) ↔
      (∃ a ∈ l, ¬ C a ∧ ¬ P a) ∨ ((∃ a ∈ l, C a ∧ ¬ P a) ↔ ∃ a ∈ l, ¬ C a ∧ P a) := by
  by_cases hneither : ∃ a ∈ l, ¬ C a ∧ ¬ P a
  · obtain ⟨a, ha, hc, hp⟩ := hneither
    exact iff_of_true (iff_of_false (fun h => hc (h a ha)) fun h => hp (h a ha)) (Or.inl ⟨a, ha, hc, hp⟩)
  · have hone : ∀ a ∈ l, C a ∨ P a := fun a ha => by
      by_contra hno
      rw [not_or] at hno
      exact hneither ⟨a, ha, hno⟩
    have hover : (∃ a ∈ l, C a ∧ ¬ P a) ↔ ¬ ∀ a ∈ l, P a := by
      push Not
      exact ⟨fun ⟨a, ha, _, hp⟩ => ⟨a, ha, hp⟩, fun ⟨a, ha, hp⟩ => ⟨a, ha, (hone a ha).resolve_right hp, hp⟩⟩
    have hunder : (∃ a ∈ l, ¬ C a ∧ P a) ↔ ¬ ∀ a ∈ l, C a := by
      push Not
      exact ⟨fun ⟨a, ha, hc, _⟩ => ⟨a, ha, hc⟩, fun ⟨a, ha, hc⟩ => ⟨a, ha, hc, (hone a ha).resolve_left hc⟩⟩
    rw [or_iff_right hneither, hover, hunder, not_iff_not]
    exact Iff.comm

/-- An edit of the file. -/
def replaceOld (more : List (Text × PyVal)) : Step :=
  onNote .editArtifact ([("old_text".toList, PyVal.str "old".toList), ("new_text".toList, PyVal.str "new".toList)] ++ more)

def replaced : Run × Except Raise Unit :=
  executeActions plainTools [replaceOld []] (Run.begin (oneFile "old".toList) {})

def dryEdit : Step := replaceOld [("dry_run".toList, .bool true)]

def dryRunDone : Run × Except Raise Unit :=
  executeActions plainTools [dryEdit] (Run.begin (oneFile "old".toList) {})

end AgentLangraph.Artifact
