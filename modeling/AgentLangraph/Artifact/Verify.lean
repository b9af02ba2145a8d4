import AgentLangraph.Lib.PyVal

/-! The compile loop over the code of an answer (`code_artifact_pipeline.py`, `code_verify/pipeline.py`): verify, and
    where that fails let the model repair the code, up to `max_attempts` times. A report remembers the code it is
    about. The last repair is delivered without another look at it:

        items₀ ──verify✗──▶ repair ──▶ items₁ ──verify✗──▶ repair ──▶ items₂      reports: of items₁ -/

namespace AgentLangraph.Artifact.Verify
open PyText

/-! ### Artifacts -/

/-- An entry of `structured["artifacts"]`. -/
inductive Entry where
  | dict (fields : Fields)
  | other (v : PyVal)

/-- `str(d.get(key) or default)`. -/
def textOr (d : Fields) (key default : String) : Text := ((d.field key).orElse (.str default.toList)).toText

/-- `t.lower()`, as far as it is compared with ASCII words: no other character has one of their letters for its
    lower case. -/
def lowered (t : Text) : Text := t.map Char.toLower

def isCode (d : Fields) : Bool := lowered (textOr d "kind" "") = "code".toList

def Entry.code : Entry → Option Fields
  | .dict d => if isCode d then some d else none
  | .other _ => none

def iterCodeArtifacts (artifacts : List Entry) : List Fields := artifacts.filterMap Entry.code

/-- What the verifier reads of an artifact. -/
structure Source where
  language : Text
  content : Text
  deriving DecidableEq

def sourceOf (d : Fields) : Source := ⟨textOr d "language" "cpp", textOr d "content" ""⟩

/-! ### Reports -/

structure VerifyResult where
  ok : Bool
  backend : Text := []
  stage : Text
  language : Text
  stderr : Text := []
  issues : List Text := []
  skippedReason : Text := []

/-- A result, and the code it is about. -/
structure Report where
  about : Source
  result : VerifyResult

/-- An answer of the model: `artifacts` of the JSON object and of its `structured`, as far as these are lists. -/
structure Answer where
  artifacts : Option (List Entry)
  nested : Option (List Entry)

structure VerifyConfig where
  enabled : Bool
  onFailure : Text
  maxAttempts : ℤ
  repairEnabled : Bool
  resolveBackendId : Text → Option Text
  /-- `get_backend(backend_id) is not None`. -/
  configured : Text → Bool

/-- What the compilers find, for each attempt and each place in the list, and what the model answers; `none` is no
    model, an error, or an answer that cannot be read. -/
structure World where
  verifySource : ℕ → ℕ → Source → Option Text → VerifyResult
  answers : ℕ → Option Answer

/-- What the loop reads and writes of `structured`. -/
structure Structured where
  artifacts : List Entry
  codeVerifyOk : Option Bool := none
  codeVerifyReports : Option (List Report) := none
  codeVerifyFailed : Bool := false
  codeVerifyDegraded : Bool := false
  degradedReason : Text := []
  repaired : Bool := false
  repairFailed : Bool := false

/-- The turn: its own fields, `input_payload` and `route_audit`. -/
structure TurnState where
  fields : Fields := .empty
  payload : Fields := .empty
  audit : Fields := .empty

section Functions
variable (cfg : VerifyConfig) (w : World)

/-- One round of `verify_code_artifacts`. -/
def verifyArtifact (attempt place : ℕ) (src : Source) : VerifyResult :=
  if strip src.content = [] then
    { ok := false, stage := "skipped".toList, language := src.language,
      issues := ["empty_content".toList], skippedReason := "empty_content".toList }
  else
    match cfg.resolveBackendId src.language with
    | none => w.verifySource attempt place src none
    | some bid =>
      if bid ≠ [] ∧ cfg.configured bid = false then
        { ok := true, backend := bid, stage := "skipped".toList, language := src.language,
          skippedReason := "backend_not_configured".toList }
      else w.verifySource attempt place src (some bid)

def verifyCodeArtifacts (attempt : ℕ) (artifacts : List Fields) : List Report :=
  (artifacts.filter isCode).zipIdx.map fun p =>
    ⟨sourceOf p.1, verifyArtifact cfg w attempt p.2 (sourceOf p.1)⟩

def verifyReportsAllOk (reports : List Report) : Bool := reports.all fun r => r.result.ok

/-- What a report adds to the summary. -/
def stderrOf (r : VerifyResult) : Option Text :=
  if r.ok then none
  else if r.stderr ≠ [] then some ((strip r.stderr).take 6000)
  else if r.issues ≠ [] then some (List.intercalate "; ".toList r.issues)
  else none

def compileStderrSummary (reports : List Report) : Text :=
  (List.intercalate "\n\n".toList (reports.filterMap fun r => stderrOf r.result)).take 8000

/-- A repaired artifact. -/
def repairedItem (lang : Text) : Entry → Option Fields
  | .other _ => none
  | .dict d =>
    if strip (textOr d "content" "") = [] then none
    else some (((PyDict.empty.put "kind" (.str "code".toList)).put "language"
      (.str ((d.field "language").orElse (.str lang)).toText)).put "content" (.str (textOr d "content" "")))

def repairArtifactsViaLlm (lang compileErrors : Text) (answer : Option Answer) : Option (List Fields) :=
  if strip compileErrors = [] then none
  else
    match (answer.bind fun a => a.artifacts.or a.nested).map (List.filterMap (repairedItem lang)) with
    | none | some [] => none
    | some out => some out

def replaceCodeArtifacts (s : Structured) (repaired : List Fields) : Structured :=
  { s with artifacts := s.artifacts.filter (fun a => a.code.isNone) ++ repaired.map Entry.dict }

def allowFailedCodeFallback (state : TurnState) (s : Structured) : Bool :=
  let inferredKind := lowered (textOr state.audit "inferred_kind" "")
  let profile := lowered ((state.payload.field "artifact_profile").orElse
    ((state.audit.field "artifact_profile").orElse (.str []))).toText
  let risk := ((state.fields.field "risk_level").orElse
    ((state.payload.field "risk_level").orElse (.str "LOW".toList))).toText.map Char.toUpper
  risk = "LOW".toList && s.codeVerifyOk ≠ some true &&
    (inferredKind = [] || inferredKind = "code".toList || inferredKind = "qa".toList) &&
    (profile = [] || profile = "source_code".toList)

/-- The reports have passed. -/
def passed (s : Structured) (reports : List Report) : Structured :=
  { s with
    codeVerifyOk := some true, codeVerifyReports := some reports
    codeVerifyFailed := false, codeVerifyDegraded := false }

/-- After the last attempt. -/
def finish (state : TurnState) (s : Structured) (reports : List Report) : Structured :=
  let s := { s with codeVerifyOk := some false, codeVerifyReports := some reports, codeVerifyFailed := true }
  if allowFailedCodeFallback state s then
    { s with codeVerifyDegraded := true, degradedReason := "low_risk_code_answer".toList }
  else s

/-- The attempts that are left, from one of them on. -/
def verifyLoop (state : TurnState) (lang : Text) :
    ℕ → ℕ → Structured → List Fields → List Report → Structured
  | 0, _, s, _, reports => finish state s reports
  | left + 1, attempt, s, items, _ =>
    let reports := verifyCodeArtifacts cfg w attempt items
    if verifyReportsAllOk reports then passed s reports
    else if cfg.onFailure ≠ "repair".toList ∨ cfg.repairEnabled = false then finish state s reports
    else
      match repairArtifactsViaLlm lang (compileStderrSummary reports) (w.answers attempt) with
      | none => finish state { s with repairFailed := true } reports
      | some repaired =>
        verifyLoop state lang left (attempt + 1) { replaceCodeArtifacts s repaired with repaired := true }
          repaired reports

/-- `max(1, max_attempts) - 1`. -/
def lastAttempt : ℕ := (max 1 cfg.maxAttempts).toNat - 1

def langOf (codeItems : List Fields) : Text := (codeItems.head?.map fun d => textOr d "language" "cpp").getD []

/-- `_run_compile_verify_loop`. -/
def runCompileVerifyLoop (state : TurnState) (s : Structured) (codeItems : List Fields) : Structured :=
  if cfg.enabled = false ∨ codeItems = [] then s
  else verifyLoop cfg w state (langOf codeItems) (lastAttempt cfg + 1) 0 s codeItems []

/-! ### Reports and code in step -/

/-- The code is verified at all. -/
def Verifies (s : Structured) : Prop := cfg.enabled = true ∧ iterCodeArtifacts s.artifacts ≠ []

/-- The repair that follows an attempt. -/
def repairAfter (lang : Text) (attempt : ℕ) (items : List Fields) : Option (List Fields) :=
  let reports := verifyCodeArtifacts cfg w attempt items
  if verifyReportsAllOk reports ∨ cfg.onFailure ≠ "repair".toList ∨ cfg.repairEnabled = false then none
  else repairArtifactsViaLlm lang (compileStderrSummary reports) (w.answers attempt)

/-- The code that is looked at some attempts later, if it comes to that. -/
def itemsAfter (lang : Text) : ℕ → ℕ → List Fields → Option (List Fields)
  | 0, _, items => some items
  | n + 1, attempt, items => (repairAfter cfg w lang attempt items).bind (itemsAfter lang n (attempt + 1))

end Functions

/-- The reports are about the code that is there, and the verdict is theirs. -/
structure InStep (s : Structured) : Prop where
  about : ∀ reports, s.codeVerifyReports = some reports →
    reports.map Report.about = (iterCodeArtifacts s.artifacts).map sourceOf
  verdict : ∀ reports, s.codeVerifyReports = some reports →
    (s.codeVerifyOk = some true ↔ ∀ r ∈ reports, r.result.ok = true)

/-- Where the last attempt is followed by a repair, the code stays as it was. -/
def LastRepairIdle (cfg : VerifyConfig) (w : World) (lang : Text) (left attempt : ℕ) (items : List Fields) : Prop :=
  ∀ last repaired, itemsAfter cfg w lang left attempt items = some last →
    repairAfter cfg w lang (attempt + left) last = some repaired → repaired.map sourceOf = last.map sourceOf

section Loop
variable {cfg : VerifyConfig} {w : World} {state : TurnState} {lang : Text}

theorem isCode_repaired {e : Entry} {d : Fields} (h : repairedItem lang e = some d) : isCode d = true := by
  cases e with
  | other v => cases h
  | dict fields =>
    rw [repairedItem] at h
    split_ifs at h
    rw [← Option.some.inj h, isCode, textOr, PyDict.field_put_ne _ (by decide), PyDict.field_put_ne _ (by decide),
      PyDict.field_put_self]
    decide

theorem code_of_repair {compileErrors : Text} {answer : Option Answer} {repaired : List Fields}
    (h : repairArtifactsViaLlm lang compileErrors answer = some repaired) : ∀ d ∈ repaired, isCode d = true := by
  rw [repairArtifactsViaLlm] at h
  split_ifs at h
  split at h
  · cases h
  · cases h
  · rename_i out _ hout
    obtain ⟨entries, -, rfl⟩ := Option.map_eq_some_iff.1 hout
    rw [← Option.some.inj h]
    intro d hd
    obtain ⟨e, -, he⟩ := List.mem_filterMap.1 hd
    exact isCode_repaired he

/-- What has been repaired is the code that is there. -/
theorem iterCodeArtifacts_replace (s : Structured) {repaired : List Fields} (h : ∀ d ∈ repaired, isCode d = true) :
    iterCodeArtifacts (replaceCodeArtifacts s repaired).artifacts = repaired := by
  rw [iterCodeArtifacts, replaceCodeArtifacts, List.filterMap_append, List.filterMap_map]
  have hrest : (s.artifacts.filter fun a => a.code.isNone).filterMap Entry.code = [] := by
    rw [List.filterMap_eq_nil_iff]
    intro a ha
    exact Option.isNone_iff_eq_none.1 (List.mem_filter.1 ha).2
  have hnew : repaired.filterMap (Entry.code ∘ Entry.dict) = repaired.filterMap some :=
    List.filterMap_congr fun d hd => if_pos (h d hd)
  rw [hrest, hnew, List.filterMap_some, List.nil_append]

/-- The reports are about the code that has been looked at. -/
theorem about_reports (attempt : ℕ) {items : List Fields} (h : ∀ d ∈ items, isCode d = true) :
    (verifyCodeArtifacts cfg w attempt items).map Report.about = items.map sourceOf := by
  rw [verifyCodeArtifacts, List.filter_eq_self.2 h, List.map_map]
  calc
    _ = (items.zipIdx.map Prod.fst).map sourceOf := by
      rw [List.map_map]
      rfl
    _ = items.map sourceOf := by rw [List.zipIdx_map_fst]

theorem code_of_iter (artifacts : List Entry) : ∀ d ∈ iterCodeArtifacts artifacts, isCode d = true := by
  intro d hd
  obtain ⟨e, -, he⟩ := List.mem_filterMap.1 hd
  cases e with
  | other v => cases he
  | dict fields =>
    rw [Entry.code] at he
    split_ifs at he with hcode
    rwa [← Option.some.inj he]

theorem inStep_passed {s : Structured} {reports : List Report} (hok : verifyReportsAllOk reports = true)
    (habout : reports.map Report.about = (iterCodeArtifacts s.artifacts).map sourceOf) : InStep (passed s reports) := by
  constructor
  · rintro _ ⟨⟩
    exact habout
  · rintro _ ⟨⟩
    exact iff_of_true rfl (List.all_eq_true.1 hok)

/-- After the last attempt, the verdict is that of the reports; they may be about other code. -/
theorem inStep_finish_iff {s : Structured} {reports : List Report} (hok : verifyReportsAllOk reports = false) :
    InStep (finish state s reports) ↔ reports.map Report.about = (iterCodeArtifacts s.artifacts).map sourceOf := by
  have hkeeps : (finish state s reports).codeVerifyReports = some reports ∧
      (finish state s reports).codeVerifyOk = some false ∧ (finish state s reports).artifacts = s.artifacts := by
    rw [finish]
    dsimp only
    split_ifs <;> exact ⟨rfl, rfl, rfl⟩
  obtain ⟨hreports, hverdict, hartifacts⟩ := hkeeps
  have hfailed : ¬ ∀ r ∈ reports, r.result.ok = true := by
    rw [← List.all_eq_true]
    exact Bool.not_eq_true _ ▸ hok
  constructor
  · intro h
    rw [← hartifacts]
    exact h.about reports hreports
  · intro h
    constructor
    · intro rs hrs
      rw [← Option.some.inj (hreports.symm.trans hrs), hartifacts, h]
    · intro rs hrs
      rw [← Option.some.inj (hreports.symm.trans hrs), hverdict]
      exact iff_of_false (by simp) hfailed

/-- One attempt: it ends the loop with the reports in step, or there is a repair to go on with. -/
theorem verifyLoop_cases (left attempt : ℕ) (s : Structured) (reports : List Report) {items : List Fields}
    (hitems : iterCodeArtifacts s.artifacts = items) :
    repairAfter cfg w lang attempt items = none ∧
      InStep (verifyLoop cfg w state lang (left + 1) attempt s items reports) ∨
    ∃ repaired, repairAfter cfg w lang attempt items = some repaired ∧ (∀ d ∈ repaired, isCode d = true) ∧
      verifyReportsAllOk (verifyCodeArtifacts cfg w attempt items) = false ∧
      verifyLoop cfg w state lang (left + 1) attempt s items reports =
        verifyLoop cfg w state lang left (attempt + 1) { replaceCodeArtifacts s repaired with repaired := true }
          repaired (verifyCodeArtifacts cfg w attempt items) := by
  have habout := @about_reports cfg w attempt items (hitems ▸ code_of_iter s.artifacts)
  rw [repairAfter, verifyLoop]
  dsimp only
  generalize verifyCodeArtifacts cfg w attempt items = reports at habout
  rw [← hitems] at habout
  by_cases hok : verifyReportsAllOk reports
  · rw [if_pos (Or.inl hok), if_pos hok]
    exact Or.inl ⟨rfl, inStep_passed hok habout⟩
  have hfailed : verifyReportsAllOk reports = false := Bool.not_eq_true _ ▸ hok
  rw [if_neg hok]
  by_cases hoff : cfg.onFailure ≠ "repair".toList ∨ cfg.repairEnabled = false
  · rw [if_pos (Or.inr hoff), if_pos hoff]
    exact Or.inl ⟨rfl, (inStep_finish_iff hfailed).2 habout⟩
  rw [if_neg (not_or.2 ⟨hok, hoff⟩), if_neg hoff]
  cases hrepair : repairArtifactsViaLlm lang (compileStderrSummary reports) (w.answers attempt) with
  | none => exact Or.inl ⟨rfl, (inStep_finish_iff hfailed).2 habout⟩
  | some repaired => exact Or.inr ⟨repaired, rfl, code_of_repair hrepair, hfailed, rfl⟩

/-- The attempts from one of them on, by induction on how many are left. -/
theorem inStep_verifyLoop_iff : ∀ (left attempt : ℕ) (s : Structured) (reports : List Report) {items : List Fields},
    iterCodeArtifacts s.artifacts = items →
    (InStep (verifyLoop cfg w state lang (left + 1) attempt s items reports) ↔
      LastRepairIdle cfg w lang left attempt items)
  | 0, attempt, s, reports, items, hitems => by
      rcases @verifyLoop_cases cfg w state lang 0 attempt s reports items hitems with
        ⟨hnone, hstep⟩ | ⟨repaired, hsome, hcode, hfailed, heq⟩
      · refine iff_of_true hstep ?_
        rintro last repaired ⟨⟩ hrepaired
        rw [Nat.add_zero, hnone] at hrepaired
        cases hrepaired
      · rw [heq, verifyLoop, inStep_finish_iff hfailed, about_reports attempt (hitems ▸ code_of_iter s.artifacts)]
        dsimp only
        rw [iterCodeArtifacts_replace s hcode]
        constructor
        · rintro hsame last other ⟨⟩ hother
          rw [Nat.add_zero, hsome] at hother
          rw [← Option.some.inj hother, hsame]
        · exact fun h => (h items repaired rfl hsome).symm
  | left + 1, attempt, s, reports, items, hitems => by
      rcases @verifyLoop_cases cfg w state lang (left + 1) attempt s reports items hitems with
        ⟨hnone, hstep⟩ | ⟨repaired, hsome, hcode, -, heq⟩
      · refine iff_of_true hstep ?_
        intro last repaired hlast
        rw [itemsAfter, hnone] at hlast
        cases hlast
      · rw [heq]
        refine (inStep_verifyLoop_iff left (attempt + 1) _ _ ?_).trans ?_
        · exact iterCodeArtifacts_replace s hcode
        · rw [LastRepairIdle, LastRepairIdle, itemsAfter, hsome, Option.bind_some, Nat.add_right_comm, Nat.add_assoc]

end Loop

/-- Reports and code are in step just where the last attempt is not followed by a repair that changes the code. -/
theorem reports_in_step_iff (cfg : VerifyConfig) (w : World) (state : TurnState) (s : Structured) :
    (Verifies cfg s → InStep (runCompileVerifyLoop cfg w state s (iterCodeArtifacts s.artifacts))) ↔
      (Verifies cfg s → LastRepairIdle cfg w (langOf (iterCodeArtifacts s.artifacts)) (lastAttempt cfg) 0
        (iterCodeArtifacts s.artifacts)) := by
  refine imp_congr_right fun hverifies => ?_
  have hruns : ¬ (cfg.enabled = false ∨ iterCodeArtifacts s.artifacts = []) := by
    rintro (hoff | hnil)
    · rw [hverifies.1] at hoff
      cases hoff
    · exact hverifies.2 hnil
  rw [runCompileVerifyLoop, if_neg hruns]
  exact inStep_verifyLoop_iff (lastAttempt cfg) 0 s [] rfl

/-- A compiler that takes nothing, and a model that answers with other code. -/
def oneAttempt : VerifyConfig := ⟨true, "repair".toList, 1, true, fun _ => none, fun _ => true⟩

def codeItem (content : String) : Fields :=
  (PyDict.empty.put "kind" (.str "code".toList)).put "content" (.str content.toList)

def stubborn : World where
  verifySource := fun _ _ src _ =>
    { ok := false, stage := "compile".toList, language := src.language, stderr := "error".toList }
  answers := fun _ => some ⟨some [.dict (codeItem "b")], none⟩

/-- One attempt: the code is `b`, the reports are about `a`. -/
theorem reports_of_replaced_code : ¬ ∀ (cfg : VerifyConfig) (w : World) (state : TurnState) (s : Structured),
    Verifies cfg s → InStep (runCompileVerifyLoop cfg w state s (iterCodeArtifacts s.artifacts)) := by
  intro h
  have habout := (h oneAttempt stubborn {} { artifacts := [.dict (codeItem "a")] } ⟨rfl, by decide⟩).about _ rfl
  exact absurd habout (by decide)

end AgentLangraph.Artifact.Verify
