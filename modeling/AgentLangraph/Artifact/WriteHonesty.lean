import AgentLangraph.Artifact.Steps
import AgentLangraph.Artifact.Reads

/-! What `turn_facts.write_verified` says of a turn (`artifact_write_honesty.py`). The rows of the turn
    tell the sizes of what was read and written, and by these a write of a file that was read is taken to
    change nothing:

        row of a read   ──▶ name, characters of the lines read ──┐
        row of a write  ──▶ name, bytes of the text written    ──┴──▶ 0, or the same number?

    Any row of the turn counts, before or after the write, and names are all that tells files apart. -/

namespace AgentLangraph.Artifact
open PyText

/-! ### The rows -/

/-- The size that the record takes from the result of a read. -/
def Result.size (r : Result) : ℕ :=
  if r.totalChars ≠ 0 then r.totalChars else utf8Len (r.rawContent.getD (r.content.getD []))

/-- A file and its size, where the file has a name. -/
def sized (name : Text) (size : ℕ) : Option (Text × ℕ) :=
  if strip name = [] then none else some (strip name, size)

/-- What the record takes from a row of a read. -/
def Entry.recorded (e : Entry) : Option (Text × ℕ) :=
  if e.tool = readTool ∧ e.wentWell = true then
    sized (e.result.getD {}).filename (e.result.getD {}).size
  else none

/-- What the record takes from a row of a write. -/
def Entry.reported (e : Entry) : Option (Text × ℕ) :=
  if e.tool = writeTool ∧ e.wentWell = true then
    some (strip (e.result.getD {}).filename, (e.result.getD {}).bytes)
  else none

/-- The write that the record goes by, the last one of a file with a recorded size: the bytes that it
    reports, and the last size that is recorded for its file. -/
def judged (recorded reported : List (Text × ℕ)) : Option (ℕ × ℕ) :=
  reported.reverse.findSome? fun w => (recorded.reverse.lookup w.1).map fun size => (w.2, size)

theorem readSizes_concat (rows : List Entry) (e : Entry) : readSizes (rows ++ [e]) =
    match e.recorded with
    | some (name, size) => (readSizes rows).set name size
    | none => readSizes rows := by
  rw [readSizes, List.foldl_append, List.foldl_cons, List.foldl_nil, ← readSizes, Entry.recorded, sized]
  by_cases hread : e.tool = readTool ∧ e.wentWell = true
  · rw [if_pos hread]
    by_cases hname : strip (e.result.getD {}).filename = []
    · rw [if_pos hname]
      exact if_neg fun h => h.2.2 hname
    · rw [if_neg hname]
      exact if_pos ⟨hread.1, hread.2, hname⟩
  · rw [if_neg hread]
    exact if_neg fun h => hread ⟨h.1, h.2.1⟩

/-- The sizes are the last ones recorded. -/
theorem readSizes_get? (rows : List Entry) (name : Text) :
    (readSizes rows).get? name = (rows.filterMap Entry.recorded).reverse.lookup name := by
  induction rows using List.reverseRecOn with
  | nil => rfl
  | append_singleton rows e ih =>
    rw [readSizes_concat, List.filterMap_append, List.reverse_append]
    cases he : e.recorded with
    | none =>
      rw [List.filterMap_cons_none he]
      exact ih
    | some record =>
      obtain ⟨known, size⟩ := record
      rw [List.filterMap_cons_some he, List.filterMap_nil, List.reverse_singleton, List.singleton_append,
        List.lookup_cons, PyDict.get?_set, ih]
      by_cases h : name = known
      · rw [h, if_pos rfl, beq_self_eq_true]
      · rw [if_neg (Ne.symm h), beq_false_of_ne h]

theorem filterMap_cons_toList {α β : Type} (f : α → Option β) (a : α) (l : List α) :
    (a :: l).filterMap f = (f a).toList ++ l.filterMap f := by
  cases ha : f a with
  | none => exact List.filterMap_cons_none ha
  | some b => exact List.filterMap_cons_some ha

theorem findSome?_filterMap {α β γ : Type} (f : α → Option β) (g : β → Option γ) (l : List α) :
    (l.filterMap f).findSome? g = l.findSome? fun a => (f a).bind g := by
  induction l with
  | nil => rfl
  | cons a l ih =>
    rw [List.findSome?_cons, ← ih]
    cases ha : f a with
    | none => rw [List.filterMap_cons_none ha, Option.bind_none]
    | some b => rw [List.filterMap_cons_some ha, List.findSome?_cons, Option.bind_some]

theorem writeUnchangedAfterRead_eq (rows : List Entry) : writeUnchangedAfterRead rows =
    ((judged (rows.filterMap Entry.recorded) (rows.filterMap Entry.reported)).map
      fun x => x.1 == 0 || 0 < x.2 && x.1 == x.2).getD false := by
  rw [writeUnchangedAfterRead, judged, ← List.filterMap_reverse (f := Entry.reported), findSome?_filterMap,
    List.map_findSome?]
  refine congrArg (fun f => (rows.reverse.findSome? f).getD false) (funext fun e => ?_)
  rw [Function.comp_apply, Entry.reported]
  dsimp only
  rw [readSizes_get?]
  split_ifs with hwrite
  · rw [Option.bind_some, Option.map_map]
    rfl
  · rfl

/-- Unchanged means that the write that the record goes by reports no bytes, or as many as recorded. -/
theorem writeUnchangedAfterRead_iff (rows : List Entry) : writeUnchangedAfterRead rows = true ↔
    match judged (rows.filterMap Entry.recorded) (rows.filterMap Entry.reported) with
    | some (bytes, size) => bytes = 0 ∨ bytes = size
    | none => False := by
  rw [writeUnchangedAfterRead_eq]
  cases judged (rows.filterMap Entry.recorded) (rows.filterMap Entry.reported) with
  | none => simp
  | some x =>
    simp only [Option.map_some, Option.getD_some, Bool.or_eq_true, Bool.and_eq_true, beq_iff_eq,
      decide_eq_true_eq]
    omega

theorem reported_isSome (e : Entry) :
    e.reported.isSome = (decide (e.tool = writeTool) && e.wentWell) := by
  rw [Entry.reported]
  split_ifs with h
  · rw [h.1, h.2, decide_eq_true rfl]
    rfl
  · rw [Bool.eq_iff_iff]
    simpa using h

/-- What the facts say of the turn: what the sizes say, or what they have said before where nothing is
    written. -/
theorem writeVerified_iff (facts : TurnFacts) (rows : List Entry) :
    (annotateWriteHonesty facts rows).writeVerified = some false ↔
      match judged (rows.filterMap Entry.recorded) (rows.filterMap Entry.reported) with
      | some (bytes, size) => bytes = 0 ∨ bytes = size
      | none => rows.filterMap Entry.reported = [] ∧ facts.writeVerified = some false := by
  have hany : (rows.any fun e => decide (e.tool = writeTool) && e.wentWell) = true ↔
      rows.filterMap Entry.reported ≠ [] := by
    simp only [← reported_isSome, List.any_eq_true, ne_eq, List.filterMap_eq_nil_iff, not_forall,
      exists_prop, Option.isSome_iff_ne_none]
  have hunchanged := writeUnchangedAfterRead_iff rows
  rw [annotateWriteHonesty]
  cases hjudged : judged (rows.filterMap Entry.recorded) (rows.filterMap Entry.reported) with
  | some x =>
    have hrows : rows.filterMap Entry.reported ≠ [] := by
      intro hnil
      rw [hnil] at hjudged
      cases hjudged
    rw [hjudged] at hunchanged
    rw [if_pos (hany.2 hrows)]
    split_ifs with h
    · exact iff_of_true rfl (hunchanged.1 h)
    · exact iff_of_false (by simp) fun hsame => h (hunchanged.2 hsame)
  | none =>
    rw [hjudged] at hunchanged
    rw [if_neg hunchanged.1]
    split_ifs with h
    · exact iff_of_false (by simp) fun hnil => hany.1 h hnil.1
    · exact (and_iff_right (not_not.1 fun hne => h (hany.2 hne))).symm

/-! ### The actions -/

/-- A call of the tool that reads or of the one that writes, with what it finds. -/
inductive Call
  | read (p : Params) (ws : Workspace)
  /-- A repeated read, which is given something else than the file. -/
  | again (p : Params) (given : Result)
  | write (fence : Fence) (p : Params) (d : Disk)

/-- An action that is come to, in the state it is come to in. -/
structure Act where
  run : Run
  step : Step

/-- The call that an action ends in; where it names the tool itself, the call comes back well. -/
def Act.call? (t : Tools) (a : Act) : Option Call :=
  let x := a.run.exec
  let ws := x.ws.at a.step.now
  match a.step.planned.action with
  | .ok ⟨.readArtifact, p⟩ =>
    let p := callParams x.turn p
    match blockRepeatArtifactRead t.settings x.rows (textOr p.fields "filename") with
    | some given => some (.again p given)
    | none => some (.read p ws)
  | .ok ⟨.writeArtifact, p⟩ =>
    let p := callParams x.turn p
    match resolveWriteContent t a.step.supply x.turn p ws.disk with
    | (d, .ok content) =>
      if bodyDraftToolName t.codec d x.turn.taskId (textOr p.fields "filename") = .write then
        some (.write (some x.fence) (p.withContent content) d)
      else none
    | (_, .error _) => none
  | .ok ⟨.editArtifact, p⟩ =>
    let p := callParams x.turn p
    if editHasTarget p then none
    else
      match resolveWriteContent t a.step.supply x.turn p ws.disk with
      | (d, .ok content) => some (.write (some x.fence) (p.withContent content) d)
      | (_, .error _) => none
  | .ok ⟨.runTool, p⟩ =>
    match redirectRunTool t a.step.supply x.turn (textOr p.fields "name")
        (callParams x.turn { p with fields := p.fields.pop "name" }) ws.disk with
    | (d, .ok (name, p)) =>
      match (a.step.invoke name p { ws with disk := d }).2 with
      | .ok invoked =>
        if (invoked.result.getD {}).status = "error".toList then none
        else if strip name = readTool then some (.read p { ws with disk := d })
        else if strip name = writeTool then some (.write none p d)
        else none
      | .error _ => none
    | (_, .error _) => none
  | _ => none

/-- The name and the size that go down for a call: of a copy, what it has; of a file, the characters of
    the lines that are asked for. -/
def Call.recorded (t : Tools) : Call → Option (Text × ℕ)
  | .read p ws => (readPlan t p ws.disk).bind fun plan =>
    match plan.cached ws.cache, requestedText plan.request plan.full with
    | some copy, _ => sized copy.filename copy.size
    | none, .ok part => sized plan.filename part.length
    | none, .error _ => none
  | _ => none

/-- The name and the bytes that go down for a call: of what is written, or none for a write that is
    turned away from an outline. -/
def Call.reported (t : Tools) : Call → Option (Text × ℕ)
  | .write fence p d =>
    match writePlan t fence p d with
    | some w => some (strip w.filename, utf8Len w.text)
    | none => if turnedAway t fence p d then some (strip (textOr p.fields "filename"), 0) else none
  | _ => none

/-- The file that a call gives the text of. -/
def Call.reads (t : Tools) : Call → Option Path
  | .read p ws => (readPlan t p ws.disk).bind fun plan =>
    if (plan.cached ws.cache).isSome ∨ (requestedText plan.request plan.full).isOk then
      some (filePath plan.taskId plan.filename)
    else none
  | .again p given => if given.status = "cached".toList then (target p).map fun f => filePath f.1 f.2 else none
  | .write .. => none

/-- The file that a call writes. -/
def Call.writes (t : Tools) : Call → Option Path
  | .write fence p d => (writePlan t fence p d).map WritePlan.path
  | _ => none

namespace Act

def recorded (t : Tools) (a : Act) : Option (Text × ℕ) := (a.call? t).bind (Call.recorded t)

def reported (t : Tools) (a : Act) : Option (Text × ℕ) := (a.call? t).bind (Call.reported t)

def reads (t : Tools) (a : Act) : Option Path := (a.call? t).bind (Call.reads t)

def writes (t : Tools) (a : Act) : Option Path := (a.call? t).bind (Call.writes t)

/-- The write leaves its file with the text that it finds there, or with none. -/
def Kept (t : Tools) (a : Act) : Prop :=
  ∃ path, a.writes t = some path ∧
    ((Run.step t a.step a.run).1.exec.ws.disk.stored path = a.run.exec.ws.disk.stored path ∨
      (Run.step t a.step a.run).1.exec.ws.disk.stored path = some [])

/-- The write has no text, or the one that its file has: what it leaves is the text of its plan, unless
    the progress of the chapter is put down in the same file. -/
def PutsBack (t : Tools) (a : Act) : Prop :=
  ∃ fence p d w, a.call? t = some (.write fence p d) ∧ writePlan t fence p d = some w ∧
    ((w.after t d).stored w.path = a.run.exec.ws.disk.stored w.path ∨ (w.after t d).stored w.path = some [])

end Act

/-- The last action that writes a file that an earlier one, or one of the files before, has read. -/
def lastOverwrite (t : Tools) : List Path → List Act → Option Act
  | _, [] => none
  | read, a :: acts =>
    (lastOverwrite t ((a.reads t).toList ++ read) acts).or
      (if (a.writes t).any (· ∈ read) then some a else none)

/-- The registry (`ToolRegistry.invoke`): a call is refused, or goes to the handler of the tool. -/
def registry (t : Tools) (refused : Text → Params → Option Raise) (others : Text → Params → Ws Result)
    (name : Text) (p : Params) : Ws Invoked :=
  match refused (strip name) p with
  | some e => .raise e
  | none =>
    (if strip name = readTool then handleReadTextArtifact t p
      else if strip name = writeTool then onDisk (handleWriteTextArtifact t none p)
      else others (strip name) p) >>= fun r => pure { tool := strip name, result := some r }

/-- Tools that are named go through the registry, and `run_code` adds nothing to the rows. -/
structure Step.Regular (t : Tools) (step : Step) : Prop where
  invoke : ∀ p, step.planned.action = .ok ⟨.runTool, p⟩ → ∃ refused others,
    step.invoke = registry t refused others
  code : ∀ p, step.planned.action = .ok ⟨.runCode, p⟩ → ∀ s x facts status,
    step.code s = ((x, facts), .ok status) → x.toolResults = s.1.toolResults

/-! ### One action -/

/-- The entry, and the disk that is left, are those of the call. -/
structure Entry.Of (t : Tools) (c : Option Call) (ws : Workspace) (e : Entry) : Prop where
  recorded : e.recorded = c.bind (Call.recorded t)
  reported : e.reported = c.bind (Call.reported t)
  disk : ∀ fence p d, c = some (.write fence p d) → ws.disk = (handleWriteTextArtifact t fence p d).1

section
variable {t : Tools}

theorem firstChars_nil (maxChars : ℤ) : firstChars maxChars [] = [] := by
  rw [firstChars_eq, sliceTo, List.take_nil]

theorem readResult_size (q : ReadRequest) (filename : Text) (path : Path) (full part : Text) :
    (readResult q filename path full part).size = part.length := by
  by_cases h : part.length ≠ 0
  · exact if_pos h
  · refine (if_neg h).trans ?_
    rw [readResult, List.length_eq_zero_iff.1 (not_not.1 h), firstChars_nil]
    rfl

/-- A row that did not go well says nothing. -/
theorem of_failed {ws : Workspace} {e : Entry} (h : e.wentWell = false) : e.Of t none ws where
  recorded := if_neg fun hread => by simp [h] at hread
  reported := if_neg fun hwrite => by simp [h] at hwrite
  disk _ _ _ hcall := by cases hcall

/-- A row of another tool says nothing. -/
theorem of_other {ws : Workspace} {e : Entry} (hread : e.tool ≠ readTool) (hwrite : e.tool ≠ writeTool) :
    e.Of t none ws where
  recorded := if_neg fun h => hread h.1
  reported := if_neg fun h => hwrite h.1
  disk _ _ _ hcall := by cases hcall

theorem wentWell_raised (tool : Text) (ty : ActionType) (e : Raise) :
    (raisedEntry tool ty e).wentWell = false := by
  rw [Entry.wentWell, raisedEntry_status]
  rfl

theorem wentWell_ok (tool : Text) (ty : ActionType) (r : Result) : (okEntry tool ty r).wentWell = true := by
  rw [Entry.wentWell, okEntry, decide_eq_true rfl, Bool.true_or]

/-- What goes down for a read is what its result says. -/
theorem read_recorded (p : Params) (ws : Workspace) :
    (∃ ws' r, handleReadTextArtifact t p ws = (ws', .ok r) ∧
        (Call.read p ws).recorded t = sized r.filename r.size) ∨
      ∃ ws' e, handleReadTextArtifact t p ws = (ws', .error e) ∧ (Call.read p ws).recorded t = none := by
  rw [Call.recorded]
  cases hplan : readPlan t p ws.disk with
  | none =>
    obtain ⟨ws', e, he⟩ := handleRead_of_none hplan
    exact Or.inr ⟨ws', e, he, rfl⟩
  | some plan =>
    obtain ⟨ws', hr⟩ := handleRead_of_plan hplan
    rw [Option.bind_some]
    cases hcached : plan.cached ws.cache with
    | some copy =>
      rw [hcached] at hr
      exact Or.inl ⟨ws', copy, hr, rfl⟩
    | none =>
      rw [hcached] at hr
      cases hpart : requestedText plan.request plan.full with
      | error e =>
        rw [hpart] at hr
        exact Or.inr ⟨ws', e, hr, rfl⟩
      | ok part =>
        rw [hpart] at hr
        refine Or.inl ⟨ws', _, hr, ?_⟩
        rw [readResult_size]
        rfl

theorem of_read {e : Entry} {p : Params} {ws ws' : Workspace} {r : Result} (htool : e.tool = readTool)
    (hwell : e.wentWell = true) (hresult : e.result = some r)
    (h : (Call.read p ws).recorded t = sized r.filename r.size) : e.Of t (some (.read p ws)) ws' where
  recorded := by
    rw [Entry.recorded, if_pos ⟨htool, hwell⟩, hresult, Option.bind_some, h]
    rfl
  reported := if_neg fun hwrite => absurd (htool.symm.trans hwrite.1) (by decide)
  disk _ _ _ hcall := by cases hcall

theorem of_write {e : Entry} {fence : Fence} {p : Params} {d : Disk} {ws' : Workspace} {r : Result}
    (htool : e.tool = writeTool) (hwell : e.wentWell = true) (hresult : e.result = some r)
    (h : (Call.write fence p d).reported t = some (strip r.filename, r.bytes))
    (hdisk : ws'.disk = (handleWriteTextArtifact t fence p d).1) : e.Of t (some (.write fence p d)) ws' where
  recorded := if_neg fun hread => absurd (htool.symm.trans hread.1) (by decide)
  reported := by
    rw [Entry.reported, if_pos ⟨htool, hwell⟩, hresult, Option.bind_some, h]
    rfl
  disk _ _ _ hcall := by
    cases hcall
    exact hdisk

/-- What goes down for a write is what its result says. -/
theorem write_reported (fence : Fence) (p : Params) (d : Disk) :
    (∃ d' r, handleWriteTextArtifact t fence p d = (d', .ok r) ∧
        (Call.write fence p d).reported t = some (strip r.filename, r.bytes)) ∨
      ∃ d' e, handleWriteTextArtifact t fence p d = (d', .error e) ∧
        (Call.write fence p d).reported t = none := by
  rw [Call.reported]
  cases hplan : writePlan t fence p d with
  | some w =>
    obtain ⟨chunks, hr⟩ := handleWrite_eq hplan
    exact Or.inl ⟨_, _, hr, rfl⟩
  | none =>
    obtain ⟨d', -, ⟨haway, hr⟩ | ⟨haway, e, hr⟩⟩ := handleWrite_eq_of_none hplan
    · exact Or.inl ⟨d', _, hr, if_pos haway⟩
    · exact Or.inr ⟨d', e, hr, if_neg (by rw [haway]; exact Bool.false_ne_true)⟩

theorem of_nothing {e : Entry} {c : Call} {ws : Workspace} (hwell : e.wentWell = false)
    (hrecorded : c.recorded t = none) (hreported : c.reported t = none)
    (hdisk : ∀ fence p d, c = .write fence p d → ws.disk = (handleWriteTextArtifact t fence p d).1) :
    e.Of t (some c) ws where
  recorded := (@of_failed t ws e hwell).recorded.trans hrecorded.symm
  reported := (@of_failed t ws e hwell).reported.trans hreported.symm
  disk fence p d hcall := hdisk fence p d (Option.some.inj hcall)

theorem executeRead_of {x : Exec} {p : Params} {ws ws' : Workspace} {e : Entry}
    (h : executeRead t x p ws = (ws', .ok e)) :
    e.Of t (match blockRepeatArtifactRead t.settings x.rows (textOr p.fields "filename") with
      | some given => some (.again p given)
      | none => some (.read p ws)) ws' := by
  rw [executeRead] at h
  cases hblock : blockRepeatArtifactRead t.settings x.rows (textOr p.fields "filename") with
  | some given =>
    rw [hblock] at h
    cases h
    refine of_nothing ?_ rfl rfl fun _ _ _ hcall => Call.noConfusion hcall
    have hne : given.status ≠ [] := by
      rcases blockRepeat_cases hblock with h | h <;> rw [h] <;> decide
    rw [Entry.wentWell, blockedEntry_status hne]
    rcases blockRepeat_cases hblock with h | h <;> rw [h] <;> rfl
  | none =>
    rw [hblock] at h
    dsimp only at h ⊢
    rcases read_recorded (t := t) p ws with ⟨ws₁, r, hr, hrecorded⟩ | ⟨ws₁, ex, hr, hrecorded⟩
    · rw [entryOf_ok hr] at h
      cases h
      exact of_read rfl rfl rfl hrecorded
    · rw [entryOf_error hr] at h
      cases h
      exact of_nothing (wentWell_raised ..) hrecorded rfl fun _ _ _ hcall => Call.noConfusion hcall

/-- The entry of a write, whatever it goes down as. -/
theorem entryOf_write_of {fence : Fence} {p : Params} {ws ws' : Workspace} {ok : Result → Entry}
    {tool : Text} {ty : ActionType} {e : Entry}
    (h : entryOf (onDisk (handleWriteTextArtifact t fence p)) ok (raisedEntry tool ty) ws = (ws', .ok e))
    (hok : ∀ r, (ok r).tool = writeTool ∧ (ok r).wentWell = true ∧
      ∃ r', (ok r).result = some r' ∧ r'.filename = r.filename ∧ r'.bytes = r.bytes) :
    e.Of t (some (.write fence p ws.disk)) ws' := by
  rcases write_reported (t := t) fence p ws.disk with ⟨d, r, hr, hreported⟩ | ⟨d, ex, hr, hreported⟩
  · rw [entryOf_ok (onDisk_eq hr)] at h
    cases h
    obtain ⟨htool, hwell, r', hresult, hname, hbytes⟩ := hok r
    exact of_write htool hwell hresult (by rw [hreported, hname, hbytes]) (by rw [hr])
  · rw [entryOf_error (onDisk_eq hr)] at h
    cases h
    refine of_nothing (wentWell_raised ..) rfl hreported fun _ _ _ hcall => ?_
    cases hcall
    rw [hr]

theorem executeWrite_of {s : Supply} {x : Exec} {p : Params} {ws ws' : Workspace} {e : Entry}
    (h : executeWrite t s x p ws = (ws', .ok e)) :
    e.Of t (match resolveWriteContent t s x.turn p ws.disk with
      | (d, .ok content) =>
        if bodyDraftToolName t.codec d x.turn.taskId (textOr p.fields "filename") = .write then
          some (.write (some x.fence) (p.withContent content) d)
        else none
      | (_, .error _) => none) ws' := by
  rw [executeWrite] at h
  rcases hr : resolveWriteContent t s x.turn p ws.disk with ⟨d, ex | content⟩
  · rw [Attempt.bind_error (onDisk_eq hr)] at h
    cases h
  · rw [Attempt.bind_ok (onDisk_eq hr), Attempt.ask_bind_apply] at h
    dsimp only [id] at h ⊢
    cases htool : bodyDraftToolName t.codec d x.turn.taskId (textOr p.fields "filename") with
    | write =>
      rw [htool] at h
      rw [if_pos rfl]
      have hof := entryOf_write_of h fun r => ⟨rfl, wentWell_ok .., r, rfl, rfl, rfl⟩
      exact hof
    | append =>
      rw [htool] at h
      rw [if_neg (by decide)]
      dsimp only at h
      rcases happend : handleAppendTextArtifact t (some x.fence) (p.withContent content) d with ⟨d', ex | r⟩
      · rw [entryOf_error (onDisk_eq happend)] at h
        cases h
        exact of_failed (wentWell_raised ..)
      · rw [entryOf_ok (onDisk_eq happend)] at h
        cases h
        exact of_other (show appendTool ≠ readTool by decide) (show appendTool ≠ writeTool by decide)

theorem executeImprecise_of {s : Supply} {x : Exec} {p : Params} {ws ws' : Workspace} {e : Entry}
    (h : executeImprecise t s x p ws = (ws', .ok e)) :
    e.Of t (match resolveWriteContent t s x.turn p ws.disk with
      | (d, .ok content) => some (.write (some x.fence) (p.withContent content) d)
      | (_, .error _) => none) ws' := by
  rw [executeImprecise] at h
  rcases hr : resolveWriteContent t s x.turn p ws.disk with ⟨d, ex | content⟩
  · rw [Attempt.bind_error (onDisk_eq hr)] at h
    cases h
  · rw [Attempt.bind_ok (onDisk_eq hr)] at h
    have hof := entryOf_write_of h fun r => ⟨rfl, wentWell_ok .., _, rfl, rfl, rfl⟩
    exact hof

theorem executePrecise_of {p : Params} {ws ws' : Workspace} {e : Entry}
    (h : executePrecise t p ws = (ws', .ok e)) : e.Of t none ws' := by
  cases hplan : editPlan t p ws.disk with
  | some plan =>
    rw [executePrecise_of_plan hplan] at h
    cases h
    exact of_other (show editTool ≠ readTool by decide) (show editTool ≠ writeTool by decide)
  | none =>
    obtain ⟨d, ex, hr, -⟩ := executePrecise_of_none hplan
    rw [hr] at h
    cases h
    exact of_failed (wentWell_raised ..)

theorem registry_ok {refused : Text → Params → Option Raise} {others : Text → Params → Ws Result}
    {name : Text} {p : Params} {ws ws' : Workspace} {invoked : Invoked}
    (h : registry t refused others name p ws = (ws', .ok invoked)) :
    ∃ r, invoked = ⟨strip name, some r⟩ ∧
      (strip name = readTool → handleReadTextArtifact t p ws = (ws', .ok r)) ∧
      (strip name = writeTool → handleWriteTextArtifact t none p ws.disk = (ws'.disk, .ok r)) := by
  rw [registry] at h
  cases hrefused : refused (strip name) p with
  | some e =>
    rw [hrefused] at h
    cases h
  | none =>
    rw [hrefused] at h
    dsimp only at h
    rcases hr : (if strip name = readTool then handleReadTextArtifact t p
      else if strip name = writeTool then onDisk (handleWriteTextArtifact t none p)
      else others (strip name) p) ws with ⟨ws₁, e | r⟩
    · rw [Attempt.bind_error hr] at h
      cases h
    · rw [Attempt.bind_ok hr] at h
      cases h
      refine ⟨r, rfl, fun hname => ?_, fun hname => ?_⟩
      · rw [if_pos hname] at hr
        exact hr
      · rw [if_neg (by rw [hname]; decide), if_pos hname] at hr
        rw [onDisk] at hr
        rcases hwrite : handleWriteTextArtifact t none p ws.disk with ⟨d, res⟩
        rw [hwrite] at hr
        cases hr
        rfl

/-- The entry of a tool that is named, once the name is what it is. -/
theorem entryOf_invoke_of {step : Step} {name : Text} {p : Params} {ws ws' : Workspace} {e : Entry}
    {refused : Text → Params → Option Raise} {others : Text → Params → Ws Result}
    {raised : Raise → Entry}
    (failed : Result → Entry) (hinvoke : step.invoke = registry t refused others)
    (hfailed : ∀ r, (failed r).wentWell = false) (hraised : ∀ ex, (raised ex).wentWell = false)
    (h : entryOf (step.invoke name p) (fun invoked =>
      if (invoked.result.getD {}).status = "error".toList then failed (invoked.result.getD {})
      else { tool := invoked.tool, status := "ok".toList, actionType := ActionType.runTool.name,
             result := invoked.result }) raised ws = (ws', .ok e)) :
    e.Of t (match (step.invoke name p ws).2 with
      | .ok invoked =>
        if (invoked.result.getD {}).status = "error".toList then none
        else if strip name = readTool then some (.read p ws)
        else if strip name = writeTool then some (.write none p ws.disk)
        else none
      | .error _ => none) ws' := by
  rcases hr : step.invoke name p ws with ⟨ws₁, ex | invoked⟩
  · rw [entryOf_error hr] at h
    cases h
    exact of_failed (hraised ex)
  rw [entryOf_ok hr] at h
  cases h
  rw [hinvoke] at hr
  obtain ⟨r, rfl, hread, hwrite⟩ := registry_ok hr
  dsimp only [Option.getD_some]
  by_cases herror : r.status = "error".toList
  · rw [if_pos herror, if_pos herror]
    exact of_failed (hfailed r)
  rw [if_neg herror, if_neg herror]
  split_ifs with hname₁ hname₂
  · refine of_read hname₁ rfl rfl ?_
    rcases read_recorded (t := t) p ws with ⟨ws₂, r', hr', hrecorded⟩ | ⟨ws₂, ex, hr', -⟩
    · rw [hread hname₁] at hr'
      cases hr'
      exact hrecorded
    · rw [hread hname₁] at hr'
      cases hr'
  · have hd := hwrite hname₂
    refine of_write hname₂ rfl rfl ?_ (by rw [hd])
    rcases write_reported (t := t) none p ws.disk with ⟨d', r', hr', hreported⟩ | ⟨d', ex, hr', -⟩
    · rw [hd] at hr'
      cases hr'
      exact hreported
    · rw [hd] at hr'
      cases hr'
  · exact of_other hname₁ hname₂

theorem redirectRunTool_nil (s : Supply) (turn : Turn) (p : Params) (d : Disk) :
    redirectRunTool t s turn [] p d = (d, .ok ([], p)) := by
  rw [redirectRunTool]
  refine congrFun (if_neg ?_) d
  rintro ⟨h | h, -⟩
  · exact absurd h (by decide)
  · exact absurd h (by decide)

theorem executeRunTool_of {step : Step} {x : Exec} {p : Params} {ws ws' : Workspace} {e : Entry}
    {refused : Text → Params → Option Raise} {others : Text → Params → Ws Result}
    (hinvoke : step.invoke = registry t refused others) (h : executeRunTool t step x p ws = (ws', .ok e)) :
    e.Of t (match redirectRunTool t step.supply x.turn (textOr p.fields "name")
        (callParams x.turn { p with fields := p.fields.pop "name" }) ws.disk with
      | (d, .ok (name, p)) =>
        match (step.invoke name p { ws with disk := d }).2 with
        | .ok invoked =>
          if (invoked.result.getD {}).status = "error".toList then none
          else if strip name = readTool then some (.read p { ws with disk := d })
          else if strip name = writeTool then some (.write none p d)
          else none
        | .error _ => none
      | (_, .error _) => none) ws' := by
  rw [executeRunTool] at h
  by_cases hname : textOr p.fields "name" = []
  · have hentry := (congrFun (if_pos hname) ws).symm.trans h
    cases hentry
    rw [hname, redirectRunTool_nil]
    dsimp only
    split
    · split_ifs with _ hread hwrite
      · exact of_failed rfl
      · exact absurd hread (by decide)
      · exact absurd hwrite (by decide)
      · exact of_failed rfl
    · exact of_failed rfl
  · have hentry := (congrFun (if_neg hname) ws).symm.trans h
    rcases hr : redirectRunTool t step.supply x.turn (textOr p.fields "name")
        (callParams x.turn { p with fields := p.fields.pop "name" }) ws.disk with ⟨d, ex | ⟨name, q⟩⟩
    · rw [Attempt.bind_error (onDisk_eq hr)] at hentry
      cases hentry
    · rw [Attempt.bind_ok (onDisk_eq hr)] at hentry
      refine entryOf_invoke_of (fun r => errorEntry name (.valueError (if r.error = [] then
        "tool failed".toList else r.error)) ActionType.runTool.name [] false) hinvoke (fun _ => rfl) ?_ hentry
      intro ex
      cases ex <;> rfl

/-- The entry of an action is the one of the call that it ends in. -/
theorem executeEntry_of {r : Run} {step : Step} {a : Action} {ws' : Workspace} {e : Entry}
    (hregular : step.Regular t) (hact : step.planned.action = .ok a)
    (hty : a.type.onArtifact = true ∨ a.type = .runTool)
    (h : executeEntry t step r.exec a (r.exec.ws.at step.now) = (ws', .ok e)) :
    e.Of t (Act.call? t ⟨r, step⟩) ws' := by
  obtain ⟨ty, p⟩ := a
  rw [Act.call?]
  dsimp only
  rw [hact]
  cases ty with
  | readArtifact =>
    dsimp only
    rw [executeEntry_read rfl] at h
    have hof := executeRead_of h
    revert hof
    cases blockRepeatArtifactRead t.settings r.exec.rows
      (textOr (callParams r.exec.turn p).fields "filename") <;> exact id
  | writeArtifact =>
    rw [executeEntry_write rfl] at h
    exact executeWrite_of h
  | editArtifact =>
    dsimp only
    by_cases htarget : editHasTarget (callParams r.exec.turn p) = true
    · rw [if_pos htarget]
      rw [executeEntry_precise (x := r.exec) (a := ⟨_, p⟩) rfl htarget] at h
      exact executePrecise_of h
    · rw [if_neg htarget]
      rw [executeEntry_imprecise (x := r.exec) (a := ⟨_, p⟩) rfl htarget] at h
      exact executeImprecise_of h
  | runTool =>
    obtain ⟨refused, others, hinvoke⟩ := hregular.invoke p hact
    exact executeRunTool_of hinvoke h
  | answer | retrieve | runCode =>
    rcases hty with hty | hty
    · cases hty
    · cases hty

theorem writes_eq_some_iff {a : Act} {path : Path} : a.writes t = some path ↔
    ∃ fence p d w, a.call? t = some (.write fence p d) ∧ writePlan t fence p d = some w ∧ w.path = path := by
  rw [Act.writes]
  constructor
  · intro h
    obtain ⟨c, hcall, hwrites⟩ := Option.bind_eq_some_iff.1 h
    cases c with
    | write fence p d =>
      obtain ⟨w, hplan, hpath⟩ := Option.map_eq_some_iff.1 hwrites
      exact ⟨fence, p, d, w, hcall, hplan, hpath⟩
    | read p ws => cases hwrites
    | again p given => cases hwrites
  · rintro ⟨fence, p, d, w, hcall, hplan, rfl⟩
    rw [hcall, Option.bind_some, Call.writes, hplan]
    rfl

/-- What a write has kept is what it puts back. -/
theorem kept_iff {a : Act} {r' : Run} (hstep : Run.step t a.step a.run = (r', .ok ()))
    (hdisk : ∀ fence p d, a.call? t = some (.write fence p d) →
      r'.exec.ws.disk = (handleWriteTextArtifact t fence p d).1) : a.Kept t ↔ a.PutsBack t := by
  have hleft : ∀ {fence p d w}, a.call? t = some (.write fence p d) → writePlan t fence p d = some w →
      (Run.step t a.step a.run).1.exec.ws.disk = w.after t d := fun {fence p d w} hcall hplan => by
    obtain ⟨chunks, hr⟩ := handleWrite_eq hplan
    rw [hstep, hdisk fence p d hcall, hr]
  constructor
  · rintro ⟨path, hwrites, hkept⟩
    obtain ⟨fence, p, d, w, hcall, hplan, rfl⟩ := writes_eq_some_iff.1 hwrites
    rw [hleft hcall hplan] at hkept
    exact ⟨fence, p, d, w, hcall, hplan, hkept⟩
  · rintro ⟨fence, p, d, w, hcall, hplan, hback⟩
    rw [← hleft hcall hplan] at hback
    exact ⟨w.path, writes_eq_some_iff.2 ⟨fence, p, d, w, hcall, hplan, rfl⟩, hback⟩

end

/-- STEP: an action adds the rows of its call, and no others that say anything; a write keeps what it
    puts back. -/
theorem rows_of_step {t : Tools} {step : Step} {r r' : Run} (hregular : step.Regular t)
    (h : Run.step t step r = (r', .ok ())) : ∃ new, r'.results = r.results ++ new ∧
      new.filterMap Entry.recorded = (Act.recorded t ⟨r, step⟩).toList ∧
      new.filterMap Entry.reported = (Act.reported t ⟨r, step⟩).toList ∧
      (Act.Kept t ⟨r, step⟩ ↔ Act.PutsBack t ⟨r, step⟩) := by
  have hone : ∀ {e : Entry}, e.Of t (Act.call? t ⟨r, step⟩) r'.exec.ws →
      [e].filterMap Entry.recorded = (Act.recorded t ⟨r, step⟩).toList ∧
        [e].filterMap Entry.reported = (Act.reported t ⟨r, step⟩).toList ∧
          (Act.Kept t ⟨r, step⟩ ↔ Act.PutsBack t ⟨r, step⟩) := fun {e} he => by
    rw [Act.recorded, Act.reported, ← he.recorded, ← he.reported, filterMap_cons_toList, filterMap_cons_toList]
    exact ⟨List.append_nil _, List.append_nil _, kept_iff h he.disk⟩
  have hnone : Act.call? t ⟨r, step⟩ = none → r'.results = r.results → ∃ new,
      r'.results = r.results ++ new ∧ new.filterMap Entry.recorded = (Act.recorded t ⟨r, step⟩).toList ∧
        new.filterMap Entry.reported = (Act.reported t ⟨r, step⟩).toList ∧
          (Act.Kept t ⟨r, step⟩ ↔ Act.PutsBack t ⟨r, step⟩) := by
    intro hcall hresults
    have hkept : Act.Kept t ⟨r, step⟩ ↔ Act.PutsBack t ⟨r, step⟩ :=
      kept_iff h fun fence p d hwrite => by rw [hcall] at hwrite; cases hwrite
    rw [Act.recorded, Act.reported, hcall]
    exact ⟨[], by rw [hresults, List.append_nil], rfl, rfl, hkept⟩
  rcases step_cases h with ⟨ex, hact, rfl⟩ | ⟨a, ws, e, hact, hown, hentry, rfl⟩ | ⟨⟨ty, p⟩, hact, hty, rfl⟩ |
    ⟨p, x, facts, status, hact, hcode, rfl⟩
  · have hcall : Act.call? t ⟨r, step⟩ = none := by rw [Act.call?, hact]
    exact ⟨_, rfl, hone (by rw [hcall]; exact of_failed rfl)⟩
  · exact ⟨[e], rfl, hone (executeEntry_of hregular hact hown hentry)⟩
  · refine hnone ?_ rfl
    rw [Act.call?, hact]
    rcases hty with hty | hty <;> cases hty <;> rfl
  · exact hnone (by rw [Act.call?, hact]) (hregular.code p hact _ _ _ _ hcode)

/-! ### All actions of a turn -/

/-- The actions of a run, in order. -/
def actsFrom (t : Tools) : Run → List Step → List Act
  | _, [] => []
  | r, step :: steps => ⟨r, step⟩ :: actsFrom t (Run.step t step r).1 steps

/-- RUN: the rows say of the actions what their calls say. -/
theorem rows_of_run {t : Tools} : ∀ {steps : List Step} {r r' : Run}, (∀ step ∈ steps, step.Regular t) →
    Run.steps t steps r = (r', .ok ()) →
    r'.results.filterMap Entry.recorded =
        r.results.filterMap Entry.recorded ++ (actsFrom t r steps).filterMap (Act.recorded t) ∧
      r'.results.filterMap Entry.reported =
        r.results.filterMap Entry.reported ++ (actsFrom t r steps).filterMap (Act.reported t) ∧
      ∀ a ∈ actsFrom t r steps, (a.Kept t ↔ a.PutsBack t)
  | [], r, r', _, h => by
      cases h
      simp [actsFrom]
  | step :: steps, r, r', hregular, h => by
      rw [List.forall_mem_cons] at hregular
      rcases hstep : Run.step t step r with ⟨r₁, e | u⟩
      · rw [Run.steps, Attempt.forEach_cons_error hstep] at h
        cases h
      rw [Run.steps, Attempt.forEach_cons_ok hstep] at h
      obtain ⟨hrecorded, hreported, hkept⟩ := rows_of_run hregular.2 h
      obtain ⟨new, hnew, hrecorded₁, hreported₁, hkept₁⟩ := rows_of_step hregular.1 hstep
      rw [actsFrom, hstep, filterMap_cons_toList, filterMap_cons_toList, hrecorded, hreported, hnew,
        List.filterMap_append, List.filterMap_append, hrecorded₁, hreported₁]
      exact ⟨List.append_assoc .., List.append_assoc .., List.forall_mem_cons.2 ⟨hkept₁, hkept⟩⟩

/-- A call of the executor within a turn: its state, but for the rows, and its actions. -/
structure Pass where
  exec : Exec
  facts : TurnFacts := {}
  steps : List Step

/-- The call is given the rows so far. -/
def Pass.begin (p : Pass) (rows : List Entry) : Run := Run.begin { p.exec with toolResults := rows } p.facts

/-- The rows that the calls of a turn leave, and their actions, unless an exception ends the turn. -/
def turn (t : Tools) : List Entry → List Pass → Option (List Entry × List Act)
  | rows, [] => some (rows, [])
  | rows, p :: passes =>
    match executeActions t p.steps (p.begin rows) with
    | (out, .ok ()) => (turn t out.exec.toolResults passes).map fun rest =>
      (rest.1, actsFrom t (p.begin rows) p.steps ++ rest.2)
    | (_, .error _) => none

/-- RUN: the rows of a turn say of its actions what their calls say. -/
theorem rows_of_turn {t : Tools} : ∀ {passes : List Pass} {rows out : List Entry} {acts : List Act},
    (∀ p ∈ passes, ∀ step ∈ p.steps, step.Regular t) → turn t rows passes = some (out, acts) →
    out.filterMap Entry.recorded = rows.filterMap Entry.recorded ++ acts.filterMap (Act.recorded t) ∧
      out.filterMap Entry.reported = rows.filterMap Entry.reported ++ acts.filterMap (Act.reported t) ∧
      ∀ a ∈ acts, (a.Kept t ↔ a.PutsBack t)
  | [], rows, out, acts, _, h => by
      cases h
      simp
  | p :: passes, rows, out, acts, hregular, h => by
      rw [List.forall_mem_cons] at hregular
      rw [turn] at h
      rcases hrun : Run.steps t p.steps (p.begin rows) with ⟨r, e | u⟩
      · rw [Pass.begin, executeActions_error hrun] at h
        cases h
      obtain ⟨x, hx, -, hresults⟩ := executeActions_ok hrun
      rw [Pass.begin, hx] at h
      obtain ⟨rest, hrest, hout⟩ := Option.map_eq_some_iff.1 h
      cases hout
      obtain ⟨hrecorded, hreported, hkept⟩ := rows_of_turn hregular.2 hrest
      obtain ⟨hrecorded₁, hreported₁, hkept₁⟩ := rows_of_run hregular.1 hrun
      rw [hrecorded, hreported, hresults, hrecorded₁, hreported₁, List.filterMap_append, List.filterMap_append]
      exact ⟨List.append_assoc .., List.append_assoc .., List.forall_mem_append.2 ⟨hkept₁, hkept⟩⟩

/-- The sizes tell what has happened to the file: the write that the record goes by, of a name that any
    row of the turn has read, has no bytes or the last size of its name exactly if the last write of a
    file read before has no text, or the one that is there. -/
def SizesTell (t : Tools) (facts : TurnFacts) (acts : List Act) : Prop :=
  match judged (acts.filterMap (Act.recorded t)) (acts.filterMap (Act.reported t)), lastOverwrite t [] acts with
  | some (bytes, size), some a => (bytes = 0 ∨ bytes = size) ↔ a.PutsBack t
  | some (bytes, size), none => bytes ≠ 0 ∧ bytes ≠ size
  | none, some a => ¬ a.PutsBack t
  | none, none => acts.filterMap (Act.reported t) = [] → facts.writeVerified ≠ some false

/-- A file that is written is reported. -/
theorem reported_of_writes {t : Tools} {a : Act} {path : Path} (h : a.writes t = some path) :
    a.reported t ≠ none := by
  obtain ⟨fence, p, d, w, hcall, hplan, -⟩ := writes_eq_some_iff.1 h
  rw [Act.reported, hcall, Option.bind_some, Call.reported, hplan]
  exact Option.some_ne_none _

theorem mem_of_lastOverwrite {t : Tools} {a : Act} : ∀ {acts : List Act} {read : List Path},
    lastOverwrite t read acts = some a → a ∈ acts ∧ ∃ path, a.writes t = some path
  | [], read, h => by cases h
  | b :: acts, read, h => by
      rw [lastOverwrite] at h
      cases hlater : lastOverwrite t ((b.reads t).toList ++ read) acts with
      | some c =>
        rw [hlater] at h
        cases h
        obtain ⟨hmem, hwrites⟩ := mem_of_lastOverwrite hlater
        exact ⟨List.mem_cons_of_mem _ hmem, hwrites⟩
      | none =>
        rw [hlater] at h
        obtain ⟨hany, hb⟩ := Option.ite_none_right_eq_some.1 h
        cases hb
        cases hpath : a.writes t with
        | some path => exact ⟨List.mem_cons_self, path, rfl⟩
        | none =>
          rw [hpath] at hany
          cases hany

/-- In any turn, the facts say that a write is not verified exactly when the last write of a file read
    before keeps its text or empties it, if and only if the sizes tell so. -/
theorem write_honest_iff (t : Tools) {passes : List Pass}
    (hregular : ∀ p ∈ passes, ∀ step ∈ p.steps, step.Regular t) {rows : List Entry} {acts : List Act}
    (h : turn t [] passes = some (rows, acts)) (facts : TurnFacts) :
    ((annotateWriteHonesty facts rows).writeVerified = some false ↔
      ∃ a, lastOverwrite t [] acts = some a ∧ a.Kept t) ↔ SizesTell t facts acts := by
  obtain ⟨hrecorded, hreported, hkept⟩ := rows_of_turn hregular h
  rw [List.filterMap_nil, List.nil_append] at hrecorded hreported
  rw [writeVerified_iff, hrecorded, hreported, SizesTell]
  cases hover : lastOverwrite t [] acts with
  | some a =>
    obtain ⟨hmem, path, hwrites⟩ := mem_of_lastOverwrite hover
    simp only [Option.some.injEq, exists_eq_left', hkept a hmem]
    cases hjudged : judged (acts.filterMap (Act.recorded t)) (acts.filterMap (Act.reported t)) with
    | some x => rfl
    | none =>
      have hne : acts.filterMap (Act.reported t) ≠ [] := fun hnil =>
        reported_of_writes hwrites (List.filterMap_eq_nil_iff.1 hnil a hmem)
      simp [hne]
  | none =>
    cases hjudged : judged (acts.filterMap (Act.recorded t)) (acts.filterMap (Act.reported t)) with
    | some x => simp
    | none => simp

def writeNote (text : Text) : Step := onNote .writeArtifact [("content".toList, .str text)]

/-- A file is read and then written. -/
def rewritten (text new : Text) : Pass where
  exec := oneFile text
  steps := [readNote 8000, writeNote new]

theorem regular_rewritten (text new : Text) :
    ∀ p ∈ [rewritten text new], ∀ step ∈ p.steps, step.Regular plainTools := by
  have hnote : ∀ ty fields, ty ≠ .runTool → ty ≠ .runCode → (onNote ty fields).Regular plainTools :=
    fun ty fields htool hcode =>
      ⟨fun p h => by rw [onNote_action] at h; cases h; exact absurd rfl htool,
        fun p h => by rw [onNote_action] at h; cases h; exact absurd rfl hcode⟩
  simp only [List.forall_mem_singleton, rewritten, List.forall_mem_cons]
  exact ⟨hnote .readArtifact _ nofun nofun, hnote .writeArtifact _ nofun nofun⟩

/-- A longer text is verified, and the sizes tell so. -/
theorem write_honest_iff_rewritten : ∃ rows acts,
    turn plainTools [] [rewritten "old".toList "new text".toList] = some (rows, acts) ∧
      (annotateWriteHonesty {} rows).writeVerified = some true ∧
      (((annotateWriteHonesty {} rows).writeVerified = some false ↔
        ∃ a, lastOverwrite plainTools [] acts = some a ∧ a.Kept plainTools) ↔
          SizesTell plainTools {} acts) := by
  have hdone : (turn plainTools [] [rewritten "old".toList "new text".toList]).map
      (fun x => (annotateWriteHonesty {} x.1).writeVerified) = some (some true) := by decide +kernel
  obtain ⟨⟨rows, acts⟩, hturn, hverified⟩ := Option.map_eq_some_iff.1 hdone
  exact ⟨rows, acts, hturn, hverified,
    write_honest_iff plainTools (regular_rewritten "old".toList "new text".toList) hturn {}⟩

/-- A text of one character in two bytes is verified when it is written over itself. -/
theorem same_text_verified : ∃ rows acts,
    turn plainTools [] [rewritten "é".toList "é".toList] = some (rows, acts) ∧
      (annotateWriteHonesty {} rows).writeVerified = some true ∧
      ∃ a, lastOverwrite plainTools [] acts = some a ∧ a.Kept plainTools := by
  have hdone : (turn plainTools [] [rewritten "é".toList "é".toList]).map (fun x =>
      decide ((annotateWriteHonesty {} x.1).writeVerified = some true) &&
        (lastOverwrite plainTools [] x.2).any fun a => decide (a.writes plainTools = some notePath ∧
          (Run.step plainTools a.step a.run).1.exec.ws.disk.stored notePath =
            a.run.exec.ws.disk.stored notePath)) = some true := by decide +kernel
  obtain ⟨⟨rows, acts⟩, hturn, heq⟩ := Option.map_eq_some_iff.1 hdone
  obtain ⟨hverified, hover⟩ := Bool.and_eq_true_iff.1 heq
  obtain ⟨a, ha, hkept⟩ := (Option.any_eq_true ..).1 hover
  obtain ⟨hwrites, hsame⟩ := of_decide_eq_true hkept
  exact ⟨rows, acts, hturn, of_decide_eq_true hverified, a, ha, notePath, hwrites, Or.inl hsame⟩

end AgentLangraph.Artifact
