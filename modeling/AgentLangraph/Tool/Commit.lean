import AgentLangraph.Tool.Dag

/-! The rows that the calls of the stages come to (`execute_tool_stages`), and the commit gate that merges
    them into the tool results (`tool_commit_gate.py`). The calls of a parallel stage complete in any order;
    the gate keeps one row for each tool.

        stages ──invoke──▶ rows ──version, epoch──▶ fresh rows ──by tool──▶ tool_results -/

namespace AgentLangraph.Tool.Commit
open PyText
open AgentLangraph.Artifact (Raise)

/-! ### Rows -/

/-- `str(row.get("tool"))`. -/
def nameOf (row : Fields) : Text := (row.field "tool").toText

/-- `str(row.get("tool") or "")`. -/
def toolOf (row : Fields) : Text := ((row.field "tool").orElse (.str [])).toText

/-- `_error_outcome`. -/
def errorOutcome (tool error : Text) (version : PyVal) : Fields :=
  let out := ((PyDict.empty.put "tool" (.str tool)).put "status" (.str "error".toList)).put "error" (.str error)
  if version = .none then out else out.put "execution_version" version

/-- The row of a call, which has returned a row or raised an exception with a text. -/
def outcome (version : PyVal) (tool : Text) : Except Text Fields → Fields
  | .ok row => (row.put "execution_version" version).put "observation_only" (.bool true)
  | .error error => errorOutcome tool error version

/-- What each call comes to: the stage, the place in the stage, and the tool. -/
abbrev Calls := ℕ → ℕ → Text → Except Text Fields

/-- The order that the calls of each stage complete in. -/
structure Completion where
  order : ℕ → List Fields → List Fields
  perm : ∀ i rows, (order i rows).Perm rows

/-- The calls complete as they were made. -/
def Completion.listed : Completion := ⟨fun _ rows => rows, fun _ _ => .refl _⟩

/-- The calls of each stage complete the other way round. -/
def Completion.reversed : Completion := ⟨fun _ rows => rows.reverse, fun _ rows => rows.reverse_perm⟩

/-- `parallel_ok`. -/
def parallelOk (tools : List Text) : Bool := 1 < tools.length && tools.all toolIsReadOnly

/-- The rows of a stage, in the order of its calls. -/
def stageRows (version : PyVal) (calls : Calls) (i : ℕ) (tools : List Text) : List Fields :=
  tools.mapIdx fun j tool => outcome version tool (calls i j tool)

/-- `execute_tool_stages`, from a stage on. -/
def executeToolStages (version : PyVal) (calls : Calls) (c : Completion) : ℕ → List (List Text) → List Fields
  | _, [] => []
  | i, tools :: stages =>
    (if parallelOk tools then c.order i (stageRows version calls i tools)
      else stageRows version calls i tools) ++ executeToolStages version calls c (i + 1) stages

/-! ### The commit gate -/

/-- What the commit gate reads of the state. -/
structure CommitState where
  executionVersion : PyVal := .none
  interruptContext : Fields := PyDict.empty
  toolResults : List Fields := []

/-- `int(v)`. -/
def int (digit : Char → Option ℕ) (v : PyVal) : Except Raise ℤ :=
  match v.toInt? digit, v with
  | some n, _ => .ok n
  | none, .str _ => .error (.valueError "invalid literal for int() with base 10".toList)
  | none, _ => .error (.other "TypeError".toList [])

/-- `get_foreground_epoch`. -/
def CommitState.foregroundEpoch (digit : Char → Option ℕ) (st : CommitState) : ℤ :=
  max 0 ((((st.interruptContext.field "foreground_epoch").orElse (.int 0)).toInt? digit).getD 0)

/-- Whether the run has been interrupted or aborted. -/
def CommitState.stopped (st : CommitState) : Bool :=
  ((st.interruptContext.field "runtime_state").orElse (.str [])).toText ∈
    ["INTERRUPTED".toList, "ABORTED".toList]

/-- Whether a row passes the gate. -/
def current (digit : Char → Option ℕ) (st : CommitState) (row : Fields) : Except Raise Bool := do
  let sameVersion ←
    if st.executionVersion ≠ .none ∧ row.field "execution_version" ≠ .none then do
      let rowVersion ← int digit (row.field "execution_version")
      let expected ← int digit st.executionVersion
      pure (decide (rowVersion = expected))
    else pure true
  if sameVersion = false then pure false
  else if row.field "foreground_epoch" ≠ .none then do
    let rowEpoch ← int digit (row.field "foreground_epoch")
    pure (decide (st.foregroundEpoch digit ≤ rowEpoch))
  else pure true

/-- `filter_tool_observations_for_commit`. -/
def filterToolObservations (digit : Char → Option ℕ) (st : CommitState) (rows : List Fields) :
    Except Raise (List Fields) :=
  if st.stopped then .ok []
  else rows.foldlM (fun committed row => do
    let keep ← current digit st row
    pure (if keep then committed ++ [row] else committed)) []

/-- One row of the loop of `merge_observations_to_tool_results`, with the names seen so far. -/
def mergeRow (acc : List Fields × List Text) (row : Fields) : List Fields × List Text :=
  let tool := toolOf row
  if tool = [] then acc
  else if tool ∉ acc.2 then (acc.1 ++ [row], tool :: acc.2)
  else (acc.1.filter (fun r => nameOf r ≠ tool) ++ [row], acc.2)

/-- `merge_observations_to_tool_results`. -/
def mergeObservations (digit : Char → Option ℕ) (st : CommitState) (rows : List Fields) :
    Except Raise (List Fields) := do
  let filtered ← filterToolObservations digit st rows
  pure (filtered.foldl mergeRow (st.toolResults, st.toolResults.map nameOf)).1

/-! ### Fresh rows -/

/-- Rows that the gate lets through. -/
structure Fresh (digit : Char → Option ℕ) (st : CommitState) (rows : List Fields) : Prop where
  running : st.stopped = false
  current : ∀ row ∈ rows, current digit st row = .ok true

theorem Fresh.filter_eq {digit : Char → Option ℕ} {st : CommitState} {rows : List Fields}
    (h : Fresh digit st rows) : filterToolObservations digit st rows = .ok rows := by
  have hloop : ∀ (rest done : List Fields), (∀ row ∈ rest, Commit.current digit st row = .ok true) →
      rest.foldlM (fun committed row => do
        let keep ← Commit.current digit st row
        pure (if keep then committed ++ [row] else committed)) done = Except.ok (done ++ rest) := by
    intro rest
    induction rest with
    | nil => intro done _; exact congrArg Except.ok (List.append_nil done).symm
    | cons row rest ih =>
      intro done hrest
      rw [List.foldlM_cons, hrest row List.mem_cons_self]
      have hnext := ih (done ++ [row]) fun r hr => hrest r (List.mem_cons_of_mem _ hr)
      rw [List.append_assoc] at hnext
      exact hnext
  rw [filterToolObservations, h.running, if_neg Bool.false_ne_true]
  exact hloop rows [] h.current

/-- The rows merged one by one, without the names. -/
def putRow (merged : List Fields) (row : Fields) : List Fields :=
  if toolOf row = [] then merged else merged.filter (fun r => nameOf r ≠ toolOf row) ++ [row]

theorem nameOf_eq_toolOf {row : Fields} (h : toolOf row ≠ []) : nameOf row = toolOf row := by
  rw [toolOf, PyVal.orElse] at h ⊢
  split_ifs at h ⊢
  · rfl
  · exact absurd rfl h

/-- The names are those of the rows merged so far, so a new name has no row to take out. -/
theorem foldl_mergeRow (rows : List Fields) : ∀ (merged : List Fields) (names : List Text),
    (∀ r ∈ merged, nameOf r ∈ names) → (rows.foldl mergeRow (merged, names)).1 = rows.foldl putRow merged := by
  induction rows with
  | nil => intro merged names _; rfl
  | cons row rows ih =>
    intro merged names hnames
    rw [List.foldl_cons, List.foldl_cons, mergeRow, putRow]
    dsimp only
    split_ifs with hempty hseen
    · exact ih merged names hnames
    · refine ih _ _ fun r hr => ?_
      rcases List.mem_append.1 hr with hr | hr
      · exact hnames r (List.mem_of_mem_filter hr)
      · rw [List.mem_singleton.1 hr, nameOf_eq_toolOf hempty]
        exact hseen
    · have hall : merged.filter (fun r => nameOf r ≠ toolOf row) = merged := by
        refine List.filter_eq_self.2 fun r hr => decide_eq_true ?_
        intro heq
        exact hseen (heq ▸ hnames r hr)
      rw [hall]
      refine ih _ _ fun r hr => ?_
      rcases List.mem_append.1 hr with hr | hr
      · exact List.mem_cons_of_mem _ (hnames r hr)
      · rw [List.mem_singleton.1 hr, nameOf_eq_toolOf hempty]
        exact List.mem_cons_self

theorem Fresh.mergeObservations_eq {digit : Char → Option ℕ} {st : CommitState} {rows : List Fields}
    (h : Fresh digit st rows) : mergeObservations digit st rows = .ok (rows.foldl putRow st.toolResults) := by
  rw [mergeObservations, h.filter_eq, ← foldl_mergeRow rows st.toolResults _ fun r hr => List.mem_map_of_mem hr]
  rfl

/-! ### What the gate keeps -/

/-- The tools that the rows name. -/
def named (rows : List Fields) : List Text := (rows.map toolOf).filter fun t => t ≠ []

theorem mem_named {rows : List Fields} {t : Text} : t ∈ named rows ↔ t ≠ [] ∧ ∃ row ∈ rows, toolOf row = t := by
  simp [named, and_comm]

/-- The results of before that no row replaces. -/
def untouched (st : CommitState) (rows : List Fields) : List Fields :=
  st.toolResults.filter fun r => nameOf r ∉ named rows

/-- Rows of other names are left alone. -/
theorem filter_foldl_putRow {p : Fields → Bool} : ∀ {rows : List Fields} (merged : List Fields),
    (∀ r, nameOf r ∈ named rows → p r = false) → (rows.foldl putRow merged).filter p = merged.filter p
  | [], _, _ => rfl
  | row :: rows, merged, hp => by
    rw [List.foldl_cons, filter_foldl_putRow (putRow merged row) fun r hr => hp r ?_, putRow]
    · split_ifs with hempty
      · rfl
      · have hrow : p row = false :=
          hp row (mem_named.2 ⟨by rwa [nameOf_eq_toolOf hempty], row, List.mem_cons_self,
            (nameOf_eq_toolOf hempty).symm⟩)
        rw [List.filter_append, List.filter_cons_of_neg (by simp [hrow]), List.filter_nil, List.append_nil,
          List.filter_filter]
        refine List.filter_congr fun r _ => ?_
        by_cases hname : nameOf r = toolOf row
        · rw [hp r (mem_named.2 ⟨by rwa [hname], row, List.mem_cons_self, hname.symm⟩)]
          rfl
        · simp [hname]
    · obtain ⟨hne, row', hrow', heq⟩ := mem_named.1 hr
      exact mem_named.2 ⟨hne, row', List.mem_cons_of_mem _ hrow', heq⟩

/-- A tool that has a result keeps one, whatever is merged. -/
theorem one_of_foldl_putRow {t : Text} : ∀ {rows : List Fields} {merged : List Fields},
    (merged.filter fun r => nameOf r = t).length = 1 →
      ((rows.foldl putRow merged).filter fun r => nameOf r = t).length = 1
  | [], _, h => h
  | row :: rows, merged, h => by
    rw [List.foldl_cons]
    refine one_of_foldl_putRow ?_
    rw [putRow]
    split_ifs with hempty
    · exact h
    · rw [List.filter_append, List.filter_filter, List.filter_singleton, nameOf_eq_toolOf hempty]
      by_cases htool : toolOf row = t
      · have hnone : (merged.filter fun r => decide (nameOf r = t) && decide (nameOf r ≠ toolOf row)) = [] := by
          refine List.filter_eq_nil_iff.2 fun r _ => ?_
          simp [htool]
        rw [hnone]
        simp [htool]
      · have hsame : (merged.filter fun r => decide (nameOf r = t) && decide (nameOf r ≠ toolOf row)) =
            merged.filter fun r => nameOf r = t := by
          refine List.filter_congr fun r _ => ?_
          by_cases hr : nameOf r = t
          · simp [hr, Ne.symm htool]
          · simp [hr]
        rw [hsame]
        simpa [htool] using h

/-- Each tool that the rows name has one result when they are merged. -/
theorem one_of_named {t : Text} : ∀ {rows : List Fields} {merged : List Fields}, t ∈ named rows →
    ((rows.foldl putRow merged).filter fun r => nameOf r = t).length = 1
  | [], _, h => by simp [named] at h
  | row :: rows, merged, h => by
    rw [List.foldl_cons]
    obtain ⟨hne, row', hrow', htool⟩ := mem_named.1 h
    rcases List.mem_cons.1 hrow' with rfl | hrow'
    · refine one_of_foldl_putRow ?_
      have hempty : toolOf row' ≠ [] := by rwa [htool]
      have hnone : ((merged.filter fun r => nameOf r ≠ toolOf row').filter fun r => nameOf r = t) = [] := by
        refine List.filter_eq_nil_iff.2 fun r hr => ?_
        have hr := (List.mem_filter.1 hr).2
        simpa [htool] using hr
      rw [putRow, if_neg hempty, List.filter_append, hnone, List.filter_singleton, nameOf_eq_toolOf hempty,
        htool]
      simp
    · exact one_of_named (mem_named.2 ⟨hne, row', hrow', htool⟩)

/-- Rows that name different tools are all kept, in their order, behind what they leave alone. -/
theorem foldl_putRow_of_distinct : ∀ {rows : List Fields} (merged : List Fields),
    (∀ row ∈ rows, toolOf row ≠ []) → (rows.map toolOf).Nodup →
      rows.foldl putRow merged = merged.filter (fun r => nameOf r ∉ named rows) ++ rows
  | [], merged, _, _ => by
    simp [named]
  | row :: rows, merged, hnamed, hnodup => by
    have hempty := hnamed row List.mem_cons_self
    rw [List.map_cons, List.nodup_cons] at hnodup
    have hcons : named (row :: rows) = toolOf row :: named rows := by
      simp [named, hempty]
    have hrow : nameOf row ∉ named rows := by
      rw [nameOf_eq_toolOf hempty, mem_named]
      rintro ⟨-, row', hrow', heq⟩
      exact hnodup.1 (heq ▸ List.mem_map_of_mem hrow')
    rw [List.foldl_cons, foldl_putRow_of_distinct _ (fun r hr => hnamed r (List.mem_cons_of_mem _ hr)) hnodup.2,
      putRow, if_neg hempty, List.filter_append, List.filter_filter, List.filter_singleton, hcons,
      decide_eq_true hrow, cond_true, List.append_assoc, List.singleton_append]
    congr 1
    refine List.filter_congr fun r _ => ?_
    simp [and_comm]

/-! ### What a lossless merge takes -/

/-- Every row has a place of its own in the tool results, beside the earlier ones that no row replaces. -/
def Lossless (digit : Char → Option ℕ) (st : CommitState) (rows : List Fields) : Prop :=
  ∃ merged, mergeObservations digit st rows = .ok merged ∧ merged.Perm (untouched st rows ++ rows)

/-- Each row names a tool, and no two rows the same. -/
structure Distinct (rows : List Fields) : Prop where
  named : ∀ row ∈ rows, toolOf row ≠ []
  nodup : (rows.map toolOf).Nodup

theorem Distinct.perm {rows rows' : List Fields} (hperm : rows'.Perm rows) (h : Distinct rows) :
    Distinct rows' :=
  ⟨fun row hrow => h.named row (hperm.subset hrow), ((hperm.map toolOf).nodup_iff).2 h.nodup⟩

theorem Distinct.nodup_rows {rows : List Fields} (h : Distinct rows) : rows.Nodup := h.nodup.of_map _

theorem named_perm {rows rows' : List Fields} (hperm : rows'.Perm rows) (t : Text) :
    t ∈ named rows' ↔ t ∈ named rows :=
  ((hperm.map toolOf).filter _).mem_iff

theorem untouched_perm {st : CommitState} {rows rows' : List Fields} (hperm : rows'.Perm rows) :
    untouched st rows' = untouched st rows :=
  List.filter_congr fun r _ => decide_eq_decide.2 (not_congr (named_perm hperm (nameOf r)))

variable {digit : Char → Option ℕ} {st : CommitState} {rows : List Fields}

theorem Fresh.perm {rows' : List Fields} (hperm : rows'.Perm rows) (h : Fresh digit st rows) :
    Fresh digit st rows' := ⟨h.running, fun row hrow => h.current row (hperm.subset hrow)⟩

/-- Rows that name different tools are merged as they are. -/
theorem Fresh.merge_of_distinct (h : Fresh digit st rows) (hdistinct : Distinct rows) :
    mergeObservations digit st rows = .ok (untouched st rows ++ rows) := by
  rw [h.mergeObservations_eq, foldl_putRow_of_distinct _ hdistinct.named hdistinct.nodup]
  rfl

/-- The results under one name, where nothing is lost: those of before, or the one that the rows leave. -/
theorem length_of_perm (hperm : (rows.foldl putRow st.toolResults).Perm (untouched st rows ++ rows)) (t : Text) :
    (rows.filter fun r => nameOf r = t).length = if t ∈ named rows then 1 else 0 := by
  have hlen := (hperm.filter fun r => decide (nameOf r = t)).length_eq
  rw [List.filter_append, List.length_append, untouched, List.filter_filter] at hlen
  by_cases ht : t ∈ named rows
  · have hnone : (st.toolResults.filter fun r => decide (nameOf r = t) && decide (nameOf r ∉ named rows)) = [] := by
      refine List.filter_eq_nil_iff.2 fun r _ => ?_
      simp only [Bool.and_eq_true, decide_eq_true_eq]
      rintro ⟨rfl, hnot⟩
      exact hnot ht
    rw [one_of_named ht, hnone, List.length_nil] at hlen
    rw [if_pos ht]
    omega
  · have hsame : (st.toolResults.filter fun r => decide (nameOf r = t) && decide (nameOf r ∉ named rows)) =
        st.toolResults.filter fun r => nameOf r = t := by
      refine List.filter_congr fun r _ => ?_
      by_cases hr : nameOf r = t
      · simp [hr, ht]
      · simp [hr]
    have hleft : (rows.foldl putRow st.toolResults).filter (fun r => nameOf r = t) =
        st.toolResults.filter fun r => nameOf r = t :=
      filter_foldl_putRow st.toolResults fun r hr => decide_eq_false fun heq => ht (heq ▸ hr)
    rw [hleft, hsame] at hlen
    rw [if_neg ht]
    omega

theorem Fresh.distinct_of_lossless (h : Fresh digit st rows) (hlossless : Lossless digit st rows) :
    Distinct rows := by
  obtain ⟨merged, hmerged, hperm⟩ := hlossless
  rw [h.mergeObservations_eq] at hmerged
  rw [← Except.ok.inj hmerged] at hperm
  have hone := length_of_perm hperm
  have hnamed : ∀ row ∈ rows, toolOf row ≠ [] := by
    intro row hrow hempty
    have hin : row ∈ rows.filter fun r => nameOf r = nameOf row := List.mem_filter.2 ⟨hrow, by simp⟩
    have hrow1 := hone (nameOf row)
    split_ifs at hrow1 with hmem
    · -- a row without a tool and one whose tool has the same text: one of them is lost
      obtain ⟨hne, row', hrow', heq⟩ := mem_named.1 hmem
      have hne' : toolOf row' ≠ [] := by rwa [heq]
      have hin' : row' ∈ rows.filter fun r => nameOf r = nameOf row :=
        List.mem_filter.2 ⟨hrow', by rw [nameOf_eq_toolOf hne', heq]; simp⟩
      obtain ⟨only, honly⟩ := List.length_eq_one_iff.1 hrow1
      rw [honly, List.mem_singleton] at hin hin'
      exact hne' (by rw [hin', ← hin, hempty])
    · rw [List.eq_nil_of_length_eq_zero hrow1] at hin
      cases hin
  refine ⟨hnamed, List.nodup_iff_count_le_one.2 fun t => ?_⟩
  have hcount : (rows.map toolOf).count t = (rows.filter fun r => nameOf r = t).length := by
    rw [List.count_eq_length_filter, List.filter_map, List.length_map]
    refine congrArg List.length (List.filter_congr fun r hr => ?_)
    rw [nameOf_eq_toolOf (hnamed r hr), Function.comp_apply, Bool.beq_eq_decide_eq]
  rw [hcount, hone t]
  split_ifs <;> omega

/-- Nothing is lost exactly when each row names a tool of its own. -/
theorem Fresh.lossless_iff (h : Fresh digit st rows) : Lossless digit st rows ↔ Distinct rows :=
  ⟨h.distinct_of_lossless, fun hd => ⟨_, h.merge_of_distinct hd, .refl _⟩⟩

/-! ### The order of completion -/

variable {version : PyVal} {calls : Calls} {stages : List (List Text)}

theorem executeToolStages_perm (c : Completion) (i : ℕ) :
    (executeToolStages version calls c i stages).Perm (executeToolStages version calls .listed i stages) := by
  induction stages generalizing i with
  | nil => exact .refl _
  | cons tools stages ih =>
    rw [executeToolStages, executeToolStages]
    refine List.Perm.append ?_ (ih (i + 1))
    split_ifs
    · exact c.perm i _
    · exact .refl _

/-- Without parallel stages there is one order only. -/
theorem executeToolStages_of_sequential (c : Completion) (h : ∀ tools ∈ stages, parallelOk tools = false) (i : ℕ) :
    executeToolStages version calls c i stages = executeToolStages version calls .listed i stages := by
  induction stages generalizing i with
  | nil => rfl
  | cons tools stages ih =>
    rw [executeToolStages, executeToolStages, h tools List.mem_cons_self, if_neg Bool.false_ne_true,
      if_neg Bool.false_ne_true, ih (fun t ht => h t (List.mem_cons_of_mem _ ht)) (i + 1)]

theorem length_le_one_of_reverse {l : List Fields} (hnodup : l.Nodup) (h : l.reverse = l) : l.length ≤ 1 := by
  cases l with
  | nil => simp
  | cons a l =>
    cases l using List.reverseRecOn with
    | nil => simp
    | append_singleton l b =>
      -- the first of a list that reads the same both ways is its last
      have hhead : b = a := by
        have := congrArg List.head? h
        simpa using this
      rw [hhead] at hnodup
      simp at hnodup

/-- If the two orders give the same rows, and no row twice, no stage was parallel. -/
theorem sequential_of_reversed : ∀ {stages : List (List Text)} {i : ℕ},
    (executeToolStages version calls .listed i stages).Nodup →
    executeToolStages version calls .reversed i stages = executeToolStages version calls .listed i stages →
    ∀ tools ∈ stages, parallelOk tools = false
  | [], _, _, _ => by simp
  | tools :: stages, i, hnodup, heq => by
    rw [executeToolStages] at hnodup
    rw [executeToolStages, executeToolStages] at heq
    obtain ⟨hhead, htail⟩ := List.append_inj heq (by split_ifs <;> simp [Completion.reversed, Completion.listed])
    rw [List.nodup_append] at hnodup
    intro t ht
    rcases List.mem_cons.1 ht with rfl | ht
    · by_contra hpar
      have hpar : parallelOk t = true := by simpa using hpar
      rw [if_pos hpar, if_pos hpar] at hhead
      have hrows := hnodup.1
      rw [if_pos hpar] at hrows
      have hshort := length_le_one_of_reverse hrows hhead
      have hlong : 1 < t.length := by
        rw [parallelOk, Bool.and_eq_true] at hpar
        simpa using hpar.1
      simp [Completion.listed, stageRows] at hshort
      omega
    · exact sequential_of_reversed hnodup.2.1 htail t ht

/-! ### The commit -/

/-- The rows that the calls of all stages come to. -/
def executed (st : CommitState) (calls : Calls) (c : Completion) (stages : List (List Text)) : List Fields :=
  executeToolStages st.executionVersion calls c 0 stages

/-- The merge loses none of the fresh rows exactly when each names a tool of its own; and it also comes to
    the same results in whatever order the calls complete exactly when, besides, no stage is parallel. -/
theorem commit_iff (digit : Char → Option ℕ) (st : CommitState) (calls : Calls) (stages : List (List Text))
    (hfresh : ∀ c, Fresh digit st (executed st calls c stages)) :
    ((∀ c, Lossless digit st (executed st calls c stages)) ↔ Distinct (executed st calls .listed stages)) ∧
    ((∀ c, Lossless digit st (executed st calls c stages)) ∧
      (∀ c c', mergeObservations digit st (executed st calls c stages) =
        mergeObservations digit st (executed st calls c' stages)) ↔
      Distinct (executed st calls .listed stages) ∧ ∀ tools ∈ stages, parallelOk tools = false) := by
  have hperm : ∀ c, (executed st calls c stages).Perm (executed st calls .listed stages) :=
    fun c => executeToolStages_perm c 0
  have hlossless : (∀ c, Lossless digit st (executed st calls c stages)) ↔
      Distinct (executed st calls .listed stages) :=
    ⟨fun h => (hfresh .listed).distinct_of_lossless (h .listed),
      fun h c => (hfresh c).lossless_iff.2 (h.perm (hperm c))⟩
  refine ⟨hlossless, ?_⟩
  rw [hlossless]
  refine and_congr_right fun hdistinct => ⟨fun hsame => ?_, fun hseq c c' => ?_⟩
  · have hmerged := hsame .reversed .listed
    rw [(hfresh .reversed).merge_of_distinct (hdistinct.perm (hperm .reversed)),
      (hfresh .listed).merge_of_distinct hdistinct, untouched_perm (hperm .reversed)] at hmerged
    exact sequential_of_reversed hdistinct.nodup_rows (List.append_cancel_left (Except.ok.inj hmerged))
  · rw [executed, executed, executeToolStages_of_sequential c hseq, executeToolStages_of_sequential c' hseq]

/-- Calls that return their tool and their place in the stage. -/
def placed : Calls := fun _ j tool =>
  .ok ((PyDict.empty.put "tool" (.str tool)).put "result" (.int j))

theorem commit_iff_placed :
    ((∀ c, Lossless (fun _ => none) {} (executed {} placed c [["read_file".toList], ["grep_file".toList]])) ↔
      Distinct (executed {} placed .listed [["read_file".toList], ["grep_file".toList]])) := by
  refine (commit_iff (fun _ => none) {} placed _ fun c => ⟨by decide, ?_⟩).1
  rw [executed, executeToolStages_of_sequential c (by decide)]
  decide +kernel

/-- A tool that is called twice in a stage keeps one row. -/
theorem commit_loses_row :
    ¬ ∀ (digit : Char → Option ℕ) (st : CommitState) (calls : Calls) (stages : List (List Text)),
      (∀ c, Fresh digit st (executed st calls c stages)) →
      (∀ c, Lossless digit st (executed st calls c stages)) ∧
        ∀ c c', mergeObservations digit st (executed st calls c stages) =
          mergeObservations digit st (executed st calls c' stages) := by
  intro h
  have hfresh : Fresh (fun _ => none) {} (executed {} placed .listed [["read_file".toList, "read_file".toList]]) :=
    ⟨by decide, by decide +kernel⟩
  have hlost := (h _ _ placed _ fun c => hfresh.perm (executeToolStages_perm c 0)).1 .listed
  have hnodup := (hfresh.distinct_of_lossless hlost).nodup
  revert hnodup
  decide +kernel

end AgentLangraph.Tool.Commit
