import AgentLangraph.Tool.Staged
import AgentLangraph.Lib.Layers

/-! The stages that `parse_tool_stages` makes of a `tool_dag`: its nodes are taken away in layers, and each
    layer is split into its reads and its single writes.

        nodes, edges ──ready──▶ layers ──partition──▶ [reads] [write] [write] … -/

namespace AgentLangraph.Tool
open PyText Layers

/-- The tool of a node: its id where it names none. -/
def DagNode.toolName (n : DagNode) : Text := if n.tool = [] then n.id else n.tool

/-- The keys of the nodes of a graph. -/
def Dag.ids (d : Dag) : List Text := d.tools.entries.map Prod.fst

/-- An edge between two nodes. -/
def Dag.Edge (d : Dag) (src dst : Text) : Prop := (src, dst) ∈ d.edges ∧ src ∈ d.ids ∧ dst ∈ d.ids

/-! ### Layers -/

theorem picks_ready (o : Order) (edges : List (Text × Text)) : Picks (ready o edges) := by
  refine ⟨fun l a ha => ?_, fun l hl => ?_, fun l hl => ?_⟩
  · rw [ready] at ha
    split_ifs at ha
    · exact (o.perm l).subset (List.mem_of_mem_take ha)
    · exact List.mem_of_mem_filter ((o.perm _).subset ha)
  · rw [ready]
    split_ifs with hfree
    · intro hnil
      have hlen := congrArg List.length hnil
      have hpos := List.length_pos_iff.2 hl
      rw [List.length_take, (o.perm l).length_eq, List.length_nil] at hlen
      omega
    · intro hnil
      have hperm := o.perm (l.filter fun n => !edges.any fun e => e.2 == n && e.1 ∈ l)
      rw [hnil] at hperm
      exact hfree (List.Perm.eq_nil hperm.symm)
  · rw [ready]
    split_ifs
    · exact ((o.perm l).nodup_iff.2 hl).sublist (List.take_sublist _ _)
    · exact (o.perm _).nodup_iff.2 (hl.filter _)

/-- The layers of `_stages_from_dag` are the rounds of a loop, by their tools. -/
theorem dagLayers_eq (o : Order) (tools : PyDict Text Text) (edges : List (Text × Text)) :
    ∀ (fuel : ℕ) (l : List Text), dagLayers o tools edges fuel l =
      (rounds (ready o edges) fuel l).map (List.filterMap tools.get?) := by
  intro fuel
  induction fuel with
  | zero => intro l; rfl
  | succ fuel ih =>
    intro l
    rw [dagLayers, rounds]
    split_ifs
    · rfl
    · have hrest : (l.filter fun n => n ∉ ready o edges l) = rest (ready o edges) l :=
        List.filter_congr fun n _ => decide_eq_decide.2 Iff.rfl
      dsimp only
      rw [List.map_cons, ← ih, hrest]

/-- Without cycles something that remains has no predecessor that remains, so that nothing is picked before
    its predecessors. -/
theorem not_mem_ready {o : Order} {d : Dag} (hacyclic : Acyclic d.Edge) {src dst : Text}
    (hedge : d.Edge src dst) {l : List Text} (hl : l ⊆ d.ids) (hsrc : src ∈ l) : dst ∉ ready o d.edges l := by
  intro hdst
  have hfree : ∀ n, n ∈ l.filter (fun n => !d.edges.any fun e => e.2 == n && e.1 ∈ l) ↔
      n ∈ l ∧ ∀ m ∈ l, (m, n) ∉ d.edges := by
    intro n
    simp only [List.mem_filter, Bool.not_eq_true', List.any_eq_false, Bool.and_eq_true, beq_iff_eq,
      decide_eq_true_eq, not_and]
    refine and_congr_right fun _ => ⟨fun h m hm hmem => h _ hmem rfl hm, ?_⟩
    rintro h ⟨m, n'⟩ hmem rfl hm
    exact h m hm hmem
  rw [ready] at hdst
  split_ifs at hdst with hnil
  · -- a graph without cycles has a node that is free, so this branch is not taken
    obtain ⟨n, hn, hfirst⟩ := hacyclic.exists_first (List.ne_nil_of_mem hsrc)
    have hin := (hfree n).2 ⟨hn, fun m hm hmem => hfirst m hm ⟨hmem, hl hm, hl hn⟩⟩
    rw [hnil] at hin
    cases hin
  · exact ((hfree dst).1 ((o.perm _).subset hdst)).2 src hsrc hedge.1

/-! ### The split by side effect -/

/-- The reads of a stage, and each of its writes. -/
def sides (tools : List Text) : List (List Text) :=
  (if tools.filter toolIsReadOnly = [] then [] else [tools.filter toolIsReadOnly]) ++
    (tools.filter fun t => !toolIsReadOnly t).map fun w => [w]

theorem partitionStage_eq (tools : List Text) :
    partitionStage tools = if sides tools = [] then [tools] else sides tools := rfl

theorem flatten_singletons (l : List Text) : (l.map fun w => [w]).flatten = l := by
  induction l with
  | nil => rfl
  | cons w l ih => rw [List.map_cons, List.flatten_cons, ih, List.singleton_append]

theorem flatten_sides (tools : List Text) : (sides tools).flatten.Perm tools := by
  have hreads : (if tools.filter toolIsReadOnly = [] then []
      else [tools.filter toolIsReadOnly]).flatten = tools.filter toolIsReadOnly := by
    split_ifs with h
    · exact h.symm
    · simp
  rw [sides, List.flatten_append, hreads, flatten_singletons]
  exact List.filter_append_perm _ _

theorem flatten_partitionStage (tools : List Text) : (partitionStage tools).flatten.Perm tools := by
  rw [partitionStage_eq]
  split_ifs with hnil
  · simp
  · exact flatten_sides tools

/-- A stage of several tools only reads. -/
theorem readOnly_of_mem_partitionStage {tools stage : List Text} (h : stage ∈ partitionStage tools)
    (hlong : 1 < stage.length) : stage.all toolIsReadOnly := by
  rw [partitionStage_eq] at h
  split_ifs at h with hnil
  · obtain rfl := List.mem_singleton.1 h
    have hperm := flatten_sides stage
    rw [hnil] at hperm
    rw [List.Perm.eq_nil hperm.symm] at hlong
    simp at hlong
  · rw [sides] at h
    rcases List.mem_append.1 h with h | h
    · split_ifs at h
      · cases h
      · obtain rfl := List.mem_singleton.1 h
        exact List.all_eq_true.2 fun t ht => (List.mem_filter.1 ht).2
    · obtain ⟨w, -, rfl⟩ := List.mem_map.1 h
      simp at hlong

theorem flatten_normalizeStages (stages : List (List Text)) :
    (normalizeStages stages).flatten.Perm stages.flatten := by
  induction stages with
  | nil => exact .refl _
  | cons stage stages ih =>
    rw [normalizeStages, List.flatMap_cons, List.flatten_append, List.flatten_cons]
    exact (flatten_partitionStage stage).append ih

/-! ### The nodes of the graph -/

theorem nodup_ids (d : Dag) : d.ids.Nodup := d.tools.nodup

theorem mem_ids {d : Dag} {id tool : Text} (h : d.tools.get? id = some tool) : id ∈ d.ids :=
  List.mem_map_of_mem (PyDict.mem_entries.2 h)

/-- The tools of all layers are those of the nodes, in another order. -/
theorem flatten_dagLayers (o : Order) (d : Dag) :
    (dagLayers o d.tools d.edges d.ids.length d.ids).flatten.Perm (d.ids.filterMap d.tools.get?) := by
  have hflat : ∀ layers : List (List Text), (layers.map (List.filterMap d.tools.get?)).flatten =
      layers.flatten.filterMap d.tools.get? := by
    intro layers
    induction layers with
    | nil => rfl
    | cons layer layers ih =>
      rw [List.map_cons, List.flatten_cons, List.flatten_cons, List.filterMap_append, ih]
  rw [dagLayers_eq, hflat]
  exact ((picks_ready o d.edges).flatten_rounds le_rfl (nodup_ids d)).filterMap _

/-- The stages of a payload that has a graph and no stages. -/
theorem parseToolStages_of_dag {o : Order} {x : NodeState} {d : Dag} (hstages : x.toolStages = [])
    (hdag : x.toolDag = some d) (hids : d.ids ≠ []) :
    parseToolStages o x = normalizeStages (dagLayers o d.tools d.edges d.ids.length d.ids) := by
  have hnodes : d.nodes ≠ [] := by
    intro hnil
    exact hids (by rw [Dag.ids, Dag.tools, hnil]; rfl)
  have hempty : (x.toolStages.map Stage.names).filter (· ≠ []) = [] := by rw [hstages]; rfl
  rw [parseToolStages]
  simp only [hempty, hdag, ne_eq, not_true_eq_false, if_false]
  rw [if_neg hnodes, stagesFromDag]
  exact congrArg normalizeStages (if_neg hids)

/-- Every stage of several tools only reads, whatever the payload. -/
theorem readOnly_of_mem_parseToolStages {o : Order} {x : NodeState} (hstages : x.toolStages = [])
    {stage : List Text} (h : stage ∈ parseToolStages o x) (hlong : 1 < stage.length) :
    stage.all toolIsReadOnly := by
  have hsingle : stage ∉ x.selectedTools.map fun t => [t] := by
    intro hmem
    obtain ⟨t, -, rfl⟩ := List.mem_map.1 hmem
    simp at hlong
  have hempty : (x.toolStages.map Stage.names).filter (· ≠ []) = [] := by rw [hstages]; rfl
  rw [parseToolStages] at h
  simp only [hempty, ne_eq, not_true_eq_false, if_false] at h
  cases hdag : x.toolDag with
  | none =>
    rw [hdag] at h
    exact absurd h hsingle
  | some d =>
    rw [hdag] at h
    dsimp only at h
    split_ifs at h with hnodes
    · exact absurd h hsingle
    · obtain ⟨tools, -, hin⟩ := List.mem_flatMap.1 h
      exact readOnly_of_mem_partitionStage hin hlong

/-- The tool that counts for a key is in the stages. -/
theorem mem_stages {o : Order} {x : NodeState} {d : Dag} (hstages : x.toolStages = [])
    (hdag : x.toolDag = some d) {id tool : Text} (h : d.tools.get? id = some tool) :
    tool ∈ (parseToolStages o x).flatten := by
  rw [parseToolStages_of_dag hstages hdag (List.ne_nil_of_mem (mem_ids h))]
  refine (flatten_normalizeStages _).mem_iff.2 ((flatten_dagLayers o d).mem_iff.2 ?_)
  exact List.mem_filterMap.2 ⟨id, mem_ids h, h⟩

/-- The source of an edge is in a strictly earlier stage than its target, where there are no cycles. -/
theorem precedes_stages {o : Order} {x : NodeState} {d : Dag} (hstages : x.toolStages = [])
    (hdag : x.toolDag = some d) (hacyclic : Acyclic d.Edge) {src dst a b : Text} (hedge : d.Edge src dst)
    (ha : d.tools.get? src = some a) (hb : d.tools.get? dst = some b) :
    Precedes (parseToolStages o x) a b := by
  have hrounds := (picks_ready o d.edges).precedes (fun l hl hsrc => not_mem_ready (o := o) hacyclic hedge hl hsrc)
    le_rfl (nodup_ids d) (List.Subset.refl _) hedge.2.1 hedge.2.2
  have hsplit : normalizeStages (dagLayers o d.tools d.edges d.ids.length d.ids) =
      (rounds (ready o d.edges) d.ids.length d.ids).flatMap fun layer =>
        partitionStage (layer.filterMap d.tools.get?) := by
    rw [normalizeStages, dagLayers_eq, List.flatMap_map]
  rw [parseToolStages_of_dag hstages hdag (List.ne_nil_of_mem (mem_ids ha)), hsplit]
  refine hrounds.flatMap (fun layer hin => ?_) fun layer hin => ?_
  · exact (flatten_partitionStage _).mem_iff.2 (List.mem_filterMap.2 ⟨src, hin, ha⟩)
  · exact (flatten_partitionStage _).mem_iff.2 (List.mem_filterMap.2 ⟨dst, hin, hb⟩)

/-! ### Graphs with different ids and tools -/

/-- Every node has an id and a tool of its own. -/
structure Dag.Distinct (d : Dag) : Prop where
  id_ne_nil : ∀ n ∈ d.nodes, n.id ≠ []
  ids_nodup : (d.nodes.map DagNode.id).Nodup
  tools_nodup : (d.nodes.map DagNode.toolName).Nodup

theorem DagNode.entry_of_id {n : DagNode} (h : n.id ≠ []) : n.entry = some (n.id, n.toolName) := by
  by_cases htool : n.tool = [] <;> simp [DagNode.entry, DagNode.toolName, h, htool]

theorem Dag.Distinct.entries_eq {d : Dag} (h : d.Distinct) :
    d.tools.entries = d.nodes.map fun n => (n.id, n.toolName) := by
  have hmap : d.nodes.filterMap DagNode.entry = d.nodes.map fun n => (n.id, n.toolName) := by
    rw [← List.filterMap_eq_map]
    exact List.filterMap_congr fun n hn => DagNode.entry_of_id (h.id_ne_nil n hn)
  rw [Dag.tools, hmap]
  refine PyDict.entries_ofList ?_
  rw [List.map_map]
  exact h.ids_nodup

theorem Dag.Distinct.get?_id {d : Dag} (h : d.Distinct) {n : DagNode} (hn : n ∈ d.nodes) :
    d.tools.get? n.id = some n.toolName := by
  rw [← PyDict.mem_entries, h.entries_eq]
  exact List.mem_map.2 ⟨n, hn, rfl⟩

/-- Every node's tool is in just one place of the stages. -/
theorem Dag.Distinct.count_stages {d : Dag} (h : d.Distinct) {o : Order} {x : NodeState}
    (hstages : x.toolStages = []) (hdag : x.toolDag = some d) {n : DagNode} (hn : n ∈ d.nodes) :
    (parseToolStages o x).flatten.count n.toolName = 1 := by
  have hids : d.ids ≠ [] := List.ne_nil_of_mem (mem_ids (h.get?_id hn))
  have htools : d.ids.filterMap d.tools.get? = d.nodes.map DagNode.toolName := by
    rw [Dag.ids, h.entries_eq, List.map_map, List.filterMap_map, ← List.filterMap_eq_map]
    exact List.filterMap_congr fun m hm => h.get?_id hm
  have hperm := (flatten_normalizeStages _).trans (flatten_dagLayers o d)
  rw [htools, ← parseToolStages_of_dag hstages hdag hids] at hperm
  rw [hperm.count_eq]
  exact List.count_eq_one_of_mem h.tools_nodup (List.mem_map_of_mem hn)

/-! ### The stages of a graph -/

/-- The last node of its key: the tool of the key is its own. -/
theorem get?_of_last {d : Dag} {before after : List DagNode} {n : DagNode} {id tool : Text}
    (hnodes : d.nodes = before ++ n :: after) (hentry : n.entry = some (id, tool))
    (hlast : ∀ later ∈ after, ∀ e, later.entry = some e → e.1 ≠ id) : d.tools.get? id = some tool := by
  rw [Dag.tools, hnodes, List.filterMap_append, List.filterMap_cons_some hentry]
  refine PyDict.get?_ofList_append fun hmem => ?_
  obtain ⟨e, he, hid⟩ := List.mem_map.1 hmem
  obtain ⟨later, hlater, hsome⟩ := List.mem_filterMap.1 he
  exact hlast later hlater e hsome hid

/-- Stages of a graph: with different ids and tools and without cycles, every tool is in one stage, after
    the stages of its predecessors, and stages of several tools only read. Whatever the graph, the loop over
    its layers ends, and a node's tool is lost only to a later node of the same key. -/
theorem dag_scheduled (o : Order) (x : NodeState) (d : Dag) (hstages : x.toolStages = [])
    (hdag : x.toolDag = some d) :
    (d.Distinct → Acyclic d.Edge →
      (∀ n ∈ d.nodes, (parseToolStages o x).flatten.count n.toolName = 1) ∧
      (∀ a ∈ d.nodes, ∀ b ∈ d.nodes, (a.id, b.id) ∈ d.edges →
        Precedes (parseToolStages o x) a.toolName b.toolName) ∧
      ∀ stage ∈ parseToolStages o x, 1 < stage.length → stage.all toolIsReadOnly) ∧
    (∃ layers, Loop.Returns (round (ready o d.edges)) (d.ids, []) layers ∧
      (d.ids ≠ [] →
        parseToolStages o x = normalizeStages (layers.map (List.filterMap d.tools.get?)))) ∧
    ∀ before n after id tool, d.nodes = before ++ n :: after → n.entry = some (id, tool) →
      (∀ later ∈ after, ∀ e, later.entry = some e → e.1 ≠ id) → tool ∈ (parseToolStages o x).flatten := by
  refine ⟨fun hdistinct hacyclic => ⟨?_, ?_, ?_⟩, ?_, ?_⟩
  · exact fun n hn => hdistinct.count_stages hstages hdag hn
  · intro a ha b hb hedge
    have hsrc := hdistinct.get?_id ha
    have hdst := hdistinct.get?_id hb
    exact precedes_stages hstages hdag hacyclic ⟨hedge, mem_ids hsrc, mem_ids hdst⟩ hsrc hdst
  · exact fun stage h hlong => readOnly_of_mem_parseToolStages hstages h hlong
  · refine ⟨_, (picks_ready o d.edges).returns_rounds [] le_rfl, fun hids => ?_⟩
    rw [parseToolStages_of_dag hstages hdag hids, dagLayers_eq, List.nil_append]
  · intro before n after id tool hnodes hentry hlast
    exact mem_stages hstages hdag (get?_of_last hnodes hentry hlast)

/-- Two files are read, then one is written. -/
def readThenWrite : Dag where
  nodes := [⟨"a".toList, "read_file".toList⟩, ⟨"b".toList, "grep_file".toList⟩, ⟨"c".toList, "write_file".toList⟩]
  edges := [("a".toList, "c".toList), ("b".toList, "c".toList)]

theorem dag_scheduled_readThenWrite :
    Precedes (parseToolStages .listed { taskId := [], toolDag := some readThenWrite }) "grep_file".toList
      "write_file".toList := by
  have hedge : ∀ src dst, readThenWrite.Edge src dst → dst = "c".toList ∧ src ≠ "c".toList := by
    rintro src dst ⟨hmem, -, -⟩
    have hcases : (src = "a".toList ∨ src = "b".toList) ∧ dst = "c".toList := by
      simpa [readThenWrite, or_and_right] using hmem
    obtain ⟨rfl | rfl, rfl⟩ := hcases <;> decide
  have hacyclic : Acyclic readThenWrite.Edge := by
    intro a hcycle
    obtain ⟨b, hfirst, -⟩ := Relation.TransGen.head'_iff.1 hcycle
    obtain ⟨c, -, hlast⟩ := Relation.TransGen.tail'_iff.1 hcycle
    exact (hedge a b hfirst).2 (hedge c a hlast).1
  exact ((dag_scheduled .listed _ readThenWrite rfl rfl).1
    ⟨by decide, by decide, by decide⟩ hacyclic).2.1 _ (List.mem_cons_of_mem _ List.mem_cons_self)
      _ (List.mem_cons_of_mem _ (List.mem_cons_of_mem _ List.mem_cons_self)) (by decide)

/-- Two nodes of one id: the tool of the first is lost. -/
theorem dag_loses_tool :
    ¬ ∀ (o : Order) (x : NodeState) (d : Dag), x.toolStages = [] → x.toolDag = some d →
      ∀ n ∈ d.nodes, ∀ e, n.entry = some e → e.2 ∈ (parseToolStages o x).flatten := by
  intro h
  have hlost := h .listed
    { taskId := [], toolDag := some ⟨[⟨"a".toList, "read_file".toList⟩, ⟨"a".toList, "grep_file".toList⟩], []⟩ }
    _ rfl rfl _ List.mem_cons_self _ rfl
  revert hlost
  decide +kernel

end AgentLangraph.Tool
