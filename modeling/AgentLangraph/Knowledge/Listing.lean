import AgentLangraph.Knowledge.RoundTrip
import AgentLangraph.Lib.PyEdit
import Mathlib.Data.Char
import Mathlib.Data.List.Lex

/-! The listing of the catalog (`list_documents` of `knowledge_store.py`). A document is one row, or a parent row
    and its chunks; the chunks name their parent once, but the parent row is listed as well. -/

namespace AgentLangraph.Knowledge
open PyText Trace

/-- One entry of the listing. -/
structure Listed where
  docId : Text
  title : Text
  createdAt : Text
  deriving DecidableEq

/-- `title.split(" — ", 1)[0]`. -/
def parentTitle (title : Text) : Text := title.take ((find " — ".toList title).getD title.length)

/-- The loop, with the parents that chunks have named. -/
def listRows : List Text → List Row → List Listed
  | _, [] => []
  | seenParents, row :: rows =>
    let parent := textField row.metadata "parent_doc_id"
    if isChunk row.metadata then
      if parent ≠ [] ∧ parent ∉ seenParents then
        ⟨parent, parentTitle row.title, row.createdAt⟩ :: listRows (parent :: seenParents) rows
      else listRows seenParents rows
    else if isParentCatalogRow row.metadata then
      ⟨row.docId, row.title, row.createdAt⟩ :: listRows seenParents rows
    else if parent ≠ [] then listRows seenParents rows
    else ⟨row.docId, row.title, row.createdAt⟩ :: listRows seenParents rows

/-- `rows` are the rows of the table as the query returns them. -/
def listDocuments (rows : List Row) (limit : ℤ) : List Listed := sliceTo (listRows [] rows) limit

/-- `ORDER BY created_at DESC`; rows of the same time come in any order. -/
structure Table.Selects (t : Table) (rows : List Row) : Prop where
  perm : rows.Perm t.rows
  newestFirst : rows.Pairwise fun a b => b.createdAt ≤ a.createdAt

/-! ### What is stored -/

/-- The documents that have been written and not been deleted since. -/
def storedStep (stored : List Text) : Op → List Text
  | .upsert call => if call.did ∈ stored then stored else stored ++ [call.did]
  | .delete docId => stored.filter (· ≠ docId)

def storedDocs (history : List Op) : List Text := run storedStep [] history

/-- What an operation leaves of the rows of the document `d`. -/
def leftStep (cfg : Config) (d : Text) (rows : List Row) (op : Op) : List Row :=
  if op.doc = d then op.rows cfg else rows.filter fun r => !r.takenBy op.doc

/-- The rows that the last operation on `d` wrote, less those that later operations on other documents took. -/
def left (cfg : Config) (history : List Op) (d : Text) : List Row := run (leftStep cfg d) [] history

/-- A row that stands for itself in the listing. -/
def Row.listsItself (row : Row) : Bool :=
  !isChunk row.metadata && (isParentCatalogRow row.metadata || textField row.metadata "parent_doc_id" = [])

/-- The document's own row is there and is listed, and no chunk names the document a second time. -/
structure StandsOnce (cfg : Config) (history : List Op) (d : Text) : Prop where
  own : ∃ row ∈ left cfg history d, row.listsItself
  noChunk : d = [] ∨ ∀ row ∈ left cfg history d, isChunk row.metadata = false

instance (cfg : Config) (history : List Op) (d : Text) : Decidable (StandsOnce cfg history d) :=
  decidable_of_iff ((∃ row ∈ left cfg history d, row.listsItself) ∧
    (d = [] ∨ ∀ row ∈ left cfg history d, isChunk row.metadata = false)) ⟨fun h => ⟨h.1, h.2⟩, fun h => ⟨h.1, h.2⟩⟩

/-- Every limit: no id twice, and under a limit that is large enough the ids of the stored documents. -/
structure ListsAllOnce (history : List Op) (rows : List Row) : Prop where
  nodup : ∀ limit, ((listDocuments rows limit).map Listed.docId).Nodup
  complete : ∀ limit : ℤ, (storedDocs history).length ≤ limit →
    ∀ d, d ∈ (listDocuments rows limit).map Listed.docId ↔ d ∈ storedDocs history

/-! ### The stored documents and their rows -/

theorem storedDocs_concat (history : List Op) (op : Op) :
    storedDocs (history ++ [op]) = storedStep (storedDocs history) op := by
  rw [storedDocs, run_append]
  rfl

theorem left_concat (cfg : Config) (history : List Op) (op : Op) (d : Text) :
    left cfg (history ++ [op]) d = leftStep cfg d (left cfg history d) op := by
  rw [left, run_append]
  rfl

theorem nodup_storedDocs (history : List Op) : (storedDocs history).Nodup := by
  induction history using List.reverseRecOn with
  | nil => exact List.nodup_nil
  | append_singleton history op ih =>
    rw [storedDocs_concat]
    cases op with
    | upsert call =>
      rw [storedStep]
      split_ifs with hmem
      · exact ih
      · exact List.nodup_append.2 ⟨ih, List.nodup_singleton _, by
          rintro a ha b hb rfl
          exact hmem (List.mem_singleton.1 hb ▸ ha)⟩
    | delete docId => exact ih.filter _

/-- The abstract rows are those of the table. -/
theorem rowsOf_run_left (cfg : Config) (history : List Op) (d : Text) :
    (run (Table.act cfg) .empty history).rowsOf d = left cfg history d := by
  induction history using List.reverseRecOn with
  | nil => rfl
  | append_singleton history op ih =>
    rw [left_concat, leftStep, run_append]
    split_ifs with hdoc
    · rw [← hdoc]
      exact rowsOf_act cfg _ op
    · have hnew : (op.rows cfg).filter (fun r => r.owner = d) = [] := by
        rw [List.filter_eq_nil_iff]
        exact fun row hrow => by simp [owner_op_rows cfg op row hrow, hdoc]
      rw [← ih, run_cons, run_nil, Table.rowsOf, rows_act, List.filter_append, hnew, List.append_nil, Table.rowsOf,
        List.filter_filter, List.filter_filter]
      exact List.filter_congr fun r _ => Bool.and_comm _ _

theorem owner_of_left {cfg : Config} {history : List Op} {d : Text} {row : Row} (h : row ∈ left cfg history d) :
    row.owner = d := by
  rw [← rowsOf_run_left, Table.rowsOf, List.mem_filter, decide_eq_true_eq] at h
  exact h.2

/-- Nothing is left of a document that is not stored. -/
theorem left_of_not_stored {cfg : Config} {history : List Op} {d : Text} :
    d ∉ storedDocs history → left cfg history d = [] := by
  induction history using List.reverseRecOn with
  | nil => exact fun _ => rfl
  | append_singleton history op ih =>
    intro hstored
    rw [storedDocs_concat] at hstored
    rw [left_concat, leftStep]
    split_ifs with hdoc
    · cases op with
      | upsert call =>
        refine absurd ?_ hstored
        rw [storedStep, ← hdoc, Op.doc]
        split_ifs with hmem
        · exact hmem
        · simp
      | delete docId => rfl
    · rw [ih, List.filter_nil]
      cases op with
      | upsert call =>
        rw [storedStep] at hstored
        split_ifs at hstored
        · exact hstored
        · exact fun hmem => hstored (List.mem_append_left _ hmem)
      | delete docId =>
        intro hmem
        exact hstored (List.mem_filter.2 ⟨hmem, decide_eq_true (Ne.symm hdoc)⟩)

/-- A document that is written in chunks has its parent row first. -/
theorem parent_of_chunk_rows {cfg : Config} {op : Op} {row : Row} (h : row ∈ op.rows cfg)
    (hchunk : isChunk row.metadata) : ∃ parent ∈ op.rows cfg, isChunk parent.metadata = false ∧
      isParentCatalogRow parent.metadata ∧ parent.docId = op.doc ∧ chunkPrefix op.doc <+: row.docId := by
  cases op with
  | delete docId => exact nomatch h
  | upsert c =>
    have hsingle : isChunk (c.singleRow cfg).metadata = false := by
      simp [Upsert.singleRow, isChunk, PyVal.truthy]
    have honly (only : Option KnowledgeChunkSpec) : isChunk (c.onlyRow cfg only).metadata = false := by
      simp [Upsert.onlyRow, isChunk, PyDict.field_put_ne, PyVal.truthy]
    rw [Op.rows, Upsert.rows] at h ⊢
    split_ifs at h ⊢ with hshould
    · rw [List.mem_singleton.1 h, hsingle] at hchunk
      exact absurd hchunk (by decide)
    · rcases hchunks : c.chunks cfg with _ | ⟨only, _ | ⟨spec, rest⟩⟩
      · rw [hchunks] at h
        rw [List.mem_singleton.1 h, honly] at hchunk
        exact absurd hchunk (by decide)
      · rw [hchunks] at h
        rw [List.mem_singleton.1 h, honly] at hchunk
        exact absurd hchunk (by decide)
      · rw [hchunks] at h
        have hparent (count : ℕ) : isChunk (c.parentRow cfg count).metadata = false := by
          simp [Upsert.parentRow, isChunk, PyDict.field_put_ne, PyVal.truthy]
        refine ⟨_, List.mem_cons_self, hparent _, ?_, rfl, ?_⟩
        · simp [Upsert.parentRow, isParentCatalogRow, PyDict.field_put_ne, PyVal.truthy]
        · rcases List.mem_cons.1 h with rfl | hrow
          · rw [hparent] at hchunk
            exact absurd hchunk (by decide)
          · obtain ⟨s, -, rfl⟩ := List.mem_map.1 hrow
            exact chunkPrefix_begins c.did s.chunkIndex

/-- What takes the parent row of a document takes its chunks too. -/
theorem parent_left {cfg : Config} {history : List Op} {d : Text} : ∀ {row : Row}, row ∈ left cfg history d →
    isChunk row.metadata → ∃ parent ∈ left cfg history d, isChunk parent.metadata = false ∧
      isParentCatalogRow parent.metadata ∧ parent.docId = d ∧ chunkPrefix d <+: row.docId := by
  induction history using List.reverseRecOn with
  | nil => exact fun h => nomatch h
  | append_singleton history op ih =>
    intro row h hchunk
    rw [left_concat, leftStep] at h ⊢
    split_ifs at h ⊢ with hdoc
    · obtain ⟨parent, hmem, hnot, hparent, hid, hfront⟩ := parent_of_chunk_rows h hchunk
      exact ⟨parent, hmem, hnot, hparent, hid.trans hdoc, hdoc ▸ hfront⟩
    · obtain ⟨hrow, hkept⟩ := List.mem_filter.1 h
      obtain ⟨parent, hmem, hnot, hparent, hid, hfront⟩ := ih hrow hchunk
      refine ⟨parent, List.mem_filter.2 ⟨hmem, ?_⟩, hnot, hparent, hid, hfront⟩
      rw [Bool.not_eq_true', ← Bool.not_eq_true] at hkept ⊢
      intro htaken
      have hne (r : Row) (hr : r ∈ left cfg history d) : r.owner ≠ op.doc := by
        rw [owner_of_left hr]
        exact Ne.symm hdoc
      rw [takenBy_iff (hne parent hmem), hid] at htaken
      refine hkept ((takenBy_iff (hne row hrow)).2 (Or.inr ?_))
      -- the id of a chunk begins with that of the document
      exact ((htaken.resolve_left (Ne.symm hdoc)).trans (List.prefix_append d _)).trans hfront

/-! ### How often an id is listed -/

/-- A chunk that names `d`. -/
def Row.names (d : Text) (row : Row) : Bool := isChunk row.metadata && textField row.metadata "parent_doc_id" = d

theorem count_listRows (d : Text) (rows : List Row) : ∀ seen : List Text,
    ((listRows seen rows).map Listed.docId).count d =
      (rows.countP fun r => r.listsItself && r.docId = d) +
        if d ≠ [] ∧ d ∉ seen ∧ rows.any (Row.names d) then 1 else 0 := by
  induction rows with
  | nil => simp [listRows]
  | cons row rows ih =>
    intro seen
    rw [listRows, List.countP_cons, List.any_cons]
    cases hchunk : isChunk row.metadata with
    | true =>
      have hitself : row.listsItself = false := by simp [Row.listsItself, hchunk]
      have hnames : row.names d = decide (textField row.metadata "parent_doc_id" = d) := by simp [Row.names, hchunk]
      rw [if_pos rfl, hitself, hnames]
      by_cases hparent : textField row.metadata "parent_doc_id" = d
      · rw [hparent]
        by_cases hfresh : d ≠ [] ∧ d ∉ seen
        · rw [if_pos hfresh, List.map_cons, List.count_cons, ih]
          simp [hfresh]
        · rw [if_neg hfresh, ih]
          rw [not_and_or, not_not] at hfresh
          rcases hfresh with rfl | hseen <;> simp_all
      · have hne : d ≠ textField row.metadata "parent_doc_id" := Ne.symm hparent
        by_cases hfresh : textField row.metadata "parent_doc_id" ≠ [] ∧ textField row.metadata "parent_doc_id" ∉ seen
        · rw [if_pos hfresh, List.map_cons, List.count_cons_of_ne hparent, ih]
          simp [hparent, hne]
        · rw [if_neg hfresh, ih]
          simp [hparent]
    | false =>
      have hnames : row.names d = false := by simp [Row.names, hchunk]
      have hcount (rest : List Listed) : ((⟨row.docId, row.title, row.createdAt⟩ :: rest).map Listed.docId).count d =
          (rest.map Listed.docId).count d + if row.docId = d then 1 else 0 := by
        simp [List.count_cons]
      rw [if_neg (by decide), hnames, Bool.false_or]
      by_cases hparent : isParentCatalogRow row.metadata = true
      · rw [if_pos hparent, hcount, ih]
        simp [Row.listsItself, hchunk, hparent, add_right_comm]
      · rw [if_neg hparent]
        by_cases hskip : textField row.metadata "parent_doc_id" = []
        · rw [if_neg (not_not.2 hskip), hcount, ih]
          simp [Row.listsItself, hchunk, hskip, add_right_comm]
        · rw [if_pos hskip, ih]
          simp [Row.listsItself, hparent, hskip]

theorem not_isChunk_of_listsItself {row : Row} (h : row.listsItself) : isChunk row.metadata = false := by
  rw [Row.listsItself, Bool.and_eq_true, Bool.not_eq_true'] at h
  exact h.1

/-- An id is listed for its own row, and again for the chunks that name it. -/
theorem count_listed {cfg : Config} {history : List Op} {rows : List Row}
    (hrows : rows.Perm (run (Table.act cfg) .empty history).rows) (d : Text) :
    ((listRows [] rows).map Listed.docId).count d =
      (if (left cfg history d).any Row.listsItself then 1 else 0) +
        if d ≠ [] ∧ (left cfg history d).any (fun r => isChunk r.metadata) then 1 else 0 := by
  have hleft (r : Row) : r ∈ left cfg history d ↔ r ∈ rows ∧ r.owner = d := by
    rw [← rowsOf_run_left, Table.rowsOf, List.mem_filter, decide_eq_true_eq, hrows.mem_iff]
  have hnodup : (rows.map Row.docId).Nodup :=
    (hrows.map Row.docId).nodup_iff.2 (run (Table.act cfg) .empty history).nodup
  have hself : (rows.countP fun r => r.listsItself && r.docId = d) =
      if (left cfg history d).any Row.listsItself then 1 else 0 := by
    have hle : (rows.countP fun r => r.listsItself && r.docId = d) ≤ 1 := by
      calc (rows.countP fun r => r.listsItself && r.docId = d)
          ≤ rows.countP fun r => r.docId = d := List.countP_mono_left fun r _ hr => by simp_all
        _ = (rows.map Row.docId).count d := by
          rw [List.count, List.countP_map]
          exact List.countP_congr fun r _ => by simp
        _ ≤ 1 := List.nodup_iff_count_le_one.1 hnodup d
    have hpos : 0 < (rows.countP fun r => r.listsItself && r.docId = d) ↔ (left cfg history d).any Row.listsItself := by
      rw [List.countP_pos_iff, List.any_eq_true]
      refine exists_congr fun r => ?_
      rw [hleft, Bool.and_eq_true, decide_eq_true_eq, and_assoc]
      refine and_congr_right fun _ => ?_
      rw [and_comm]
      refine and_congr_left fun hlists => ?_
      rw [Row.owner, not_isChunk_of_listsItself hlists, if_neg (by decide)]
    split_ifs with hany
    · have := hpos.2 hany
      omega
    · have := mt hpos.1 hany
      omega
  have hnames : rows.any (Row.names d) = (left cfg history d).any fun r => isChunk r.metadata := by
    rw [Bool.eq_iff_iff, List.any_eq_true, List.any_eq_true]
    refine exists_congr fun r => ?_
    rw [hleft, Row.names, Bool.and_eq_true, decide_eq_true_eq, and_assoc]
    refine and_congr_right fun _ => ?_
    rw [and_comm]
    refine and_congr_left fun hchunk => ?_
    rw [Row.owner, if_pos hchunk]
  rw [count_listRows, hself, hnames]
  simp only [List.not_mem_nil, not_false_eq_true, true_and]

theorem count_of_standsOnce {cfg : Config} {history : List Op} {rows : List Row}
    (hrows : rows.Perm (run (Table.act cfg) .empty history).rows) {d : Text} (h : StandsOnce cfg history d) :
    ((listRows [] rows).map Listed.docId).count d = 1 := by
  have hown : (left cfg history d).any Row.listsItself := List.any_eq_true.2 h.own
  have hchunk : ¬ (d ≠ [] ∧ (left cfg history d).any fun r => isChunk r.metadata) := by
    rintro ⟨hne, hany⟩
    obtain ⟨r, hr, hchunk⟩ := List.any_eq_true.1 hany
    rw [h.noChunk.resolve_left hne r hr] at hchunk
    exact absurd hchunk (by decide)
  rw [count_listed hrows, if_pos hown, if_neg hchunk]

theorem standsOnce_of_count {cfg : Config} {history : List Op} {rows : List Row}
    (hrows : rows.Perm (run (Table.act cfg) .empty history).rows) {d : Text}
    (h : ((listRows [] rows).map Listed.docId).count d = 1) : StandsOnce cfg history d := by
  rw [count_listed hrows] at h
  have hown : (left cfg history d).any Row.listsItself := by
    by_contra hnone
    rw [if_neg hnone, Nat.zero_add] at h
    -- a chunk is left, and so is its parent
    have hchunk : d ≠ [] ∧ (left cfg history d).any fun r => isChunk r.metadata := by
      by_contra hno
      rw [if_neg hno] at h
      exact absurd h (by decide)
    obtain ⟨r, hr, hchunk⟩ := List.any_eq_true.1 hchunk.2
    obtain ⟨parent, hmem, hnot, hparent, -, -⟩ := parent_left hr hchunk
    exact hnone (List.any_eq_true.2 ⟨parent, hmem, by rw [Row.listsItself, hnot, hparent]; rfl⟩)
  refine ⟨List.any_eq_true.1 hown, or_iff_not_imp_left.2 fun hne r hr => ?_⟩
  rw [if_pos hown, Nat.add_eq_left, ite_eq_right_iff] at h
  by_contra hchunk
  exact absurd (h ⟨hne, List.any_eq_true.2 ⟨r, hr, Bool.not_eq_false _ ▸ hchunk⟩⟩) (by decide)

/-- A document that is not stored is not listed. -/
theorem count_of_not_stored {cfg : Config} {history : List Op} {rows : List Row}
    (hrows : rows.Perm (run (Table.act cfg) .empty history).rows) {d : Text} (h : d ∉ storedDocs history) :
    ((listRows [] rows).map Listed.docId).count d = 0 := by
  rw [count_listed hrows, left_of_not_stored h]
  simp

theorem listDocuments_all {rows : List Row} {limit : ℤ} (h : (listRows [] rows).length ≤ limit) :
    listDocuments rows limit = listRows [] rows := by
  have hbound : sliceBound (listRows [] rows).length limit = (listRows [] rows).length := by
    rw [sliceBound, if_pos (by omega)]
    omega
  rw [listDocuments, sliceTo, hbound, List.take_length]

/-- The catalog lists every document once exactly when each stored document has its own row left, listed for
    itself, and no chunk row left that names it. -/
theorem listsAllOnce_iff {cfg : Config} {history : List Op} {rows : List Row}
    (h : (run (Table.act cfg) .empty history).Selects rows) :
    ListsAllOnce history rows ↔ ∀ d ∈ storedDocs history, StandsOnce cfg history d := by
  constructor
  · intro hlists d hd
    -- a limit under which nothing is cut off
    let limit : ℤ := max (listRows [] rows).length (storedDocs history).length
    have hall : listDocuments rows limit = listRows [] rows := listDocuments_all (le_max_left _ _)
    have hmem := (hlists.complete limit (le_max_right _ _) d).2 hd
    have hnodup := hlists.nodup limit
    rw [hall] at hmem hnodup
    exact standsOnce_of_count h.perm (List.count_eq_one_of_mem hnodup hmem)
  · intro honce
    have hcount (d : Text) : ((listRows [] rows).map Listed.docId).count d =
        if d ∈ storedDocs history then 1 else 0 := by
      split_ifs with hd
      · exact count_of_standsOnce h.perm (honce d hd)
      · exact count_of_not_stored h.perm hd
    have hnodup : ((listRows [] rows).map Listed.docId).Nodup := by
      rw [List.nodup_iff_count_le_one]
      intro d
      rw [hcount]
      split_ifs <;> decide
    have hmem (d : Text) : d ∈ (listRows [] rows).map Listed.docId ↔ d ∈ storedDocs history := by
      rw [← List.count_pos_iff, hcount]
      split_ifs with hd <;> simp [hd]
    have hlength : (listRows [] rows).length = (storedDocs history).length := by
      rw [← List.length_map (f := Listed.docId)]
      exact ((List.perm_ext_iff_of_nodup hnodup (nodup_storedDocs history)).2 hmem).length_eq
    refine ⟨fun limit => ?_, fun limit hlimit d => ?_⟩
    · exact hnodup.sublist ((List.take_sublist _ _).map _)
    · rw [listDocuments_all (by omega)]
      exact hmem d

/-- A text under two headings, 604 characters: two chunks. -/
def chunkedText : Text := "# A\n".toList ++ List.replicate 300 'a' ++ "\n# B\n".toList ++ List.replicate 300 'b'

/-- The chunker's settings as they are by default. -/
def defaultConfig : Config := chunkerConfig Chunker.defaultSettings true 600

def chunkedUpload : Op := .upsert ⟨"t".toList, chunkedText, .empty, some "d".toList, none, none, [], []⟩

theorem listsAllOnce_written : ListsAllOnce [written "d"] (run (Table.act unchunked) .empty [written "d"]).rows :=
  (listsAllOnce_iff ⟨.refl _, by decide +kernel⟩).2 (by decide +kernel)

/-- A document of two chunks is listed twice. -/
theorem chunked_listed_twice : ¬ ∀ (cfg : Config) (history : List Op) (rows : List Row),
    (run (Table.act cfg) .empty history).Selects rows → ListsAllOnce history rows := by
  intro h
  have hnodup := (h defaultConfig [chunkedUpload] (run (Table.act defaultConfig) .empty [chunkedUpload]).rows
    ⟨.refl _, by decide +kernel⟩).nodup 50
  exact absurd hnodup (by decide +kernel)

end AgentLangraph.Knowledge
