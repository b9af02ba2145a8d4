import AgentLangraph.Knowledge.Rows
import AgentLangraph.Lib.Trace

/-! What an operation on a document does to the rows of the others. A chunk is found by the document that it
    names and also by its id, so that an operation on `a` takes the rows of every document whose id begins
    with `a__c`. -/

namespace AgentLangraph.Knowledge
open PyText Trace

/-- The document that a row belongs to. -/
def Row.owner (row : Row) : Text :=
  if isChunk row.metadata then textField row.metadata "parent_doc_id" else row.docId

def Table.rowsOf (t : Table) (d : Text) : List Row := t.rows.filter fun r => r.owner = d

def Table.others (t : Table) (d : Text) : List Row := t.rows.filter fun r => r.owner ≠ d

/-- What an operation on `d` removes of a table. -/
def Row.takenBy (d : Text) (row : Row) : Bool := row.docId = d || row.childOf d

/-- A row of another document has the id of this one, or an id that begins as those of its chunks do. -/
def Table.Takes (t : Table) (d : Text) : Prop :=
  ∃ r ∈ t.rows, r.owner ≠ d ∧ (r.docId = d ∨ chunkPrefix d <+: r.docId)

inductive Op
  | upsert (call : Upsert)
  | delete (docId : Text)

/-- The document an operation is on. -/
def Op.doc : Op → Text
  | .upsert call => call.did
  | .delete docId => docId

def Table.act (cfg : Config) (t : Table) : Op → Table
  | .upsert call => (upsertDocument cfg t call).1
  | .delete docId => (deleteDocument t docId).1

/-- The rows of a document that has been written: its own, and one for each of the chunks, if there are two. -/
def Upsert.rows (cfg : Config) (c : Upsert) : List Row :=
  if !shouldChunk cfg c.content (c.meta cfg) then [c.singleRow cfg]
  else
    match c.chunks cfg with
    | [] => [c.onlyRow cfg none]
    | [only] => [c.onlyRow cfg (some only)]
    | chunks => c.parentRow cfg chunks.length :: chunks.map (c.chunkRow cfg chunks.length)

def Op.rows (cfg : Config) : Op → List Row
  | .upsert call => call.rows cfg
  | .delete _ => []

/-- The rows that the last operation on a document has left. -/
def lastRows (cfg : Config) (history : List Op) (d : Text) : List Row :=
  ((history.filter fun op => op.doc = d).getLast?.map (Op.rows cfg)).getD []

/-- Along a history an operation leaves the rows of other documents as they are, and the rows of every
    document are always those of the last operation on it. -/
structure Sound (cfg : Config) (history : List Op) : Prop where
  frame : ∀ pre op, pre ++ [op] <+: history →
    (run (Table.act cfg) .empty (pre ++ [op])).others op.doc = (run (Table.act cfg) .empty pre).others op.doc
  rows : ∀ pre, pre <+: history → ∀ d, (run (Table.act cfg) .empty pre).rowsOf d = lastRows cfg pre d

/-! ### The ids of chunks -/

theorem ofDigitChars_leftpad (n : ℕ) : Nat.ofDigitChars 10 ((Nat.toDigits 10 n).leftpad 4 '0') 0 = n := by
  rw [List.leftpad, Nat.ofDigitChars_append, Nat.ofDigitChars_replicate_zero, Nat.mul_zero,
    Nat.ofDigitChars_toDigits (by decide) (by decide)]

theorem chunkRowId_injective (d : Text) : Function.Injective (chunkRowId d) := by
  intro i j h
  have hdigits := List.append_cancel_left h
  rw [← ofDigitChars_leftpad i, ← ofDigitChars_leftpad j, hdigits]

theorem chunkPrefix_begins (d : Text) (i : ℕ) : chunkPrefix d <+: chunkRowId d i := List.prefix_append _ _

theorem chunkRowId_ne (d : Text) (i : ℕ) : chunkRowId d i ≠ d := by
  intro h
  have hlength := (chunkPrefix_begins d i).length_le
  rw [h, chunkPrefix, List.length_append] at hlength
  exact absurd hlength (by simp)

/-! ### The rows that are left and those that are written -/

theorem rows_delete (t : Table) (d : Text) : (t.delete d).rows = t.rows.filter fun r => r.docId ≠ d := rfl

theorem rows_foldl_delete (ids : List Text) : ∀ t : Table,
    (ids.foldl Table.delete t).rows = t.rows.filter fun r => r.docId ∉ ids := by
  induction ids with
  | nil => intro t; simp
  | cons id ids ih =>
    intro t
    rw [List.foldl_cons, ih, rows_delete, List.filter_filter]
    refine List.filter_congr fun r _ => ?_
    simp only [List.mem_cons, not_or, Bool.decide_and, ne_eq, Bool.and_comm]

theorem rows_deleteChunks (t : Table) (d : Text) :
    (t.deleteChunksForParent d).rows = t.rows.filter fun r => !r.childOf d := by
  rw [Table.deleteChunksForParent, rows_foldl_delete]
  refine List.filter_congr fun r hr => ?_
  have hiff : r.docId ∈ t.childChunkIds d ↔ r.childOf d := by
    rw [Table.childChunkIds, List.mem_map]
    constructor
    · rintro ⟨r', hr', heq⟩
      obtain ⟨hmem, hchild⟩ := List.mem_filter.1 hr'
      rwa [List.inj_on_of_nodup_map t.nodup hmem hr heq] at hchild
    · exact fun hchild => ⟨r, List.mem_filter.2 ⟨hr, hchild⟩, rfl⟩
  cases hchild : r.childOf d <;> simp [hiff, hchild]

/-- Neither the chunks nor the row of the document are left. -/
theorem rows_delete_deleteChunks (t : Table) (d : Text) :
    ((t.deleteChunksForParent d).delete d).rows = t.rows.filter fun r => !r.takenBy d := by
  rw [rows_delete, rows_deleteChunks, List.filter_filter]
  refine List.filter_congr fun r _ => ?_
  simp [Row.takenBy, Bool.not_or]

theorem rows_replace (t : Table) (row : Row) :
    (t.replace row).rows = (t.delete row.docId).rows ++ [row] := rfl

theorem rows_replace_of_fresh {t : Table} {row : Row} (h : ∀ r ∈ t.rows, r.docId ≠ row.docId) :
    (t.replace row).rows = t.rows ++ [row] := by
  rw [rows_replace, rows_delete, List.filter_eq_self.2 fun r hr => decide_eq_true (h r hr)]

/-- Rows with new ids that differ are put behind the others. -/
theorem rows_foldl_replace (rows : List Row) : ∀ t : Table, (rows.map Row.docId).Nodup →
    (∀ row ∈ rows, ∀ r ∈ t.rows, r.docId ≠ row.docId) → (rows.foldl Table.replace t).rows = t.rows ++ rows := by
  induction rows with
  | nil => intro t _ _; simp
  | cons row rows ih =>
    intro t hnodup hfresh
    rw [List.map_cons, List.nodup_cons] at hnodup
    rw [List.forall_mem_cons] at hfresh
    have hrows := rows_replace_of_fresh hfresh.1
    rw [List.foldl_cons, ih (t.replace row) hnodup.2, hrows, List.append_assoc, List.singleton_append]
    intro r hr x hx heq
    rw [hrows, List.mem_append, List.mem_singleton] at hx
    rcases hx with hx | rfl
    · exact hfresh.2 r hr x hx heq
    · exact hnodup.1 (heq ▸ List.mem_map_of_mem hr)

theorem chunkIndex_chunkDocument (cfg : Config) (title content domain : Text) :
    ((chunkDocument cfg title content domain).map KnowledgeChunkSpec.chunkIndex) =
      List.range (chunkDocument cfg title content domain).length := by
  rw [chunkDocument]
  by_cases hbody : strip content = []
  · rw [if_pos hbody]
    rfl
  · rw [if_neg hbody, List.map_map, List.length_map, List.length_zipIdx, List.range_eq_range']
    exact List.zipIdx_map_snd 0 _

theorem nodup_chunkRows (cfg : Config) (c : Upsert) (count : ℕ) :
    (((c.chunks cfg).map (c.chunkRow cfg count)).map Row.docId).Nodup := by
  have hids : ((c.chunks cfg).map (c.chunkRow cfg count)).map Row.docId =
      ((c.chunks cfg).map KnowledgeChunkSpec.chunkIndex).map (chunkRowId c.did) := by
    rw [List.map_map, List.map_map]
    rfl
  rw [hids, Upsert.chunks, chunkIndex_chunkDocument]
  exact List.nodup_range.map (chunkRowId_injective c.did)

theorem not_takenBy {d : Text} {r : Row} (h : (!r.takenBy d) = true) :
    r.docId ≠ d ∧ ∀ i, r.docId ≠ chunkRowId d i := by
  simp only [Row.takenBy, Row.childOf, Bool.not_or, Bool.and_eq_true, Bool.not_eq_true', decide_eq_false_iff_not] at h
  refine ⟨h.1, fun i heq => ?_⟩
  have hfront := chunkPrefix_begins d i
  rw [← heq, ← List.isPrefixOf_iff_prefix] at hfront
  exact absurd (h.2.1 : startswith r.docId (chunkPrefix d) = false) (by rw [startswith, hfront]; exact nofun)

theorem rows_upsert (cfg : Config) (t : Table) (c : Upsert) :
    (upsertDocument cfg t c).1.rows = (t.rows.filter fun r => !r.takenBy c.did) ++ c.rows cfg := by
  have hsingle (row : Row) (hid : row.docId = c.did) :
      (((t.deleteChunksForParent c.did).delete c.did).replace row).rows =
        (t.rows.filter fun r => !r.takenBy c.did) ++ [row] := by
    rw [← rows_delete_deleteChunks]
    refine rows_replace_of_fresh fun r hr => ?_
    rw [rows_delete_deleteChunks] at hr
    rw [hid]
    exact (not_takenBy (List.mem_filter.1 hr).2).1
  rw [upsertDocument, Upsert.rows]
  split_ifs
  · exact hsingle _ rfl
  · cases hchunks : c.chunks cfg with
    | nil => exact hsingle _ rfl
    | cons only rest =>
      cases rest with
      | nil => exact hsingle _ rfl
      | cons spec rest =>
        dsimp only
        have hparent : ((t.deleteChunksForParent c.did).replace
            (c.parentRow cfg (only :: spec :: rest).length)).rows =
            (t.rows.filter fun r => !r.takenBy c.did) ++ [c.parentRow cfg (only :: spec :: rest).length] := by
          rw [rows_replace, ← rows_delete_deleteChunks]
          rfl
        rw [rows_foldl_replace, hparent, List.append_assoc, List.singleton_append]
        · rw [← hchunks]
          exact nodup_chunkRows cfg c _
        · intro row hrow r hr
          obtain ⟨s, -, rfl⟩ := List.mem_map.1 hrow
          rw [hparent, List.mem_append, List.mem_singleton] at hr
          rcases hr with hr | rfl
          · exact (not_takenBy (List.mem_filter.1 hr).2).2 s.chunkIndex
          · exact (chunkRowId_ne c.did s.chunkIndex).symm

/-- STEP: what an operation takes is gone, what it writes is there. -/
theorem rows_act (cfg : Config) (t : Table) (op : Op) :
    (t.act cfg op).rows = (t.rows.filter fun r => !r.takenBy op.doc) ++ op.rows cfg := by
  cases op with
  | upsert call => exact rows_upsert cfg t call
  | delete d =>
    rw [Op.rows, List.append_nil]
    exact rows_delete_deleteChunks t d

/-! ### Whose the rows are -/

theorem owner_of_not_chunk {row : Row} (h : row.metadata.field "is_chunk" = .bool false) :
    row.owner = row.docId := by
  rw [Row.owner, isChunk, h]
  rfl

theorem owner_of_chunk {row : Row} {d : Text} (h : row.metadata.field "is_chunk" = .bool true)
    (hparent : row.metadata.field "parent_doc_id" = .str d) : row.owner = d := by
  have htrue : isChunk row.metadata = true := by rw [isChunk, h]; rfl
  rw [Row.owner, if_pos htrue, textField, hparent]
  cases d with
  | nil => rfl
  | cons c d => rfl

theorem owner_rows (cfg : Config) (c : Upsert) : ∀ row ∈ c.rows cfg, row.owner = c.did := by
  have hchunk (count : ℕ) (spec : KnowledgeChunkSpec) : (c.chunkRow cfg count spec).owner = c.did := by
    refine owner_of_chunk ?_ ?_ <;> simp [Upsert.chunkRow, PyDict.field_put_ne]
  have honly (only : Option KnowledgeChunkSpec) : (c.onlyRow cfg only).owner = c.did :=
    owner_of_not_chunk (by simp [Upsert.onlyRow, PyDict.field_put_ne])
  have hsingle : (c.singleRow cfg).owner = c.did := owner_of_not_chunk (by simp [Upsert.singleRow])
  have hparent (count : ℕ) : (c.parentRow cfg count).owner = c.did :=
    owner_of_not_chunk (by simp [Upsert.parentRow, PyDict.field_put_ne])
  intro row hrow
  rw [Upsert.rows] at hrow
  split_ifs at hrow
  · rw [List.mem_singleton.1 hrow, hsingle]
  · cases hchunks : c.chunks cfg with
    | nil =>
      rw [hchunks] at hrow
      rw [List.mem_singleton.1 hrow, honly]
    | cons only rest =>
      rw [hchunks] at hrow
      cases rest with
      | nil => rw [List.mem_singleton.1 hrow, honly]
      | cons spec rest =>
        rcases List.mem_cons.1 hrow with rfl | hrow
        · exact hparent _
        · obtain ⟨s, -, rfl⟩ := List.mem_map.1 hrow
          exact hchunk _ s

theorem owner_op_rows (cfg : Config) (op : Op) : ∀ row ∈ op.rows cfg, row.owner = op.doc := by
  cases op with
  | upsert call => exact owner_rows cfg call
  | delete d => exact fun row hrow => nomatch hrow

/-- The rows of a document are among those that an operation on it takes. -/
theorem takenBy_of_owner {d : Text} {r : Row} (h : r.owner = d) : r.takenBy d := by
  rw [Row.owner] at h
  split_ifs at h with hchunk
  · simp [Row.takenBy, Row.childOf, h, hchunk]
  · simp [Row.takenBy, h]

/-- After an operation the rows of its document are those that it writes. -/
theorem rowsOf_act (cfg : Config) (t : Table) (op : Op) : (t.act cfg op).rowsOf op.doc = op.rows cfg := by
  have hold : (t.rows.filter fun r => !r.takenBy op.doc).filter (fun r => r.owner = op.doc) = [] := by
    rw [List.filter_eq_nil_iff]
    intro r hr howner
    have htaken := takenBy_of_owner (of_decide_eq_true howner)
    exact absurd (List.mem_filter.1 hr).2 (by simp [htaken])
  rw [Table.rowsOf, rows_act, List.filter_append, hold, List.nil_append, List.filter_eq_self]
  exact fun row hrow => decide_eq_true (owner_op_rows cfg op row hrow)

/-- An operation takes no row of another document. -/
theorem takenBy_iff {d : Text} {r : Row} (h : r.owner ≠ d) :
    r.takenBy d ↔ r.docId = d ∨ chunkPrefix d <+: r.docId := by
  have hchild : r.childOf d ↔ chunkPrefix d <+: r.docId := by
    rw [Row.childOf, Bool.or_eq_true, startswith, List.isPrefixOf_iff_prefix]
    refine or_iff_left fun hmeta => h ?_
    rw [Bool.and_eq_true, decide_eq_true_eq] at hmeta
    rw [Row.owner, if_pos hmeta.2, hmeta.1]
  rw [Row.takenBy, Bool.or_eq_true, decide_eq_true_eq, hchild]

theorem others_act (cfg : Config) (t : Table) (op : Op) :
    (t.act cfg op).others op.doc = (t.others op.doc).filter fun r => !r.takenBy op.doc := by
  have hnew : (op.rows cfg).filter (fun r => r.owner ≠ op.doc) = [] := by
    rw [List.filter_eq_nil_iff]
    exact fun row hrow => by simp [owner_op_rows cfg op row hrow]
  rw [Table.others, rows_act, List.filter_append, hnew, List.append_nil, Table.others, List.filter_filter,
    List.filter_filter]
  exact List.filter_congr fun r _ => Bool.and_comm _ _

/-- An operation leaves the rows of other documents exactly when none of them has an id that it takes. -/
theorem others_act_eq_iff (cfg : Config) (t : Table) (op : Op) :
    (t.act cfg op).others op.doc = t.others op.doc ↔ ¬ t.Takes op.doc := by
  rw [others_act, List.filter_eq_self]
  constructor
  · rintro h ⟨r, hr, howner, hid⟩
    have hkept := h r (List.mem_filter.2 ⟨hr, decide_eq_true howner⟩)
    rw [(takenBy_iff howner).2 hid] at hkept
    exact absurd hkept (by decide)
  · intro h r hr
    obtain ⟨hmem, howner⟩ := List.mem_filter.1 hr
    have howner := of_decide_eq_true howner
    cases htaken : r.takenBy op.doc with
    | false => rfl
    | true => exact absurd ⟨r, hmem, howner, (takenBy_iff howner).1 htaken⟩ h

/-! ### Histories -/

/-- What an operation on another document leaves alone is what this one has. -/
theorem rowsOf_of_others {t t' : Table} {d e : Text} (h : t'.others d = t.others d) (hne : e ≠ d) :
    t'.rowsOf e = t.rowsOf e := by
  have hfilter (t : Table) : (t.others d).filter (fun r => r.owner = e) = t.rowsOf e := by
    rw [Table.others, List.filter_filter, Table.rowsOf]
    refine List.filter_congr fun r _ => ?_
    by_cases howner : r.owner = e <;> simp [howner, hne]
  rw [← hfilter t', h, hfilter]

theorem lastRows_concat (cfg : Config) (pre : List Op) (op : Op) (d : Text) :
    lastRows cfg (pre ++ [op]) d = if op.doc = d then op.rows cfg else lastRows cfg pre d := by
  by_cases hdoc : op.doc = d <;> simp [lastRows, List.filter_append, hdoc]

/-- RUN: where no operation changes the rows of another document, every document has the rows of the last
    operation on it. -/
theorem rowsOf_run {cfg : Config} {history : List Op}
    (h : ∀ pre op, pre ++ [op] <+: history →
      (run (Table.act cfg) .empty (pre ++ [op])).others op.doc =
        (run (Table.act cfg) .empty pre).others op.doc) (pre : List Op) :
    pre <+: history → ∀ d, (run (Table.act cfg) .empty pre).rowsOf d = lastRows cfg pre d := by
  induction pre using List.reverseRecOn with
  | nil => exact fun _ d => rfl
  | append_singleton pre op ih =>
    intro hfront d
    have hpre := (List.prefix_append pre [op]).trans hfront
    rw [lastRows_concat]
    split_ifs with hdoc
    · rw [run_append, ← hdoc]
      exact rowsOf_act cfg _ op
    · rw [rowsOf_of_others (h pre op hfront) (Ne.symm hdoc), ih hpre]

/-- The catalog is sound along a history exactly when no operation comes to a table in which a row of another
    document has its document's id, or an id that begins as those of its chunks do. -/
theorem sound_iff (cfg : Config) (history : List Op) :
    Sound cfg history ↔
      ∀ pre op, pre ++ [op] <+: history → ¬ (run (Table.act cfg) .empty pre).Takes op.doc := by
  have hstep (pre : List Op) (op : Op) :
      (run (Table.act cfg) .empty (pre ++ [op])).others op.doc =
          (run (Table.act cfg) .empty pre).others op.doc ↔
        ¬ (run (Table.act cfg) .empty pre).Takes op.doc := by
    rw [run_append]
    exact others_act_eq_iff cfg _ op
  constructor
  · exact fun h pre op hfront => (hstep pre op).1 (h.frame pre op hfront)
  · intro h
    have hframe := fun pre op hfront => (hstep pre op).2 (h pre op hfront)
    exact ⟨hframe, rowsOf_run hframe⟩

/-- Documents that are not chunked. -/
def unchunked : Config where
  chunkEnabled := false
  chunkMinChars := 600
  lower := fun t => t.map Char.toLower
  sections := fun _ body => [([], body)]

/-- `upsert_document` of an id, with no metadata. -/
def written (docId : String) : Op :=
  .upsert ⟨"t".toList, "x".toList, .empty, some docId.toList, none, none, [], []⟩

/-- `a` is written after `a__c5`, whose row it takes for one of its chunks. -/
theorem upsert_takes_other : ¬ Sound unchunked [written "a__c5", written "a"] := by
  intro h
  have hrows := h.rows [written "a__c5", written "a"] List.prefix_rfl "a__c5".toList
  exact absurd hrows (by decide +kernel)

end AgentLangraph.Knowledge
