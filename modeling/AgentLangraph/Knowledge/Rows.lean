import AgentLangraph.Lib.PyVal

/-! The catalog of the knowledge store (`knowledge_store.py`): the table `knowledge_docs`, with a document
    as one row, or as a parent row and one row for each of its chunks.

        d            is_chunk: no              d__c0000, d__c0001, …    is_chunk, parent_doc_id: d -/

namespace AgentLangraph.Knowledge
open PyText

structure Row where
  docId : Text
  title : Text
  content : Text
  metadata : Fields
  createdAt : Text
  deriving DecidableEq

/-- The rows as a scan returns them; `doc_id` is the primary key. -/
structure Table where
  rows : List Row
  nodup : (rows.map Row.docId).Nodup

def Table.empty : Table := ⟨[], List.nodup_nil⟩

def Table.delete (t : Table) (docId : Text) : Table where
  rows := t.rows.filter fun r => r.docId ≠ docId
  nodup := t.nodup.sublist (List.filter_sublist.map _)

/-- `INSERT OR REPLACE`: the row that was there goes, the new one is the last. -/
def Table.replace (t : Table) (row : Row) : Table where
  rows := (t.rows.filter fun r => r.docId ≠ row.docId) ++ [row]
  nodup := by
    rw [List.map_append, List.nodup_append]
    refine ⟨(t.delete row.docId).nodup, List.nodup_singleton _, fun a ha b hb => ?_⟩
    obtain ⟨r, hr, rfl⟩ := List.mem_map.1 ha
    rw [List.map_singleton, List.mem_singleton] at hb
    rw [hb]
    exact of_decide_eq_true (List.mem_filter.1 hr).2

def Table.has (t : Table) (docId : Text) : Bool := t.rows.any fun r => r.docId = docId

/-! ### Metadata -/

/-- `str(metadata.get(key) or "")`. -/
def textField (metadata : Fields) (key : String) : Text := ((metadata.field key).orElse (.str [])).toText

def isChunk (metadata : Fields) : Bool := (metadata.field "is_chunk").truthy

def isParentCatalogRow (metadata : Fields) : Bool := (metadata.field "is_parent").truthy

/-- `meta.setdefault(key, v)`. -/
def setdefault (metadata : Fields) (key : String) (v : PyVal) : Fields :=
  if metadata.has key then metadata else metadata.put key v

/-- `_stamp_tenant_metadata` and `_stamp_session_metadata`: a key that is not there yet gets the id. -/
def stamp (metadata : Fields) (key : String) (id : Option Text) : Fields :=
  match id with
  | none | some [] => metadata
  | some id => setdefault metadata key (.str id)

section
variable (lower : Text → Text)

def docDomain (metadata : Fields) : Text :=
  let domain := lower (strip (textField metadata "domain"))
  let topic := lower (strip (textField metadata "topic"))
  if domain ∈ ["common".toList, "code".toList, "writing".toList, "source".toList] then domain
  else if (metadata.field "session_id").truthy then "source".toList
  else if topic = "writing".toList then "writing".toList
  else if topic ∈ ["code".toList, "coding".toList, "programming".toList] then "code".toList
  else "common".toList

end

/-! ### Chunks -/

structure KnowledgeChunkSpec where
  chunkIndex : ℕ
  sectionTitle : Text
  body : Text
  embedText : Text
  tokenCount : ℕ
  deriving DecidableEq

/-- The settings and the Unicode table of `lower`; `sections` are the pieces of a body for a domain, each with
    the heading that it stands under, as `_split_by_headings` and the splitters of a section give them. -/
structure Config where
  chunkEnabled : Bool
  chunkMinChars : ℤ
  lower : Text → Text
  sections : Text → Text → List (Text × Text)

def buildEmbedText (docTitle sectionTitle body : Text) : Text :=
  let title := "文档标题：".toList ++ strip docTitle
  let section_ := "章节：".toList ++ strip sectionTitle
  let content := "内容：".toList ++ strip body
  joinLines (if strip sectionTitle = [] then [title, content] else [title, section_, content])

def estimateTokens (text : Text) : ℕ := max 1 (split text).length

def chunkDocument (cfg : Config) (title content domain : Text) : List KnowledgeChunkSpec :=
  let body := strip content
  if body = [] then []
  else
    let docTitle := if strip title = [] then "未命名文档".toList else strip title
    let pieces := ((cfg.sections domain body).map fun p => (p.1, strip p.2)).filter fun p => p.2 ≠ []
    (if pieces = [] then [([], body)] else pieces).zipIdx.map fun p => {
      chunkIndex := p.2
      sectionTitle := p.1.1
      body := p.1.2
      embedText := buildEmbedText docTitle p.1.1 p.1.2
      tokenCount := estimateTokens p.1.2 }

/-- `f"{parent_doc_id}__c"`. -/
def chunkPrefix (parentDocId : Text) : Text := parentDocId ++ "__c".toList

/-- `f"{parent_doc_id}__c{chunk_index:04d}"`. -/
def chunkRowId (parentDocId : Text) (chunkIndex : ℕ) : Text :=
  chunkPrefix parentDocId ++ (Nat.toDigits 10 chunkIndex).leftpad 4 '0'

/-! ### Writing and deleting a document -/

/-- A row that `_child_chunk_ids` finds. -/
def Row.childOf (parentDocId : Text) (row : Row) : Bool :=
  startswith row.docId (chunkPrefix parentDocId) ||
    (textField row.metadata "parent_doc_id" = parentDocId && isChunk row.metadata)

def Table.childChunkIds (t : Table) (parentDocId : Text) : List Text :=
  (t.rows.filter (Row.childOf parentDocId)).map Row.docId

def Table.deleteChunksForParent (t : Table) (parentDocId : Text) : Table :=
  (t.childChunkIds parentDocId).foldl Table.delete t

def shouldChunk (cfg : Config) (content : Text) (metadata : Fields) : Bool :=
  cfg.chunkEnabled && !(isChunk metadata || (metadata.field "skip_chunking").truthy) &&
    cfg.chunkMinChars ≤ (strip content).length

/-- The arguments of `upsert_document`, with the tenant of the context, the clock and the id it draws. -/
structure Upsert where
  title : Text
  content : Text
  metadata : Fields
  docId : Option Text
  sessionId : Option Text
  tenantId : Option Text
  uuid : Text
  now : Text

/-- `doc_id or str(uuid.uuid4())`. -/
def Upsert.did (c : Upsert) : Text :=
  match c.docId with
  | none | some [] => c.uuid
  | some docId => docId

/-- The metadata with its tenant and its session; what belongs to a session is a source. -/
def Upsert.sourced (c : Upsert) : Fields :=
  let stamped := stamp (stamp c.metadata "tenant_id" c.tenantId) "session_id" c.sessionId
  if (stamped.field "session_id").truthy && strip (textField stamped "domain") = [] then
    setdefault stamped "domain" (.str "source".toList)
  else stamped

def Upsert.domain (cfg : Config) (c : Upsert) : Text := docDomain cfg.lower c.sourced

def Upsert.meta (cfg : Config) (c : Upsert) : Fields := setdefault c.sourced "domain" (.str (c.domain cfg))

/-- The row of a document that is one row. -/
def Upsert.singleRow (cfg : Config) (c : Upsert) : Row where
  docId := c.did
  title := c.title
  content := c.content
  metadata := ((c.meta cfg).put "is_parent" (.bool false)).put "is_chunk" (.bool false)
  createdAt := c.now

/-- The row of a document that the chunker leaves in one piece (`only`), or of which it leaves none. -/
def Upsert.onlyRow (cfg : Config) (c : Upsert) (only : Option KnowledgeChunkSpec) : Row where
  docId := c.did
  title := c.title
  content := (only.map KnowledgeChunkSpec.body).getD c.content
  metadata := (((((c.meta cfg).put "is_parent" (.bool false)).put "is_chunk" (.bool false)).put
    "section_title" (.str ((only.map KnowledgeChunkSpec.sectionTitle).getD []))).put
    "chunk_index" (.int 0)).put "token_count" (.int ((only.map KnowledgeChunkSpec.tokenCount).getD 0))
  createdAt := c.now

def Upsert.parentRow (cfg : Config) (c : Upsert) (count : ℕ) : Row where
  docId := c.did
  title := c.title
  content := c.content
  metadata := (((c.meta cfg).put "is_parent" (.bool true)).put "is_chunk" (.bool false)).put
    "chunk_count" (.int count)
  createdAt := c.now

def Upsert.chunkRow (cfg : Config) (c : Upsert) (count : ℕ) (spec : KnowledgeChunkSpec) : Row where
  docId := chunkRowId c.did spec.chunkIndex
  title := if spec.sectionTitle = [] then c.title else c.title ++ " — ".toList ++ spec.sectionTitle
  content := spec.embedText
  metadata := ((((((((c.meta cfg).put "is_parent" (.bool false)).put "is_chunk" (.bool true)).put
    "parent_doc_id" (.str c.did)).put "chunk_index" (.int spec.chunkIndex)).put
    "section_title" (.str spec.sectionTitle)).put "token_count" (.int spec.tokenCount)).put
    "chunk_count" (.int count))
  createdAt := c.now

def Upsert.chunks (cfg : Config) (c : Upsert) : List KnowledgeChunkSpec :=
  chunkDocument cfg c.title c.content (c.domain cfg)

/-- The table afterwards, and the id that is returned. -/
def upsertDocument (cfg : Config) (t : Table) (c : Upsert) : Table × Text :=
  let t := t.deleteChunksForParent c.did
  if !shouldChunk cfg c.content (c.meta cfg) then ((t.delete c.did).replace (c.singleRow cfg), c.did)
  else
    match c.chunks cfg with
    | [] => ((t.delete c.did).replace (c.onlyRow cfg none), c.did)
    | [only] => ((t.delete c.did).replace (c.onlyRow cfg (some only)), c.did)
    | chunks =>
      ((chunks.map (c.chunkRow cfg chunks.length)).foldl Table.replace
        (t.replace (c.parentRow cfg chunks.length)), c.did)

/-- The table afterwards, and whether there was a row of this id. -/
def deleteDocument (t : Table) (docId : Text) : Table × Bool :=
  let t := t.deleteChunksForParent docId
  (t.delete docId, t.has docId)

end AgentLangraph.Knowledge
