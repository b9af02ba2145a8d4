import AgentLangraph.Knowledge.Ranking

/-! Searching the knowledge store (`knowledge_store.py`): by keywords in the catalog, by vectors in the index, by
    both, and with the neighbours of the chunks that are found. -/

namespace AgentLangraph.Knowledge
open PyText PyFloat

/-- A point of the vector index. -/
structure Point where
  docId : Text
  title : Text
  content : Text
  metadata : Fields
  deriving DecidableEq

/-- A row of `knowledge_docs_fts`. -/
structure FtsRow where
  docId : Text
  title : Text
  content : Text
  deriving DecidableEq

/-- The catalog, its full-text index and the vector index, each in the order it is scanned in. -/
structure Store where
  rows : List Row
  fts : List FtsRow
  points : List Point
  deriving DecidableEq

/-- Whose search it is: the session and the tenant of the context. -/
structure Scope where
  sessionKnowledge : Bool
  session : Text
  tenant : Option Text

/-- The settings of the channels, the clock-free libraries behind them, and the two indexes: the points that the
    vector index finds nearest to a query, with their scores, and the ids that the full-text index finds, the best
    ones first. -/
structure Channels (α : Type*) extends Search α where
  ftsEnabled : Bool
  bm25K1 : α
  bm25B : α
  log : α → α
  isCjk : Char → Bool
  vectorBackend : Option Text
  similarityThreshold : α
  nearest : Text → ℕ → List Point → List (Point × α)
  ftsMatch : List Text → List FtsRow → List Text
  adjacencyEnabled : Bool
  adjacencyRadius : ℤ
  adjacencyMaxRank : ℤ

/-! ### What a search may see -/

def tenantMatches (scope : Scope) (metadata : Fields) : Bool :=
  match scope.tenant with
  | none | some [] => true
  | some tenant => metadata.field "tenant_id" = .none || (metadata.field "tenant_id").toText = tenant

/-- `_current_session_id`. -/
def currentSessionId (scope : Scope) : Text := if scope.sessionKnowledge then scope.session else []

def sessionMatches (scope : Scope) (metadata : Fields) : Bool :=
  if metadata.field "session_id" = .none then true
  else if currentSessionId scope = [] then false
  else (metadata.field "session_id").toText = currentSessionId scope

def domainMatches (lower : Text → Text) (metadata : Fields) (domains : List Text) : Bool :=
  domains = [] || docDomain lower metadata ∈ domains

def isSearchableRow (metadata : Fields) : Bool := !isParentCatalogRow metadata

section
variable {α : Type*} [PyFloat α] (cfg : Channels α) (scope : Scope)

/-! ### Keywords -/

/-- The tokens of a text, and of those with CJK signs the bigrams. -/
def tokenizeText (text : Text) : List Text :=
  (cfg.words (cfg.lower text)).flatMap fun raw =>
    let item := strip raw
    if item = [] then []
    else if item.any cfg.isCjk && 1 < item.length then
      item :: (List.range (item.length - 1)).map fun i => (item.drop i).take 2
    else [item]

/-- The rows that the full-text index gives; none where it is not asked. -/
def keywordSearchFts (store : Store) (query : Text) (limit : ℕ) : List Row :=
  if !cfg.ftsEnabled then []
  else
    let tokens := (tokenizeText cfg query).take 12
    if tokens = [] then []
    else
      ((cfg.ftsMatch tokens store.fts).filterMap fun id => store.rows.find? fun r => r.docId = id).take
        (max (limit * 4) limit)

def visible (domains : List Text) (row : Row) : Bool :=
  isSearchableRow row.metadata && tenantMatches scope row.metadata && sessionMatches scope row.metadata &&
    domainMatches cfg.lower row.metadata domains

/-- The rows that are scored: what the full-text index gives, or else the catalog, as far as it may be seen. -/
def scoredRows (store : Store) (query : Text) (domains : List Text) (limit : ℕ) : List Row :=
  let found := keywordSearchFts cfg store query limit
  (if found ≠ [] then found else store.rows).filter (visible cfg scope domains)

/-- What BM25 has of the rows that are scored. -/
structure Corpus (α : Type*) where
  tokens : List (List Text)
  docCount : α
  avgDocLen : α

def corpusOf (rows : List Row) : Corpus α :=
  let tokens := rows.map fun r => tokenizeText cfg (r.title ++ " ".toList ++ r.content)
  let docCount : α := ((max rows.length 1 : ℕ) : α)
  { tokens := tokens
    docCount := docCount
    avgDocLen := if rows ≠ [] then (((tokens.map List.length).sum : ℕ) : α) / docCount else 1.0 }

def bm25 (corpus : Corpus α) (queryTokens rowTokens : List Text) : α :=
  queryTokens.foldl (fun score token =>
    let tf := rowTokens.count token
    if tf = 0 then score
    else
      let df : α := ((corpus.tokens.countP (token ∈ ·) : ℕ) : α)
      let idf := cfg.log (1.0 + (corpus.docCount - df + 0.5) / (df + 0.5))
      let rowLen : α := ((max rowTokens.length 1 : ℕ) : α)
      let denom := (tf : α) + cfg.bm25K1 * (1.0 - cfg.bm25B + cfg.bm25B * (rowLen / corpus.avgDocLen))
      score + idf * ((tf : α) * (cfg.bm25K1 + 1.0) / max denom 1e-8)) 0

def rowHit (row : Row) (score : α) : Hit α where
  docId := row.docId
  title := row.title
  content := row.content
  score := score
  rerankScore := 0
  rrfScore := 0
  relevanceScore := 0
  source := "keyword".toList
  metadata := row.metadata

/-- The hits of the rows that may be seen, the best ones first. -/
def scoreRows (query : Text) (limit : ℕ) (rows : List Row) : List (Hit α) :=
  let queryTokens := tokenizeText cfg query
  let corpus := corpusOf cfg rows
  let hits := rows.map fun r =>
    rowHit r (if queryTokens = [] then 0.05
      else bm25 cfg corpus queryTokens (tokenizeText cfg (r.title ++ " ".toList ++ r.content)))
  (sortDesc Hit.score (hits.filter fun h => queryTokens = [] ∨ 0 < h.score)).take limit

def keywordSearch (store : Store) (query : Text) (topK : Option ℕ) (domains : List Text) : List (Hit α) :=
  let limit := limitOf cfg.toSearch topK
  scoreRows cfg query limit (scoredRows cfg scope store query domains limit)

/-! ### Vectors -/

/-- `search` of the index: the nearest points, as far as they are near enough. -/
def indexSearch (backend : Text) (store : Store) (query : Text) (topK : ℕ) : List (Hit α) :=
  ((cfg.nearest query topK store.points).filter fun p => cfg.similarityThreshold ≤ p.2).map fun p => {
    docId := p.1.docId
    title := p.1.title
    content := p.1.content
    score := p.2
    rerankScore := 0
    rrfScore := 0
    relevanceScore := 0
    source := backend
    metadata := p.1.metadata }

def vectorSearch (store : Store) (query : Text) (topK : Option ℕ) (domains : List Text) : List (Hit α) :=
  match cfg.vectorBackend with
  | none => []
  | some backend =>
    ((indexSearch cfg backend store query (limitOf cfg.toSearch topK)).filter fun h =>
      tenantMatches scope h.metadata && sessionMatches scope h.metadata).filter fun h =>
        domainMatches cfg.lower h.metadata domains

/-! ### Neighbours -/

/-- `f"{parent_doc_id}__c{chunk_index:04d}"`, of any number. -/
def chunkRowIdOf (parentDocId : Text) : ℤ → Text
  | .ofNat n => chunkRowId parentDocId n
  | .negSucc n => chunkPrefix parentDocId ++ '-' :: (Nat.toDigits 10 (n + 1)).leftpad 3 '0'

/-- `int(metadata.get("chunk_index", default))`. -/
def chunkIndexOf (metadata : Fields) (default : ℤ) : ℤ :=
  match metadata.field "chunk_index" with
  | .int n => n
  | _ => default

/-- The row of a chunk: the one with its id, or else the first one that says it is. -/
def getChunkByParentIndex (store : Store) (parentDocId : Text) (chunkIndex : ℤ) : Option Row :=
  (store.rows.find? fun r => r.docId = chunkRowIdOf parentDocId chunkIndex).or
    (store.rows.find? fun r =>
      textField r.metadata "parent_doc_id" = parentDocId && chunkIndexOf r.metadata (-1) = chunkIndex)

/-- The chunks beside a hit, as they are asked for: its document, and the numbers beside its own. -/
def neighboursOf (h : Hit α) : List (Text × ℤ) :=
  let parent := textField h.metadata "parent_doc_id"
  if parent = [] || !isChunk h.metadata then []
  else
    let radius := (max 0 cfg.adjacencyRadius).toNat
    ((List.range (2 * radius + 1)).filter fun i => i ≠ radius).map fun i =>
      (parent, chunkIndexOf h.metadata 0 + ((i : ℤ) - radius))

/-- The hits beside which neighbours are looked for. -/
def centers (hits : List (Hit α)) : List (Hit α) :=
  (hits.take (max 1 cfg.adjacencyMaxRank).toNat).filter fun h =>
    h.relevancePassed && !(0 < cfg.gate.minScore && relevanceScore h < cfg.gate.minScore)

def neighbourHit (center : Hit α) (row : Row) : Hit α :=
  annotateHit { rowHit row (relevanceScore center * 0.85) with source := "adjacency".toList } "adjacency".toList
    cfg.gate.minScore

/-- The chunks that are asked for beside the centers, with the hit that each is asked for beside. -/
def asked (hits : List (Hit α)) : List (Hit α × Text × ℤ) :=
  if !cfg.adjacencyEnabled || cfg.adjacencyRadius ≤ 0 then []
  else (centers cfg hits).flatMap fun h => (neighboursOf cfg h).map fun q => (h, q)

/-- The neighbours that are found and are not among the hits yet. -/
def expandFrom (store : Store) : List Text → List (Hit α × Text × ℤ) → List (Hit α)
  | _, [] => []
  | seen, (h, parent, index) :: rest =>
    match getChunkByParentIndex store parent index with
    | none => expandFrom store seen rest
    | some row =>
      if row.docId = [] ∨ row.docId ∈ seen then expandFrom store seen rest
      else neighbourHit cfg h row :: expandFrom store (row.docId :: seen) rest

/-- `_expand_adjacent_chunks`. -/
def expandAdjacentChunks (store : Store) (hits : List (Hit α)) : List (Hit α) :=
  hits ++ expandFrom cfg store (hits.map Hit.docId) (asked cfg hits)

/-! ### Both -/

/-- The hits of both channels, ranked, before the neighbours are added. -/
def rankedHits (store : Store) (query : Text) (topK : Option ℕ) (domains : List Text) (intent : Intent) :
    List (Hit α) :=
  let wide := some (fetchK cfg.toSearch (limitOf cfg.toSearch topK))
  hybridRanked cfg.toSearch query topK intent (vectorSearch cfg scope store query wide domains)
    (keywordSearch cfg scope store query wide domains)

def hybridSearch (store : Store) (query : Text) (topK : Option ℕ) (domains : List Text) (intent : Intent) :
    List (Hit α) :=
  (expandAdjacentChunks cfg store (rankedHits cfg scope store query topK domains intent)).take
    (limitOf cfg.toSearch topK)

/-- `fast_keyword_search`, before the neighbours are added. -/
def fastRankedHits (store : Store) (query : Text) (topK : Option ℕ) (domains : List Text) (intent : Intent) :
    List (Hit α) :=
  let limit := limitOf cfg.toSearch topK
  rankHits cfg.toSearch query limit "keyword".toList intent.latest false
    (keywordSearch cfg scope store query (some limit) domains)

def fastKeywordSearch (store : Store) (query : Text) (topK : Option ℕ) (domains : List Text) (intent : Intent) :
    List (Hit α) :=
  (expandAdjacentChunks cfg store (fastRankedHits cfg scope store query topK domains intent)).take
    (limitOf cfg.toSearch topK)

end

end AgentLangraph.Knowledge
