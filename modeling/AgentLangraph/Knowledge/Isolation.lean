import AgentLangraph.Knowledge.Store

/-! What documents of other sessions do to the hits of a search. They are filtered out of the catalog before the
    rows are scored, but of what the indexes give only behind their cut, and of the neighbours not at all. -/

namespace AgentLangraph.Knowledge
open PyText PyFloat

/-- Stamped with the id of another session. -/
def foreign (session : Text) (metadata : Fields) : Bool :=
  metadata.field "session_id" ≠ .none && (metadata.field "session_id").toText ≠ session

/-- A store without the documents of other sessions. -/
def Store.without (store : Store) (session : Text) : Store where
  rows := store.rows.filter fun r => !foreign session r.metadata
  fts := store.fts.filter fun f => !store.rows.any fun r => r.docId = f.docId && foreign session r.metadata
  points := store.points.filter fun p => !foreign session p.metadata

section
variable {α : Type*} [PyFloat α] (cfg : Channels α) (scope : Scope)

/-- Two stores give the same hits. -/
structure SameHits (K K' : Store) (query : Text) (topK : Option ℕ) (domains : List Text) (intent : Intent) : Prop where
  keyword : keywordSearch cfg scope K query topK domains = keywordSearch cfg scope K' query topK domains
  vector : vectorSearch cfg scope K query topK domains = vectorSearch cfg scope K' query topK domains
  hybrid : hybridSearch cfg scope K query topK domains intent = hybridSearch cfg scope K' query topK domains intent

/-- How many hits a search asks the channels for: its own search, and both as parts of the hybrid one. -/
def limits (topK : Option ℕ) : List (Option ℕ) :=
  [topK, some (fetchK cfg.toSearch (limitOf cfg.toSearch topK))]

/-- Of what is cut off before it is filtered, the same is left over; and the same rows stand beside the hits. -/
structure SameCuts (K K' : Store) (query : Text) (topK : Option ℕ) (domains : List Text) (intent : Intent) : Prop where
  fts : cfg.ftsEnabled → ∀ k ∈ limits cfg topK,
    scoredRows cfg scope K query domains (limitOf cfg.toSearch k) =
      scoredRows cfg scope K' query domains (limitOf cfg.toSearch k)
  vector : ∀ backend, cfg.vectorBackend = some backend → ∀ k ∈ limits cfg topK,
    (indexSearch cfg backend K query (limitOf cfg.toSearch k)).filter
        (fun h => tenantMatches scope h.metadata && sessionMatches scope h.metadata &&
          domainMatches cfg.lower h.metadata domains) =
      (indexSearch cfg backend K' query (limitOf cfg.toSearch k)).filter
        (fun h => tenantMatches scope h.metadata && sessionMatches scope h.metadata &&
          domainMatches cfg.lower h.metadata domains)
  neighbours : ∀ q ∈ asked cfg (rankedHits cfg scope K query topK domains intent),
    getChunkByParentIndex K q.2.1 q.2.2 = getChunkByParentIndex K' q.2.1 q.2.2

end

section
variable {α : Type*} {cfg : Channels α} {scope : Scope} {K K' : Store}

/-- A document of another session may not be seen. -/
theorem not_sessionMatches {metadata : Fields} (h : foreign scope.session metadata) :
    sessionMatches scope metadata = false := by
  rw [foreign, Bool.and_eq_true, decide_eq_true_eq, decide_eq_true_eq] at h
  rw [sessionMatches, if_neg h.1]
  split_ifs with hnone
  · rfl
  · have hsession : currentSessionId scope = scope.session := by
      rw [currentSessionId] at hnone ⊢
      split_ifs at hnone ⊢
      · rfl
      · exact absurd rfl hnone
    rw [hsession]
    exact decide_eq_false h.2

theorem filter_visible_without (store : Store) (domains : List Text) :
    (store.without scope.session).rows.filter (visible cfg scope domains) =
      store.rows.filter (visible cfg scope domains) := by
  rw [Store.without, List.filter_filter]
  refine List.filter_congr fun r _ => ?_
  cases hforeign : foreign scope.session r.metadata with
  | false => simp
  | true => simp [visible, not_sessionMatches hforeign]

/-- Without the full-text index the rows that are scored are those that may be seen. -/
theorem scoredRows_of_same (hsame : K.without scope.session = K'.without scope.session) (hoff : cfg.ftsEnabled = false)
    (query : Text) (domains : List Text) (limit : ℕ) :
    scoredRows cfg scope K query domains limit = scoredRows cfg scope K' query domains limit := by
  have hall (store : Store) : scoredRows cfg scope store query domains limit =
      (store.without scope.session).rows.filter (visible cfg scope domains) := by
    have hnone : keywordSearchFts cfg store query limit = [] := by
      rw [keywordSearchFts, hoff]
      rfl
    rw [filter_visible_without, scoredRows, hnone, if_neg (not_not.2 rfl)]
  rw [hall, hall, hsame]

end

section
variable {α : Type*} [PyFloat α] {cfg : Channels α} {scope : Scope} {K K' : Store}

section
variable {query : Text} {topK : Option ℕ} {domains : List Text} {intent : Intent}
  (hsame : K.without scope.session = K'.without scope.session)
  (hcuts : SameCuts cfg scope K K' query topK domains intent)

include hsame hcuts

theorem keywordSearch_of_cuts {k : Option ℕ} (hk : k ∈ limits cfg topK) :
    keywordSearch cfg scope K query k domains = keywordSearch cfg scope K' query k domains := by
  rw [keywordSearch, keywordSearch]
  cases hfts : cfg.ftsEnabled with
  | false => rw [scoredRows_of_same hsame hfts]
  | true => rw [hcuts.fts hfts k hk]

omit hsame in
theorem vectorSearch_of_cuts {k : Option ℕ} (hk : k ∈ limits cfg topK) :
    vectorSearch cfg scope K query k domains = vectorSearch cfg scope K' query k domains := by
  rw [vectorSearch, vectorSearch]
  cases hbackend : cfg.vectorBackend with
  | none => rfl
  | some backend =>
    have hvector := hcuts.vector backend hbackend k hk
    simp only [List.filter_filter]
    simpa only [Bool.and_comm] using hvector

theorem rankedHits_of_cuts :
    rankedHits cfg scope K query topK domains intent = rankedHits cfg scope K' query topK domains intent := by
  have hwide : some (fetchK cfg.toSearch (limitOf cfg.toSearch topK)) ∈ limits cfg topK := by simp [limits]
  rw [rankedHits, rankedHits, keywordSearch_of_cuts hsame hcuts hwide, vectorSearch_of_cuts hcuts hwide]

end

theorem expandFrom_congr (asked : List (Hit α × Text × ℤ)) : ∀ seen : List Text,
    (∀ q ∈ asked, getChunkByParentIndex K q.2.1 q.2.2 = getChunkByParentIndex K' q.2.1 q.2.2) →
    expandFrom cfg K seen asked = expandFrom cfg K' seen asked := by
  induction asked with
  | nil => exact fun _ _ => rfl
  | cons q asked ih =>
    intro seen h
    obtain ⟨center, parent, index⟩ := q
    rw [List.forall_mem_cons] at h
    rw [expandFrom, expandFrom, ← h.1]
    cases getChunkByParentIndex K parent index with
    | none => exact ih seen h.2
    | some row =>
      dsimp only
      split_ifs
      · exact ih seen h.2
      · rw [ih _ h.2]

end

/-! ### Two sessions -/

/-- The catalog alone. -/
def catalogOnly : Channels ℚ where
  toSearch := lexicalSearch
  ftsEnabled := false
  bm25K1 := 3 / 2
  bm25B := 3 / 4
  log := id
  isCjk := fun _ => false
  vectorBackend := none
  similarityThreshold := 1 / 5
  nearest := fun _ _ _ => []
  ftsMatch := fun _ _ => []
  adjacencyEnabled := false
  adjacencyRadius := 1
  adjacencyMaxRank := 2

/-- The catalog and a vector index in which the point `near` is nearer than the others. -/
def withVectors : Channels ℚ where
  toSearch := lexicalSearch
  ftsEnabled := false
  bm25K1 := 3 / 2
  bm25B := 3 / 4
  log := id
  isCjk := fun _ => false
  vectorBackend := some "chroma".toList
  similarityThreshold := 1 / 5
  nearest := fun _ topK points =>
    (sortDesc Prod.snd (points.map fun p => (p, if p.docId = "near".toList then 9 / 10 else 1 / 2))).take topK
  ftsMatch := fun _ _ => []
  adjacencyEnabled := true
  adjacencyRadius := 1
  adjacencyMaxRank := 2

def sessionA : Scope := ⟨true, "sess-a".toList, none⟩

/-- The document `near` of another session. -/
def otherPoint : Point :=
  ⟨"near".toList, [], "x".toList, PyDict.put .empty "session_id" (.str "sess-b".toList)⟩

def sharedPoint : Point := ⟨"far".toList, [], "x".toList, .empty⟩

def otherRow : Row :=
  ⟨"near".toList, [], "x".toList, PyDict.put .empty "session_id" (.str "sess-b".toList), []⟩

end AgentLangraph.Knowledge
