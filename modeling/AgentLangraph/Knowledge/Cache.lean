import AgentLangraph.Knowledge.Store
import AgentLangraph.Lib.Trace
import Mathlib.Data.Finset.Dedup

/-! The cache of retrievals (`retrieval_cache.py`) before the tiers of a search (`retrieval_node.py`). An entry is
    found by the words of the query, the domains and the session; what else a search depends on is not in its key. -/

namespace AgentLangraph.Knowledge
open PyText PyFloat Trace

/-- A call of `_search_knowledge_batch`: its query, what of the decision and of the query object a search reads,
    whether the state asks for the fast tier, and when it is made. -/
structure Call where
  query : Text
  domains : List Text
  sessionId : Text
  intent : Intent
  tryFast : Bool
  time : ℚ

/-- The settings of the cache and what the sanitizer makes of a text. -/
structure Retrieval (α : Type*) extends Channels α where
  cacheEnabled : Bool
  ttl : ℚ
  sessionKnowledge : Bool
  tenant : Option Text
  sanitizeText : Text → Text
  containsInjection : Text → Bool

/-- The normalised query, the domains and the session. -/
abbrev Key := Text × Finset Text × Text

abbrev Cache (α : Type*) := PyDict Key (ℚ × List (Hit α))

/-- `_WS_RE.sub(" ", text)`. -/
def collapseSpace : Text → Text
  | [] => []
  | c :: cs =>
    if isSpace c then
      match cs with
      | [] => [' ']
      | d :: _ => if isSpace d then collapseSpace cs else ' ' :: collapseSpace cs
    else c :: collapseSpace cs

section
variable {α : Type*} [PyFloat α] (cfg : Retrieval α)

def normalizeQuery (query : Text) : Text := collapseSpace (cfg.lower (strip query))

def cacheKey (c : Call) : Key := (normalizeQuery cfg c.query, (c.domains.map cfg.lower).toFinset, c.sessionId)

/-- What is found, and the cache without an entry that has run out. -/
def cacheGet (cache : Cache α) (c : Call) : Option (List (Hit α)) × Cache α :=
  if !cfg.cacheEnabled || c.sessionId = [] then (none, cache)
  else
    match cache.get? (cacheKey cfg c) with
    | none => (none, cache)
    | some (expiresAt, hits) =>
      if expiresAt < c.time then (none, cache.erase (cacheKey cfg c)) else (some hits, cache)

def cachePut (cache : Cache α) (c : Call) (hits : List (Hit α)) : Cache α :=
  if !cfg.cacheEnabled || c.sessionId = [] then cache else cache.set (cacheKey cfg c) (c.time + cfg.ttl, hits)

/-- `sanitize_retrieved_document`. -/
def sanitizeRetrievedDocument (h : Hit α) : Hit α :=
  { h with
    content := cfg.sanitizeText h.content
    title := if cfg.containsInjection h.title then cfg.sanitizeText h.title else h.title }

def sanitizeRetrievedBatch (hits : List (Hit α)) : List (Hit α) := hits.map (sanitizeRetrievedDocument cfg)

def scopeOf (c : Call) : Scope := ⟨cfg.sessionKnowledge, c.sessionId, cfg.tenant⟩

def fastHits (store : Store) (c : Call) : List (Hit α) :=
  sanitizeRetrievedBatch cfg (fastKeywordSearch cfg.toChannels (scopeOf cfg c) store c.query none c.domains c.intent)

def slowHits (store : Store) (c : Call) : List (Hit α) :=
  sanitizeRetrievedBatch cfg (hybridSearch cfg.toChannels (scopeOf cfg c) store c.query none c.domains c.intent)

/-- The hits, the label of the tier, and the cache afterwards. -/
def searchKnowledgeBatch (store : Store) (cache : Cache α) (c : Call) : (List (Hit α) × String) × Cache α :=
  let got := cacheGet cfg cache c
  match got.1 with
  | some cached => ((sanitizeRetrievedBatch cfg cached, "cache"), got.2)
  | none =>
    if c.tryFast ∧ fastHits cfg store c ≠ [] then
      ((fastHits cfg store c, "fast"), cachePut cfg got.2 c (fastHits cfg store c))
    else ((slowHits cfg store c, "slow"), cachePut cfg got.2 c (slowHits cfg store c))

/-- The hits of a call with the cache disabled. -/
def ownHits (store : Store) (c : Call) : List (Hit α) :=
  (searchKnowledgeBatch { cfg with cacheEnabled := false } store .empty c).1.1

def afterCalls (store : Store) (calls : List Call) : Cache α :=
  run (fun cache c => (searchKnowledgeBatch cfg store cache c).2) .empty calls

/-- Every call of a sequence gets the hits that it would get without the cache. -/
def Transparent (store : Store) (calls : List Call) : Prop :=
  ∀ pre c, pre ++ [c] <+: calls →
    (searchKnowledgeBatch cfg store (afterCalls cfg store pre) c).1.1 = ownHits cfg store c

/-- The first of some calls that fills the entry of a call. -/
def filler (pre : List Call) (c : Call) : Option Call :=
  if !cfg.cacheEnabled || c.sessionId = [] then none else pre.find? fun d => cacheKey cfg d = cacheKey cfg c

end

section
variable {α : Type*} {cfg : Retrieval α}

theorem sessionId_of_key {c d : Call} (h : cacheKey cfg d = cacheKey cfg c) : d.sessionId = c.sessionId :=
  congrArg (fun k => k.2.2) h

end

section
variable {α : Type*} [PyFloat α] {cfg : Retrieval α} {store : Store}

theorem ownHits_eq (c : Call) : ownHits cfg store c =
    if c.tryFast ∧ fastHits cfg store c ≠ [] then fastHits cfg store c else slowHits cfg store c := by
  have hget : (cacheGet { cfg with cacheEnabled := false } .empty c).1 = none := rfl
  rw [ownHits, searchKnowledgeBatch, hget]
  change (if c.tryFast ∧ fastHits cfg store c ≠ [] then ((fastHits cfg store c, "fast"), _)
    else ((slowHits cfg store c, "slow"), _) : (List (Hit α) × String) × Cache α).1.1 = _
  split_ifs <;> rfl

/-- A call that finds nothing puts its own hits into the cache. -/
theorem search_of_miss {cache : Cache α} {c : Call} (h : cacheGet cfg cache c = (none, cache)) :
    (searchKnowledgeBatch cfg store cache c).1.1 = ownHits cfg store c ∧
      (searchKnowledgeBatch cfg store cache c).2 = cachePut cfg cache c (ownHits cfg store c) := by
  rw [searchKnowledgeBatch, ownHits_eq, h]
  dsimp only
  split_ifs <;> exact ⟨rfl, rfl⟩

theorem search_of_hit {cache : Cache α} {c : Call} {hits : List (Hit α)}
    (h : cacheGet cfg cache c = (some hits, cache)) :
    (searchKnowledgeBatch cfg store cache c).1.1 = sanitizeRetrievedBatch cfg hits ∧
      (searchKnowledgeBatch cfg store cache c).2 = cache := by
  rw [searchKnowledgeBatch, h]
  exact ⟨rfl, rfl⟩

/-- The cache holds of every key the own hits of the first call with it, until they run out. -/
def Holds (cfg : Retrieval α) (store : Store) (pre : List Call) (cache : Cache α) : Prop :=
  ∀ c : Call, c.sessionId ≠ [] → cache.get? (cacheKey cfg c) =
    (pre.find? fun d => cacheKey cfg d = cacheKey cfg c).map fun d => (d.time + cfg.ttl, ownHits cfg store d)

section
variable {start : ℚ} {pre : List Call} {cache : Cache α} {c : Call}
  (hon : cfg.cacheEnabled = true) (hpre : ∀ d ∈ pre, start ≤ d.time) (hc : c.time ≤ start + cfg.ttl)
  (hholds : Holds cfg store pre cache)

include hon hpre hc hholds

/-- A call within the time to live finds what the first call with its key has left. -/
theorem cacheGet_of_holds :
    cacheGet cfg cache c = ((filler cfg pre c).map (ownHits cfg store), cache) := by
  rw [cacheGet, filler, hon]
  by_cases hsession : c.sessionId = []
  · simp [hsession]
  · have hcond : (!true || decide (c.sessionId = [])) = false := by simp [hsession]
    rw [hcond, if_neg Bool.false_ne_true, if_neg Bool.false_ne_true, hholds c hsession]
    cases hfind : pre.find? fun d => cacheKey cfg d = cacheKey cfg c with
    | none => rfl
    | some d =>
      have htime := hpre d (List.mem_of_find?_eq_some hfind)
      have hlate : ¬ d.time + cfg.ttl < c.time := not_lt.2 (hc.trans (add_le_add_left htime cfg.ttl))
      simp [hlate]

theorem holds_concat : Holds cfg store (pre ++ [c]) (searchKnowledgeBatch cfg store cache c).2 := by
  intro c' hsession'
  have hget := cacheGet_of_holds hon hpre hc hholds
  -- what a key had it keeps; only the key of the call can come to have something
  have hlater (hother : cacheKey cfg c ≠ cacheKey cfg c' ∨ (filler cfg pre c).isSome) :
      (pre ++ [c]).find? (fun d => cacheKey cfg d = cacheKey cfg c') =
        pre.find? fun d => cacheKey cfg d = cacheKey cfg c' := by
    rw [List.find?_append]
    by_cases hkey : cacheKey cfg c = cacheKey cfg c'
    · have hsession : c.sessionId ≠ [] := by rwa [sessionId_of_key hkey]
      have hsome := hother.resolve_left (not_not.2 hkey)
      rw [filler, hon, if_neg (by simp [hsession]), hkey] at hsome
      exact Option.or_of_isSome hsome
    · simp [hkey]
  cases hfill : filler cfg pre c with
  | some d =>
    rw [hfill] at hget
    rw [(search_of_hit hget).2, hholds c' hsession', hlater (Or.inr (by rw [hfill]; rfl))]
  | none =>
    rw [hfill] at hget
    rw [(search_of_miss hget).2, cachePut, hon]
    by_cases hsession : c.sessionId = []
    · have hkey : cacheKey cfg c ≠ cacheKey cfg c' := by
        intro hkey
        rw [← sessionId_of_key hkey] at hsession'
        exact hsession' hsession
      rw [if_pos (by simp [hsession]), hholds c' hsession', hlater (Or.inl hkey)]
    · rw [if_neg (by simp [hsession]), PyDict.get?_set]
      split_ifs with hkey
      · have hnone : pre.find? (fun d => cacheKey cfg d = cacheKey cfg c') = none := by
          rw [filler, hon, if_neg (by simp [hsession]), hkey] at hfill
          exact hfill
        rw [List.find?_append, hnone]
        simp [hkey]
      · rw [hholds c' hsession', hlater (Or.inl hkey)]

end

/-- RUN: within the time to live the cache holds the own hits of the first calls. -/
theorem holds_afterCalls {start : ℚ} (hon : cfg.cacheEnabled = true) (calls : List Call) :
    (∀ c ∈ calls, start ≤ c.time ∧ c.time ≤ start + cfg.ttl) →
      Holds cfg store calls (afterCalls cfg store calls) := by
  induction calls using List.reverseRecOn with
  | nil => exact fun _ c _ => rfl
  | append_singleton pre c ih =>
    intro hwithin
    have hpre : ∀ d ∈ pre, start ≤ d.time ∧ d.time ≤ start + cfg.ttl :=
      fun d hd => hwithin d (List.mem_append_left _ hd)
    have hc := hwithin c (List.mem_append_right _ (List.mem_singleton_self c))
    rw [afterCalls, run_append]
    exact holds_concat hon (fun d hd => (hpre d hd).1) hc.2 (ih hpre)

/-- What a call of a sequence gets: the hits of the call that has filled its entry, sanitized once more, or its own. -/
theorem search_of_within {start : ℚ} {pre : List Call} {c : Call}
    (hwithin : ∀ d ∈ pre ++ [c], start ≤ d.time ∧ d.time ≤ start + cfg.ttl) :
    (searchKnowledgeBatch cfg store (afterCalls cfg store pre) c).1.1 =
      ((filler cfg pre c).map fun d => sanitizeRetrievedBatch cfg (ownHits cfg store d)).getD
        (ownHits cfg store c) := by
  cases hon : cfg.cacheEnabled with
  | false =>
    have hget : cacheGet cfg (afterCalls cfg store pre) c = (none, afterCalls cfg store pre) := by
      rw [cacheGet, hon]
      rfl
    have hfill : filler cfg pre c = none := by
      rw [filler, hon]
      rfl
    rw [hfill]
    exact (search_of_miss hget).1
  | true =>
    have hpre : ∀ d ∈ pre, start ≤ d.time ∧ d.time ≤ start + cfg.ttl :=
      fun d hd => hwithin d (List.mem_append_left _ hd)
    have hc := hwithin c (List.mem_append_right _ (List.mem_singleton_self c))
    have hholds : Holds cfg store pre (afterCalls cfg store pre) := holds_afterCalls hon pre hpre
    have hget := cacheGet_of_holds hon (fun d hd => (hpre d hd).1) hc.2 hholds
    cases hfill : filler cfg pre c with
    | none =>
      rw [hfill] at hget
      exact (search_of_miss hget).1
    | some d =>
      rw [hfill] at hget
      exact (search_of_hit hget).1

/-- Within the time to live the cache is transparent exactly when every call that comes after one with its key
    would itself find what the first of them has found, sanitized once more. -/
theorem transparent_iff (cfg : Retrieval α) (store : Store) (calls : List Call) (start : ℚ)
    (hwithin : ∀ c ∈ calls, start ≤ c.time ∧ c.time ≤ start + cfg.ttl) :
    Transparent cfg store calls ↔
      ∀ pre c, pre ++ [c] <+: calls → ∀ d, filler cfg pre c = some d →
        ownHits cfg store c = sanitizeRetrievedBatch cfg (ownHits cfg store d) := by
  refine forall₃_congr fun pre c hfront => ?_
  rw [search_of_within fun d hd => hwithin d (hfront.subset hd)]
  cases filler cfg pre c with
  | none => exact iff_of_true rfl fun d hd => nomatch hd
  | some d =>
    constructor
    · rintro h e he
      obtain rfl := Option.some.inj he
      exact h.symm
    · exact fun h => (h d rfl).symm

end

/-- A cache before the catalog alone, and texts that need no sanitizing. -/
def cachedCatalog : Retrieval ℚ where
  toSearch := lexicalSearch
  ftsEnabled := false
  bm25K1 := 3 / 2
  bm25B := 3 / 4
  log := id
  isCjk := fun _ => false
  vectorBackend := none
  similarityThreshold := 1 / 5
  nearest := fun _ _ _ => []
  ftsMatch := fun _ _ => []
  adjacencyEnabled := true
  adjacencyRadius := 1
  adjacencyMaxRank := 2
  cacheEnabled := true
  ttl := 90
  sessionKnowledge := true
  tenant := none
  sanitizeText := id
  containsInjection := fun _ => false

/-- A document that has been superseded. -/
def oldRow : Row := ⟨"old".toList, [], "x".toList, PyDict.put .empty "superseded" (.bool true), []⟩

/-- A search for `x` that wants the latest, or does not. -/
def searchFor (latest : Bool) (time : ℚ) : Call := ⟨"x".toList, [], "s".toList, ⟨latest, false⟩, false, time⟩

theorem repeated_transparent :
    Transparent cachedCatalog ⟨[oldRow], [], []⟩ [searchFor false 0, searchFor false 1] :=
  (transparent_iff _ _ _ 0 (by decide +kernel)).2 fun pre c hfront d hd => by
    have hsame : ∀ c ∈ [searchFor false 0, searchFor false 1],
        ownHits cachedCatalog ⟨[oldRow], [], []⟩ c =
          sanitizeRetrievedBatch cachedCatalog (ownHits cachedCatalog ⟨[oldRow], [], []⟩ (searchFor false 0)) := by
      decide +kernel
    have hd : d ∈ pre := by
      rw [filler] at hd
      split_ifs at hd
      exact List.mem_of_find?_eq_some hd
    have hsanitize (hits : List (Hit ℚ)) : sanitizeRetrievedBatch cachedCatalog hits = hits := List.map_id hits
    rw [hsanitize, hsame c (hfront.subset (by simp)), hsame d (hfront.subset (by simp [hd]))]

/-- The second search wants the latest, and gets what the first one has found. -/
theorem cache_keeps_stale : ¬ Transparent cachedCatalog ⟨[oldRow], [], []⟩ [searchFor false 0, searchFor true 1] :=
  fun h => absurd (h [searchFor false 0] (searchFor true 1) List.prefix_rfl) (by decide +kernel)

end AgentLangraph.Knowledge
