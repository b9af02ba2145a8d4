import AgentLangraph.Lib.PyFloat
import AgentLangraph.Lib.PyText
import AgentLangraph.Lib.Ranked
import Mathlib.Data.Char
import Mathlib.Data.List.Lex
import Mathlib.Data.Prod.Lex

/-! The memories of the users (`memory_store.py`). All users share a table; a search reads its newest 400 rows,
    then keeps those of its user, scores them and cuts. The search of one session cuts before it keeps those of
    the session.

        table ── newest 400 ──▶ user's ── score ──▶ best max(limit, 20) ──▶ session's ── limit ──▶ hits -/

namespace AgentLangraph.Memory
open PyText PyFloat Ranked

/-- A row of `memories`; payload and embedding are kept as their texts. -/
structure MemoryRow where
  memoryId : Text
  taskId : Text
  userId : Text
  summary : Text := []
  tags : List Text := []
  payload : Text := "\x7b\x7d".toList
  embedding : Text := "[]".toList
  memoryType : Text := "episode".toList
  createdAt : Text
  sessionId : Text := []
  deriving DecidableEq

/-- The table, in the order in which the rows came; `memory_id` is its key. -/
structure MemoryTable where
  rows : List MemoryRow
  ids_nodup : (rows.map MemoryRow.memoryId).Nodup

/-- `a or b`, of texts. -/
def orText (a b : Text) : Text := if a = [] then b else a

/-- `write`: an `INSERT OR REPLACE`. -/
def MemoryTable.write (t : MemoryTable) (record : MemoryRow) : MemoryTable where
  rows := t.rows.filter (·.memoryId ≠ record.memoryId) ++
    [{ record with sessionId := orText record.sessionId record.taskId }]
  ids_nodup := by
    rw [List.map_append, List.nodup_append]
    refine ⟨(List.filter_sublist.map _).nodup t.ids_nodup, List.nodup_singleton _, ?_⟩
    intro id hid other hother
    rw [List.mem_map] at hid
    obtain ⟨r, hr, rfl⟩ := hid
    obtain rfl := List.mem_singleton.1 hother
    simpa using (List.mem_filter.1 hr).2

/-- `delete_for_session`. -/
def MemoryTable.deleteForSession (t : MemoryTable) (sessionId : Text) : MemoryTable where
  rows := t.rows.filter fun r => strip sessionId = [] ∨
    ¬ (r.sessionId = strip sessionId ∨ r.taskId = strip sessionId)
  ids_nodup := (List.filter_sublist.map _).nodup t.ids_nodup

/-! ### Scores -/

/-- The values that the keyword and the semantic score give for a query and a row, and the two boosts. -/
structure Scoring (F : Type) where
  keywordScore : Text → MemoryRow → F
  semanticScore : Text → MemoryRow → F
  taskBoost : F
  sessionBoost : F

variable {F : Type} [PyFloat F]

/-- `_hybrid_score`. -/
def hybridScore (keywordScore semanticScore : F) : F :=
  if keywordScore ≤ 0 ∧ semanticScore ≤ 0 then 0
  else if keywordScore ≤ 0 then semanticScore * 0.85
  else if semanticScore ≤ 0 then keywordScore * 0.75
  else keywordScore * 0.4 + semanticScore * 0.6

/-- `_apply_scope_boost`. -/
def applyScopeBoost (s : Scoring F) (score : F) (row : MemoryRow) (taskId sessionId : Text) : F :=
  if score ≤ 0 then score
  else
    let score := if taskId ≠ [] ∧ row.taskId = taskId then score + s.taskBoost else score
    if sessionId ≠ [] ∧ orText row.sessionId row.taskId = sessionId then score + s.sessionBoost else score

structure MemoryHit (F : Type) where
  memoryId : Text
  taskId : Text
  sessionId : Text
  summary : Text
  score : F
  keywordScore : F
  semanticScore : F
  memoryType : Text
  payload : Text
  tags : List Text

/-- The hit of a row, if its score is positive. -/
def hitOf (s : Scoring F) (query taskId sessionId : Text) (row : MemoryRow) : Option (MemoryHit F) :=
  let keywordScore := s.keywordScore query row
  let semanticScore := s.semanticScore query row
  let score := applyScopeBoost s (hybridScore keywordScore semanticScore) row taskId sessionId
  if score ≤ 0 then none
  else some
    { memoryId := row.memoryId, taskId := row.taskId, sessionId := row.sessionId, summary := row.summary
      score := score, keywordScore := keywordScore, semanticScore := semanticScore
      memoryType := row.memoryType, payload := row.payload, tags := row.tags }

/-- The key of the sort, which is descending. -/
def hitKey (h : MemoryHit F) : F ×ₗ F ×ₗ F := toLex (h.score, toLex (h.semanticScore, h.keywordScore))

/-! ### Searches -/

/-- `SELECT * FROM memories ORDER BY created_at DESC LIMIT 400`. -/
def newest (t : MemoryTable) : List MemoryRow := (sortDesc MemoryRow.createdAt t.rows).take 400

/-- The hits of some rows, the best first. -/
def bestFirst (s : Scoring F) (query taskId sessionId : Text) (rows : List MemoryRow) :
    List (MemoryHit F) :=
  sortDesc hitKey (rows.filterMap (hitOf s query taskId sessionId))

/-- `search`. -/
def search (s : Scoring F) (t : MemoryTable) (query : Text) (limit : ℕ) (userId taskId sessionId : Text) :
    List (MemoryHit F) :=
  let rows := (newest t).filter fun row => userId = [] ∨ row.userId = userId
  (bestFirst s query taskId sessionId rows).take limit

/-- `search_for_context`. -/
def searchForContext (s : Scoring F) (t : MemoryTable) (query userId taskId sessionId : Text) (limit : ℕ)
    (restrictToSession : Bool) : List (MemoryHit F) :=
  let sid := orText sessionId taskId
  let hits := search s t query (if restrictToSession then max limit 20 else limit) userId taskId sid
  if restrictToSession = false ∨ sid = [] then hits.take limit
  else (hits.filter fun h => orText h.sessionId h.taskId = sid).take limit

/-! ### What the searches are for -/

/-- Both tables hold the same memories of the user. -/
def SameFor (userId : Text) (t t' : MemoryTable) : Prop :=
  t.rows.filter (·.userId = userId) = t'.rows.filter (·.userId = userId)

instance (userId : Text) (t t' : MemoryTable) : Decidable (SameFor userId t t') :=
  inferInstanceAs (Decidable (_ = _))

/-- No search of the user tells the tables apart, whatever the scores are. -/
def SameHits (userId : Text) (t t' : MemoryTable) : Prop :=
  ∀ (F : Type) [PyFloat F] (s : Scoring F) (query taskId sessionId : Text) (limit : ℕ),
    search s t query limit userId taskId sessionId = search s t' query limit userId taskId sessionId ∧
      ∀ restrict, searchForContext s t query userId taskId sessionId limit restrict =
        searchForContext s t' query userId taskId sessionId limit restrict

/-- The best memories of the user in the session, of all there are, with a positive score. -/
def bestOfSession (s : Scoring F) (t : MemoryTable) (query userId taskId sid : Text) (limit : ℕ) :
    List (MemoryHit F) :=
  (bestFirst s query taskId sid ((sortDesc MemoryRow.createdAt t.rows).filter fun row =>
    row.userId = userId ∧ orText row.sessionId row.taskId = sid)).take limit

/-- The memories of the user among the newest 400 of all. -/
def newestOf (userId : Text) (t : MemoryTable) : List MemoryRow := (newest t).filter (·.userId = userId)

/-! ### Other users -/

variable {userId : Text} {t t' : MemoryTable}

/-- A memory of another user, under an id that is not one of this user's, is nothing to this user. -/
theorem sameFor_write {record : MemoryRow} (hother : record.userId ≠ userId)
    (hid : ∀ r ∈ t.rows, r.userId = userId → r.memoryId ≠ record.memoryId) :
    SameFor userId (t.write record) t := by
  have hlast : [{ record with sessionId := orText record.sessionId record.taskId }].filter
      (·.userId = userId) = [] := by simp [hother]
  rw [SameFor, MemoryTable.write, List.filter_append, hlast, List.append_nil, List.filter_filter]
  refine List.filter_congr fun r hr => ?_
  by_cases hr' : r.userId = userId
  · simp [hr', hid r hr hr']
  · simp [hr']

/-- So is a deletion in a session in which this user has no memory. -/
theorem sameFor_deleteForSession {sessionId : Text}
    (h : ∀ r ∈ t.rows, r.userId = userId → r.sessionId ≠ strip sessionId ∧ r.taskId ≠ strip sessionId) :
    SameFor userId (t.deleteForSession sessionId) t := by
  rw [SameFor, MemoryTable.deleteForSession, List.filter_filter]
  refine List.filter_congr fun r hr => ?_
  by_cases hr' : r.userId = userId
  · simp [hr', h r hr hr']
  · simp [hr']

/-! ### What the cut leaves of a user -/

theorem filter_sortDesc {α κ : Type} [LinearOrder κ] (key : α → κ) (p : α → Bool) (l : List α) :
    (sortDesc key l).filter p = sortDesc key (l.filter p) :=
  @filter_sortBy α κᵒᵈ _ (fun a => OrderDual.toDual (key a)) p l

/-- Of the memories of the user, newest first, the cut leaves the first ones. -/
theorem newestOf_prefix (userId : Text) (t : MemoryTable) :
    newestOf userId t <+: sortDesc MemoryRow.createdAt (t.rows.filter (·.userId = userId)) := by
  rw [← filter_sortDesc]
  exact (List.take_prefix 400 _).filter _

/-- Of the same memories, the cut leaves the same as soon as it leaves as many. -/
theorem newestOf_eq_iff (h : SameFor userId t t') :
    newestOf userId t = newestOf userId t' ↔ (newestOf userId t).length = (newestOf userId t').length := by
  refine ⟨fun heq => by rw [heq], fun hlen => ?_⟩
  have hinit := newestOf_prefix userId t
  have hinit' := newestOf_prefix userId t'
  rw [← h] at hinit'
  rw [List.prefix_iff_eq_take] at hinit hinit'
  rw [hinit, hinit', hlen]

theorem length_newestOf_le (userId : Text) (t : MemoryTable) : (newestOf userId t).length ≤ 400 :=
  (List.length_filter_le _ _).trans (List.length_take_le _ _)

/-- A search of a user sees what the cut leaves. -/
theorem search_eq (s : Scoring F) (t : MemoryTable) (query : Text) (limit : ℕ) {userId : Text}
    (hu : userId ≠ []) (taskId sessionId : Text) :
    search s t query limit userId taskId sessionId =
      (bestFirst s query taskId sessionId (newestOf userId t)).take limit := by
  simp [search, newestOf, hu]

/-- A score that finds everything. -/
def everything : Scoring ℚ where
  keywordScore _ _ := 0
  semanticScore _ _ := 1
  taskBoost := 0
  sessionBoost := 0

theorem length_search_everything (t : MemoryTable) {userId : Text} (hu : userId ≠ []) :
    (search everything t [] 400 userId [] []).length = (newestOf userId t).length := by
  have hhit : ∀ row, (hitOf everything [] [] [] row).isSome := by
    intro row
    simp [hitOf, applyScopeBoost, hybridScore, everything]
    norm_num
  have hall : ((newestOf userId t).filterMap (hitOf everything [] [] [])).length =
      (newestOf userId t).length := by
    rw [List.filterMap_length_eq_length]
    exact fun row _ => hhit row
  rw [search_eq _ _ _ _ hu, List.length_take, bestFirst, (perm_sortDesc _ _).length_eq, hall]
  exact Nat.min_eq_right (length_newestOf_le userId t)

/-- Searches tell two tables with the same memories of a user apart exactly when the cut leaves more of them in
    one than in the other. -/
theorem sameHits_iff (hu : userId ≠ []) (h : SameFor userId t t') :
    SameHits userId t t' ↔ (newestOf userId t).length = (newestOf userId t').length := by
  constructor
  · intro hsame
    rw [← length_search_everything t hu, ← length_search_everything t' hu,
      (hsame ℚ everything [] [] [] 400).1]
  · intro hlen F _ s query taskId sessionId limit
    have hnewest := (newestOf_eq_iff h).2 hlen
    have hsearch : ∀ limit sessionId, search s t query limit userId taskId sessionId =
        search s t' query limit userId taskId sessionId := by
      intro limit sessionId
      rw [search_eq s t query limit hu, search_eq s t' query limit hu, hnewest]
    exact ⟨hsearch limit sessionId, fun restrict => by rw [searchForContext, searchForContext, hsearch]⟩

/-! ### The search of one session -/

theorem hitOf_eq_some {s : Scoring F} {query taskId sid : Text} {row : MemoryRow} {h : MemoryHit F}
    (hhit : hitOf s query taskId sid row = some h) :
    h.memoryId = row.memoryId ∧ h.taskId = row.taskId ∧ h.sessionId = row.sessionId := by
  simp only [hitOf] at hhit
  split_ifs at hhit
  obtain rfl := Option.some.inj hhit
  exact ⟨rfl, rfl, rfl⟩

/-- Hits of different rows are different. -/
theorem nodup_hits (s : Scoring F) (query taskId sid : Text) {rows : List MemoryRow}
    (h : (rows.map MemoryRow.memoryId).Nodup) : (rows.filterMap (hitOf s query taskId sid)).Nodup := by
  refine List.Nodup.of_map MemoryHit.memoryId (List.Nodup.sublist ?_ h)
  induction rows with
  | nil => exact List.Sublist.refl _
  | cons row rows ih =>
    have ih := ih (List.nodup_cons.1 h).2
    cases hhit : hitOf s query taskId sid row with
    | none =>
      rw [List.filterMap_cons_none hhit]
      exact ih.cons _
    | some hit =>
      rw [List.filterMap_cons_some hhit, List.map_cons, List.map_cons, (hitOf_eq_some hhit).1]
      exact ih.cons_cons _

/-- The hits in a session are those of the rows in it. -/
theorem filterMap_session (s : Scoring F) (query taskId sid : Text) (rows : List MemoryRow) :
    (rows.filter fun row => orText row.sessionId row.taskId = sid).filterMap (hitOf s query taskId sid) =
      (rows.filterMap (hitOf s query taskId sid)).filter fun h => orText h.sessionId h.taskId = sid := by
  induction rows with
  | nil => rfl
  | cons row rows ih =>
    cases hhit : hitOf s query taskId sid row with
    | none => by_cases hrow : orText row.sessionId row.taskId = sid <;> simp [hhit, hrow, ih]
    | some hit =>
      obtain ⟨-, htask, hsession⟩ := hitOf_eq_some hhit
      by_cases hrow : orText row.sessionId row.taskId = sid <;>
        simp [hhit, hrow, ih, htask, hsession]

open Classical in
/-- Cutting, keeping a session and cutting again gives the best of the session exactly when the first cut,
    of the first rows, keeps them. -/
theorem cuts_eq_iff {α κ : Type} [LinearOrder κ] (key : α → κ) {all some : List α} (hnodup : all.Nodup)
    (hinit : some <+: all) (p : α → Bool) (k n : ℕ) :
    (((sortDesc key some).take k).filter p).take n = (sortDesc key (all.filter p)).take n ↔
      ∀ x ∈ (sortDesc key (all.filter p)).take n, x ∈ (sortDesc key some).take k := by
  set cut := (sortDesc key some).take k
  have hsome : some = all.filter (· ∈ some) := by
    rw [List.prefix_iff_eq_take] at hinit
    rw [hinit]
    exact (filter_mem_take hnodup _).symm
  have hsorted : (sortDesc key all).filter (· ∈ some) = sortDesc key some := by
    rw [filter_sortDesc, ← hsome]
  have hcut : cut = (sortDesc key all).filter (· ∈ cut) := by
    have hnodup' : (sortDesc key some).Nodup :=
      (perm_sortDesc key some).nodup_iff.2 (hnodup.sublist hinit.sublist)
    have hsub : ∀ x, x ∈ cut → x ∈ some := fun x hx => mem_sortDesc.1 (List.mem_of_mem_take hx)
    calc cut = (sortDesc key some).filter (· ∈ cut) := (filter_mem_take hnodup' k).symm
      _ = (sortDesc key all).filter (· ∈ cut) := by
        rw [← hsorted, List.filter_filter]
        refine List.filter_congr fun x _ => ?_
        by_cases hx : x ∈ cut
        · simp [hx, hsub x hx]
        · simp [hx]
  have hkept : cut.filter p = (sortDesc key (all.filter p)).filter (· ∈ cut) := by
    conv_lhs => rw [hcut]
    rw [← filter_sortDesc, List.filter_filter, List.filter_filter]
    exact List.filter_congr fun x _ => by rw [Bool.and_comm]
  rw [hkept, take_filter_eq_iff]
  simp

theorem searchForContext_session_iff (s : Scoring F) (t : MemoryTable) (query : Text) {userId : Text}
    (hu : userId ≠ []) (taskId sessionId : Text) (hsid : orText sessionId taskId ≠ []) (limit : ℕ) :
    let sid := orText sessionId taskId
    searchForContext s t query userId taskId sessionId limit true =
        bestOfSession s t query userId taskId sid limit ↔
      ∀ h ∈ bestOfSession s t query userId taskId sid limit,
        h ∈ (bestFirst s query taskId sid (newestOf userId t)).take (max limit 20) := by
  intro sid
  have hids : (((sortDesc MemoryRow.createdAt t.rows).filter (·.userId = userId)).map
      MemoryRow.memoryId).Nodup :=
    (List.filter_sublist.map _).nodup (((perm_sortDesc _ _).map _).nodup_iff.2 t.ids_nodup)
  have hinit : (newestOf userId t).filterMap (hitOf s query taskId sid) <+:
      ((sortDesc MemoryRow.createdAt t.rows).filter (·.userId = userId)).filterMap
        (hitOf s query taskId sid) := ((List.take_prefix 400 _).filter _).filterMap _
  have hsession : ((sortDesc MemoryRow.createdAt t.rows).filter fun row =>
      row.userId = userId ∧ orText row.sessionId row.taskId = sid) =
      ((sortDesc MemoryRow.createdAt t.rows).filter (·.userId = userId)).filter fun row =>
        orText row.sessionId row.taskId = sid := by
    rw [List.filter_filter]
    exact List.filter_congr fun row _ => by rw [Bool.decide_and, Bool.and_comm]
  have hcuts := cuts_eq_iff hitKey (nodup_hits s query taskId sid hids) hinit
    (fun h => orText h.sessionId h.taskId = sid) (max limit 20) limit
  rw [← filterMap_session, ← hsession] at hcuts
  rw [searchForContext, if_pos rfl, if_neg (by simpa using hsid), search_eq s t query _ hu]
  exact hcuts

/-- NOT CORRECT: the newest 400 memories are taken of all users together, and the best hits before those of the
    session, so that others push memories of a user out. Two tables with the same memories of a user give the
    same hits exactly when as many of them are among the newest 400; and the search of a session gives the best
    of it exactly when these are among the newest 400, and there among the best `max(limit, 20)`. -/
theorem search_isolated_iff (userId : Text) (hu : userId ≠ []) :
    (∀ t t' : MemoryTable, SameFor userId t t' →
      (SameHits userId t t' ↔ (newestOf userId t).length = (newestOf userId t').length)) ∧
    ∀ (F : Type) [PyFloat F] (s : Scoring F) (t : MemoryTable) (query taskId sessionId : Text) (limit : ℕ),
      orText sessionId taskId ≠ [] →
      let sid := orText sessionId taskId
      (searchForContext s t query userId taskId sessionId limit true =
          bestOfSession s t query userId taskId sid limit ↔
        ∀ h ∈ bestOfSession s t query userId taskId sid limit,
          h ∈ (bestFirst s query taskId sid (newestOf userId t)).take (max limit 20)) :=
  ⟨fun _ _ h => sameHits_iff hu h, fun _ _ s t query taskId sessionId limit hsid =>
    searchForContext_session_iff s t query hu taskId sessionId hsid limit⟩

/-- A memory of the user, and one of another user that is newer. -/
def mine : MemoryRow where
  memoryId := "a".toList
  taskId := "t1".toList
  userId := "u1".toList
  createdAt := "2026-01-01".toList

def theirs (n : ℕ) : MemoryRow where
  memoryId := List.replicate (n + 1) 'b'
  taskId := "t2".toList
  userId := "u2".toList
  createdAt := "2026-01-02".toList

def alone : MemoryTable := ⟨[mine], List.nodup_singleton _⟩

/-- With 400 memories of the other user. -/
def crowded : MemoryTable where
  rows := mine :: (List.range 400).map theirs
  ids_nodup := by
    rw [List.map_cons, List.nodup_cons, List.map_map]
    refine ⟨by simp [mine, theirs, List.replicate_succ], List.Nodup.map ?_ List.nodup_range⟩
    intro n m h
    simpa [theirs] using congrArg List.length h

/-- The newer ones come first, and are 400 already. -/
theorem newest_crowded : newest crowded = (List.range 400).map theirs := by
  have hdate : ∀ r ∈ (List.range 400).map theirs, r.createdAt = "2026-01-02".toList := by
    intro r hr
    obtain ⟨n, -, rfl⟩ := List.mem_map.1 hr
    rfl
  have hsorted : sortDesc MemoryRow.createdAt ((List.range 400).map theirs) =
      (List.range 400).map theirs := by
    refine List.Pairwise.insertionSort_eq (List.pairwise_of_forall_mem_list fun r hr r' hr' => ?_)
    rw [hdate r hr, hdate r' hr']
  have hlast : ∀ r ∈ (List.range 400).map theirs, ¬ r.createdAt ≤ mine.createdAt := by
    intro r hr
    rw [hdate r hr]
    decide
  have hsort : sortDesc MemoryRow.createdAt crowded.rows = (List.range 400).map theirs ++ [mine] := by
    rw [sortDesc, crowded, List.insertionSort_cons, ← sortDesc, hsorted, List.orderedInsert_eq_take_drop,
      List.takeWhile_eq_self_iff.2 (by simpa using hlast), List.dropWhile_eq_nil_iff.2 (by simpa using hlast)]
  rw [newest, hsort, List.take_append_of_le_length (by simp), List.take_of_length_le (by simp)]

/-- Nothing is left of the user in the crowd, and the searches differ. -/
theorem crowded_out : SameFor "u1".toList alone crowded ∧ ¬ SameHits "u1".toList alone crowded := by
  have hothers : ((List.range 400).map theirs).filter (·.userId = "u1".toList) = [] := by
    rw [List.filter_eq_nil_iff]
    intro r hr
    obtain ⟨n, -, rfl⟩ := List.mem_map.1 hr
    simp [theirs]
  have hsame : SameFor "u1".toList alone crowded := by
    rw [SameFor, alone, crowded, List.filter_cons, List.filter_cons, hothers, List.filter_nil]
  refine ⟨hsame, fun hhits => ?_⟩
  have hlen := (sameHits_iff (by decide) hsame).1 hhits
  rw [newestOf, newestOf, newest_crowded, hothers] at hlen
  exact absurd hlen (by decide)

/-- One memory of another user changes nothing. -/
theorem one_other_unseen : SameHits "u1".toList alone (alone.write (theirs 0)) :=
  ((search_isolated_iff "u1".toList (by decide)).1 alone (alone.write (theirs 0)) (by decide +kernel)).2
    (by decide +kernel)

end AgentLangraph.Memory
