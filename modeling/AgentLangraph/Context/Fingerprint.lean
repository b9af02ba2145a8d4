import AgentLangraph.Context.Item
import AgentLangraph.Lib.Regex
import Mathlib.Data.Finset.Card

/-! Fact-level deduplication across sources (`context_fingerprint.py`). An item is skipped when its
    key was seen before (a source id where there is one, else a hash of its normalised text), or
    when its text is a near duplicate of a text already kept, whatever bucket that text is in. -/

namespace AgentLangraph.Context
open PyText Regex

/-! ### Normalisation -/

/-- `re.IGNORECASE` for a lower-case pattern letter, with the two code points `re` folds to ASCII. -/
def sameFold (pat c : Char) : Bool :=
  c.toLower == pat || (pat == 's' && c == 'ſ') || (pat == 'i' && c == 'ı')

def isWord (host : Host) (c : Char) : Bool := host.isAlnum c || c == '_'

def isHexLower (c : Char) : Bool := "0123456789abcdef".toList.any fun d => sameFold d c

/-- `\b(?:ctx|mem|…|turn)_[a-f0-9]{8,}\b`. -/
def dynamicIdRe (host : Host) : Re :=
  .seq (.boundary (isWord host))
    (oneOf sameFold "ctx".toList
      ["mem".toList, "doc".toList, "tool".toList, "rt".toList, "rm".toList, "rk".toList,
        "wm".toList, "sum".toList, "out".toList, "turn".toList]
      (.seq (.cls (· == '_')) (.seq (.rep isHexLower 8 none) (.boundary (isWord host)))))

/-- `n` decimal digits, then `k`. -/
def digitsThen (host : Host) (n : ℕ) (k : Re) : Re := .seq (.rep host.isDecimal n (some n)) k

def charThen (cs : List Char) (k : Re) : Re := .seq (.cls (· ∈ cs)) k

/-- `\b\d{4}-\d{2}-\d{2}[T ]\d{2}:\d{2}(?::\d{2})?(?:\.\d+)?(?:Z|[+-]\d{2}:?\d{2})?\b`. -/
def timestampRe (host : Host) : Re :=
  .seq (.boundary (isWord host)) <|
    digitsThen host 4 <| charThen ['-'] <| digitsThen host 2 <| charThen ['-'] <|
    digitsThen host 2 <| charThen ['T', ' '] <| digitsThen host 2 <| charThen [':'] <|
    digitsThen host 2 <|
    .seq (.opt (charThen [':'] (.rep host.isDecimal 2 (some 2)))) <|
    .seq (.opt (charThen ['.'] (.rep host.isDecimal 1 none))) <|
    .seq (.opt (.alt (.cls (· == 'Z'))
      (charThen ['+', '-'] (digitsThen host 2 (.seq (.opt (.cls (· == ':')))
        (.rep host.isDecimal 2 (some 2))))))) <|
    .boundary (isWord host)

def templateHeads : List Text :=
  ["[working memory]".toList, "[semantic context summary]".toList, "[session outcomes]".toList]

/-- `t` without the pattern text `pat` in front, up to case. -/
def dropFolded : Text → Text → Option Text
  | [], t => some t
  | _ :: _, [] => none
  | p :: ps, c :: cs => if sameFold p c then dropFolded ps cs else none

/-- `_TEMPLATE_PREFIX_RE.sub("", text)`; the pattern is anchored at the start. -/
def dropTemplatePrefix (text : Text) : Text :=
  match templateHeads.findSome? fun head => dropFolded head (lstrip text) with
  | some rest => lstrip rest
  | none => text

/-- `normalize_content_text`. Joining the words is `\s+` to one space, then `strip`. -/
def normalizeContentText (host : Host) (text : Text) : Text :=
  let t := dropTemplatePrefix (host.lower (strip text))
  let t := delete (timestampRe host) (delete (dynamicIdRe host) t)
  List.intercalate [' '] (split t)

/-- `_normalized_hash`. -/
def normalizedHash (host : Host) (text : Text) : Text :=
  let normalized := normalizeContentText host text
  if normalized = [] then [] else (host.sha256Hex normalized).take 16

/-! ### Keys -/

def kindName : Kind → Text
  | .system => "system".toList
  | .userTurn => "user_turn".toList
  | .recentHistory => "recent_history".toList
  | .semanticSummary => "semantic_summary".toList
  | .workingMemory => "working_memory".toList
  | .episodicMemory => "episodic_memory".toList
  | .knowledge => "knowledge".toList
  | .toolOutput => "tool_output".toList
  | .fileSlice => "file_slice".toList
  | .symbolSlice => "symbol_slice".toList
  | .gitDiff => "git_diff".toList
  | .diagnostic => "diagnostic".toList
  | .testFailure => "test_failure".toList
  | .terminalOutput => "terminal_output".toList
  | .workspaceSummary => "workspace_summary".toList

/-- `source_aware_key`. -/
def sourceAwareKey (host : Host) (item : ContextItem) : Option Text :=
  let memoryId := (metaGet item.data "memory_id").orElse (metaGet item.data "episode_id")
  let docId := (metaGet item.data "doc_id").orElse (metaGet item.data "id")
  let tool := (metaGet item.data "tool").orElse (metaGet item.data "name")
  let status := metaGet item.data "status"
  let itemId := (metaGet item.data "registry_id").orElse (.str item.id)
  if memoryId.truthy then some ("memory:".toList ++ memoryId.toText)
  else if docId.truthy ∧ item.kind ∈ [.knowledge, .episodicMemory] then
    some ("doc:".toList ++ docId.toText)
  else if tool.truthy ∧ item.kind = .toolOutput then
    some ("tool:".toList ++ tool.toText ++ [':'] ++ (status.orElse (.str ['?'])).toText ++ [':'] ++
      (normalizedHash host item.content).take 8)
  else if itemId.truthy ∧
      startswithAny itemId.toText ["rm_".toList, "rk_".toList, "rt_".toList] then
    some ("registry:".toList ++ itemId.toText)
  else none

/-- An item that names no source id has no key of its own. -/
theorem sourceAwareKey_eq_none {host : Host} {item : ContextItem}
    (hdata : ∀ key : String, key ≠ "at" → metaGet item.data key = .none)
    (hid : startswithAny item.id ["rm_".toList, "rk_".toList, "rt_".toList] = false) :
    sourceAwareKey host item = none := by
  rw [sourceAwareKey, hdata "memory_id" (by decide), hdata "episode_id" (by decide),
    hdata "doc_id" (by decide), hdata "id" (by decide), hdata "tool" (by decide),
    hdata "name" (by decide), hdata "registry_id" (by decide)]
  have hnone : ((PyVal.none).orElse .none).truthy = false := rfl
  have hitem : ((PyVal.none).orElse (.str item.id)).toText = item.id := rfl
  rw [hnone, hitem, hid]
  simp only [Bool.false_eq_true, if_false, false_and, and_false]

/-- `strict_dedupe_key`: source id first, normalised content hash as fallback. -/
def strictDedupeKey (host : Host) (item : ContextItem) : Text :=
  match sourceAwareKey host item with
  | some key => key
  | none =>
    let contentHash := normalizedHash host item.content
    "text:".toList ++ kindName item.kind ++ [':'] ++
      (if contentHash = [] then item.content.take 80 else contentHash)

/-! ### Near duplicates -/

/-- `text_overlap_ratio`: Jaccard overlap of the words. -/
def textOverlapRatio (host : Host) (a b : Text) : ℚ :=
  let ta := (split (normalizeContentText host a)).toFinset
  let tb := (split (normalizeContentText host b)).toFinset
  if ta = ∅ ∨ tb = ∅ then 0 else host.round ((ta ∩ tb).card / (ta ∪ tb).card)

/-- `is_near_duplicate` at the default threshold `0.65`. -/
def isNearDuplicate (host : Host) (a b : Text) : Bool :=
  if a = [] ∨ b = [] then false
  else
    let normA := normalizeContentText host a
    let normB := normalizeContentText host b
    if normA = normB then true
    else
      let shorter := if normA.length ≤ normB.length then normA else normB
      let longer := if normA.length ≤ normB.length then normB else normA
      if 20 ≤ shorter.length ∧ contains longer shorter then true
      else host.round (13 / 20) ≤ textOverlapRatio host a b

/-- The loop of `dedupe_context_items`; `texts` are the nonempty texts kept so far. -/
def dedupeFrom (host : Host) (seen : List Text) (texts : List Text) :
    List ContextItem → List ContextItem
  | [] => []
  | item :: items =>
    let key := strictDedupeKey host item
    if key ∈ seen then dedupeFrom host seen texts items
    else if texts.any (isNearDuplicate host item.content) then dedupeFrom host seen texts items
    else
      item :: dedupeFrom host (seen ++ [key])
        (if item.content = [] then texts else texts ++ [item.content]) items

def dedupeContextItems (host : Host) (items : List ContextItem) : List ContextItem :=
  dedupeFrom host [] [] items

/-! ### What deduplication keeps -/

theorem dedupeFrom_sublist (host : Host) : ∀ (items : List ContextItem) (seen texts : List Text),
    (dedupeFrom host seen texts items).Sublist items
  | [], _, _ => List.Sublist.refl _
  | item :: items, seen, texts => by
      rw [dedupeFrom]
      split_ifs
      · exact (dedupeFrom_sublist host items _ _).cons item
      · exact (dedupeFrom_sublist host items _ _).cons item
      · exact (dedupeFrom_sublist host items _ _).cons_cons item
      · exact (dedupeFrom_sublist host items _ _).cons_cons item

/-- Deduplication only leaves items out, in order. -/
theorem dedupe_sublist (host : Host) (items : List ContextItem) :
    (dedupeContextItems host items).Sublist items := dedupeFrom_sublist host items [] []

theorem dedupeFrom_keys (host : Host) (items : List ContextItem) : ∀ seen texts : List Text,
    ((dedupeFrom host seen texts items).map (strictDedupeKey host)).Nodup ∧
      ∀ i ∈ dedupeFrom host seen texts items, strictDedupeKey host i ∉ seen := by
  induction items with
  | nil => intro seen texts; simp [dedupeFrom]
  | cons item items ih =>
    intro seen texts
    rw [dedupeFrom]
    by_cases hseen : strictDedupeKey host item ∈ seen
    · rw [if_pos hseen]
      exact ih seen texts
    rw [if_neg hseen]
    by_cases hnear : texts.any (isNearDuplicate host item.content) = true
    · rw [if_pos hnear]
      exact ih seen texts
    rw [if_neg hnear]
    obtain ⟨hnodup, hnew⟩ := ih (seen ++ [strictDedupeKey host item])
      (if item.content = [] then texts else texts ++ [item.content])
    rw [List.map_cons, List.nodup_cons, List.forall_mem_cons]
    refine ⟨⟨fun hmem => ?_, hnodup⟩, hseen, fun i hi hk => ?_⟩
    · obtain ⟨i, hi, hkey⟩ := List.mem_map.1 hmem
      exact hnew i hi (by simp [hkey])
    · exact hnew i hi (List.mem_append_left _ hk)

/-- The survivors of deduplication have distinct keys. -/
theorem dedupe_keys_nodup (host : Host) (items : List ContextItem) :
    ((dedupeContextItems host items).map (strictDedupeKey host)).Nodup :=
  (dedupeFrom_keys host items [] []).1

end AgentLangraph.Context
