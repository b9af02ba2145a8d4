import AgentLangraph.Lib.Loop
import AgentLangraph.Context.Policy
import AgentLangraph.Context.Truncate
import AgentLangraph.Context.Fingerprint
import AgentLangraph.Context.History

/-! The reducer (`reduce_context_items`): deduplicate, bring every bucket under its cap, then bring
    the whole prompt under its budget.

    The per-bucket `while` loop is run on fuel (`Lib.Loop`), so a run that never leaves it returns
    `none` for every fuel; `list.remove` of an absent item returns `none` too. The trace and the
    metrics are left out: nothing is read back from them.

        items → dedupe → group → [merge → minimise → while over cap]* → degrade → overflow -/

namespace AgentLangraph.Context
open PyText

/-- The three lists of a reduction and the number of ids drawn so far. -/
structure Acc where
  kept : List ContextItem := []
  compressed : List ContextItem := []
  dropped : List ContextItem := []
  nextId : ℕ := 0
  deriving DecidableEq

/-- `list.remove`, which raises when the item is absent. -/
def removeItem (kept : List ContextItem) (item : ContextItem) : Option (List ContextItem) :=
  if item ∈ kept then some (kept.erase item) else none

def Env.truncate (env : Env) (maxTokens : ℤ) (item : ContextItem) : ContextItem :=
  truncateItemContent env.host env.settings env.query maxTokens item

/-! ### Before the loop -/

/-- The first four nonblank lines. -/
def summaryLines (text : Text) : Text :=
  joinLines (((splitlines text).filter fun line => strip line ≠ []).take 4)

/-- `_apply_min_bucket_representation`. -/
def applyMinBucketRepresentation (env : Env) (policy : PromptContextPolicy) (bucket : Bucket)
    (items : List ContextItem) : List ContextItem :=
  let minTokens := policy.minBucketTokens.getD bucket 0
  let minItems := policy.minimumRequiredItems.getD bucket 1
  if minTokens = 0 ∨ items = [] then items
  else
    let keep := (sortItems items).take (max 1 minItems).toNat
    let perItem := max 32 (minTokens / (max 1 keep.length : ℕ))
    keep.map fun item =>
      if policy.allowSummarySubstitute.getD bucket false ∧
          item.kind ∈ [.workingMemory, .semanticSummary] then
        clipContent item (summaryLines item.content) "min_bucket_summary"
      else env.truncate perItem item

/-- An over-full transcript is merged. -/
def MergesTranscript (policy : PromptContextPolicy) (bucket : Bucket)
    (items : List ContextItem) : Prop :=
  policy.cap bucket < sumItemTokens items ∧ bucket ∈ policy.compressibleBuckets ∧
    bucket = .recentTranscript

instance (policy : PromptContextPolicy) (bucket : Bucket) (items : List ContextItem) :
    Decidable (MergesTranscript policy bucket items) := inferInstanceAs (Decidable (_ ∧ _ ∧ _))

def mergeTranscript (env : Env) (policy : PromptContextPolicy) (bucket : Bucket) (n : ℕ)
    (items : List ContextItem) : List ContextItem :=
  if MergesTranscript policy bucket items then compressTranscriptItems env n items else items

/-- An over-full required bucket gets its minimal representation when that is smaller. -/
def Minimizes (env : Env) (policy : PromptContextPolicy) (bucket : Bucket)
    (items : List ContextItem) : Prop :=
  policy.cap bucket < sumItemTokens items ∧ bucket ∈ policy.requiredBuckets ∧
    (policy.minBucketTokens.get? bucket).isSome = true ∧
      applyMinBucketRepresentation env policy bucket items ≠ [] ∧
        sumItemTokens (applyMinBucketRepresentation env policy bucket items) < sumItemTokens items

instance (env : Env) (policy : PromptContextPolicy) (bucket : Bucket) (items : List ContextItem) :
    Decidable (Minimizes env policy bucket items) :=
  inferInstanceAs (Decidable (_ ∧ _ ∧ _ ∧ _ ∧ _))

def minimizeBucket (env : Env) (policy : PromptContextPolicy) (bucket : Bucket)
    (items : List ContextItem) : List ContextItem :=
  if Minimizes env policy bucket items then applyMinBucketRepresentation env policy bucket items
  else items

/-! ### The loop -/

/-- What the `while` loop of one bucket changes. -/
structure Stage where
  items : List ContextItem
  compressed : List ContextItem
  dropped : List ContextItem

/-- `max(32, cap // max(1, len(bucket_items)))`. -/
def capShare (policy : PromptContextPolicy) (bucket : Bucket) (items : List ContextItem) : ℤ :=
  max 32 (policy.cap bucket / (max 1 items.length : ℕ))

/-- `bucket_items[-1] = trimmed`. -/
def truncateLast (env : Env) (policy : PromptContextPolicy) (bucket : Bucket)
    (items : List ContextItem) : List ContextItem :=
  match items.getLast? with
  | none => items
  | some victim => items.dropLast ++ [env.truncate (capShare policy bucket items) victim]

/-- One round of `while bucket_tokens > cap and bucket_items`. -/
def capStep (env : Env) (policy : PromptContextPolicy) (bucket : Bucket) (st : Stage) :
    Stage ⊕ Stage :=
  match st.items.getLast? with
  | none => .inr st
  | some victim =>
    let rest := st.items.dropLast
    if sumItemTokens st.items ≤ policy.cap bucket then .inr st
    else if bucket ∈ policy.droppableBuckets then
      if bucket ∈ policy.requiredBuckets ∧ rest = [] then .inr st
      else .inl { st with items := rest, dropped := st.dropped ++ [victim] }
    else if bucket ∈ policy.compressibleBuckets ∧ bucket ≠ .recentTranscript then
      .inl { st with
        items := truncateLast env policy bucket st.items
        compressed := st.compressed ++ [victim] }
    else .inl { st with items := rest, dropped := st.dropped ++ [victim] }

/-- The state in which the loop of a bucket starts. -/
def enterBucket (env : Env) (policy : PromptContextPolicy) (bucket : Bucket)
    (group : List ContextItem) (acc : Acc) : Stage :=
  let sorted := sortItems group
  let merged := mergeTranscript env policy bucket acc.nextId sorted
  let items := minimizeBucket env policy bucket merged
  { items := items
    compressed := acc.compressed ++ (if MergesTranscript policy bucket sorted then sorted else []) ++
      (if Minimizes env policy bucket merged then merged.filter (· ∉ items) else [])
    dropped := acc.dropped }

/-- The ids drawn while a bucket is merged. -/
def idsDrawn (env : Env) (policy : PromptContextPolicy) (bucket : Bucket)
    (group : List ContextItem) (n : ℕ) : ℕ :=
  if MergesTranscript policy bucket (sortItems group) then
    (compressTranscriptItems env n (sortItems group)).length
  else 0

/-- One bucket, with `fuel` rounds for its loop. -/
def reduceBucket (env : Env) (policy : PromptContextPolicy) (fuel : ℕ) (acc : Acc)
    (group : Bucket × List ContextItem) : Option Acc :=
  (Loop.run (capStep env policy group.1) fuel (enterBucket env policy group.1 group.2 acc)).map
    fun st =>
      { kept := acc.kept ++ st.items
        compressed := st.compressed
        dropped := st.dropped
        nextId := acc.nextId + idsDrawn env policy group.1 group.2 acc.nextId }

def reduceBuckets (env : Env) (policy : PromptContextPolicy) (fuel : ℕ) :
    List (Bucket × List ContextItem) → Acc → Option Acc
  | [], acc => some acc
  | group :: groups, acc =>
    (reduceBucket env policy fuel acc group).bind (reduceBuckets env policy fuel groups)

/-! ### Under the global budget -/

/-- `for old in olds: kept.remove(old)`. -/
def removeItems : List ContextItem → List ContextItem → Option (List ContextItem)
  | kept, [] => some kept
  | kept, old :: olds => (removeItem kept old).bind fun kept' => removeItems kept' olds

/-- `max(32, item.estimated_tokens // 2)`. -/
def halfTokens (item : ContextItem) : ℤ := max 32 (item.estimatedTokens / 2)

/-- An item of a degrading bucket that is shortened rather than dropped. -/
def Spared (policy : PromptContextPolicy) (bucket : Bucket) (item : ContextItem) : Prop :=
  item.droppable = false ∨ bucket ∈ policy.preserveFidelityBuckets

instance (policy : PromptContextPolicy) (bucket : Bucket) (item : ContextItem) :
    Decidable (Spared policy bucket item) := inferInstanceAs (Decidable (_ ∨ _))

/-- The item loop of one degrading bucket. -/
def degradeItems (env : Env) (policy : PromptContextPolicy) (budget : ℤ) (bucket : Bucket) :
    List ContextItem → Acc → Option Acc
  | [], acc => some acc
  | item :: items, acc =>
    if sumItemTokens acc.kept ≤ budget then some acc
    else if Spared policy bucket item then
      if item.compressible then
        (removeItem acc.kept item).bind fun kept =>
          degradeItems env policy budget bucket items
            { acc with
              kept := kept ++ [env.truncate (halfTokens item) item]
              compressed := acc.compressed ++ [item] }
      else degradeItems env policy budget bucket items acc
    else
      (removeItem acc.kept item).bind fun kept =>
        degradeItems env policy budget bucket items
          { acc with kept := kept, dropped := acc.dropped ++ [item] }

def degradeBucket (env : Env) (policy : PromptContextPolicy) (budget : ℤ) (bucket : Bucket)
    (acc : Acc) : Option Acc :=
  let bucketKept := acc.kept.filter fun i => i.resolveBucket = bucket
  if bucketKept = [] then some acc
  else if bucket ∈ policy.compressibleBuckets ∧ bucket = .recentTranscript then
    let newItems := compressTranscriptItems env acc.nextId bucketKept
    (removeItems acc.kept bucketKept).map fun kept =>
      { acc with
        kept := kept ++ newItems
        compressed := acc.compressed ++ bucketKept
        nextId := acc.nextId + newItems.length }
  else degradeItems env policy budget bucket (sortByRankDesc bucketKept) acc

/-- `for bucket in policy.degrade_order`. -/
def degradeBuckets (env : Env) (policy : PromptContextPolicy) (budget : ℤ) :
    List Bucket → Acc → Option Acc
  | [], acc => some acc
  | bucket :: buckets, acc =>
    if sumItemTokens acc.kept ≤ budget then some acc
    else (degradeBucket env policy budget bucket acc).bind (degradeBuckets env policy budget buckets)

/-- The last pass: droppable items go, least important first, critical ones stay. -/
def dropOverflow (budget : ℤ) : List ContextItem → Acc → Option Acc
  | [], acc => some acc
  | item :: items, acc =>
    if sumItemTokens acc.kept ≤ budget then some acc
    else if item.priority = .critical ∨ item.droppable = false then dropOverflow budget items acc
    else
      (removeItem acc.kept item).bind fun kept =>
        dropOverflow budget items { acc with kept := kept, dropped := acc.dropped ++ [item] }

/-- Everything after the buckets. -/
def fitBudget (env : Env) (policy : PromptContextPolicy) (budget : ℤ) (acc : Acc) : Option Acc :=
  if sumItemTokens acc.kept ≤ budget then some acc
  else
    (degradeBuckets env policy budget policy.degradeOrder acc).bind fun acc =>
      if sumItemTokens acc.kept ≤ budget then some acc
      else dropOverflow budget (sortByRankDesc acc.kept) acc

/-- The items that go into the buckets. -/
def dedupedItems (env : Env) (items : List ContextItem) : List ContextItem :=
  dedupeContextItems env.host (items.map estimateItemTokens)

/-- `by_bucket`, in the order in which the buckets are first met. -/
def byBucket (items : List ContextItem) : List (Bucket × List ContextItem) :=
  (PyDict.groupBy ContextItem.resolveBucket items).entries

/-- `reduce_context_items`, with `fuel` rounds for each bucket's loop. -/
def reduceContextItems (env : Env) (policy : PromptContextPolicy) (budget : ℤ) (fuel : ℕ)
    (items : List ContextItem) : Option Acc :=
  (reduceBuckets env policy fuel (byBucket (dedupedItems env items)) {}).bind
    (fitBudget env policy budget)

end AgentLangraph.Context
