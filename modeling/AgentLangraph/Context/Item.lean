import AgentLangraph.Lib.PyVal
import Mathlib.Algebra.BigOperators.Group.List.Basic
import Mathlib.Algebra.Order.Ring.Rat
import Mathlib.Data.Char
import Mathlib.Data.List.Lex
import Mathlib.Data.List.Sort
import Mathlib.Data.Prod.Lex
import Mathlib.Tactic.Linarith

/-! Context items (`context_items.py`) and their token cost (`context_estimator.py`): the unit the
    prompt budget is spent on. Kinds, buckets, sources and priorities are the closed `Literal` types
    of the source. A host supplies what Python takes from its runtime: the Unicode tables, SHA-256,
    double rounding, fresh uuids and the clock. -/

namespace AgentLangraph.Context
open PyText

/-- What the interpreter and the platform supply. -/
structure Host where
  isAlnum : Char → Bool
  isDecimal : Char → Bool
  lower : Text → Text
  /-- `hashlib.sha256(t.encode("utf-8")).hexdigest()`. -/
  sha256Hex : Text → Text
  /-- The double nearest to a rational. -/
  round : ℚ → ℚ
  /-- `uuid.uuid4().hex[:12]` of the `n`-th draw. -/
  uuidHex : ℕ → Text
  nowIso : Text

/-- A host for ASCII texts, whose digests are looked up in a table. -/
def asciiHost (digests : List (Text × Text)) : Host where
  isAlnum c := c.isAlphanum
  isDecimal c := c.isDigit
  lower t := t.map Char.toLower
  sha256Hex t := ((digests.find? fun d => d.1 = t).map Prod.snd).getD []
  round q := q
  uuidHex n := List.leftpad 12 '0' (Nat.toDigits 16 n)
  nowIso := "2026-01-01T00:00:00+00:00".toList

/-- The settings the context pipeline reads, with the defaults of `settings.py`. -/
structure Settings where
  sessionCompressEnabled : Bool := true
  sessionMaxHistoryTurns : ℕ := 40
  sessionMaxHistoryChars : ℕ := 48000
  contextCompressSemanticEnabled : Bool := false
  contextCompressMinCharsForSemantic : ℕ := 4000
  contextCompressKeepRecentTurns : ℕ := 6
  contextCompressSummaryMaxChars : ℕ := 1200
  contextCompressExtractiveEnabled : Bool := true

inductive Kind
  | system | userTurn | recentHistory | semanticSummary | workingMemory | episodicMemory
  | knowledge | toolOutput | fileSlice | symbolSlice | gitDiff | diagnostic | testFailure
  | terminalOutput | workspaceSummary
  deriving DecidableEq

inductive Source
  | session | memory | retrieval | tool | workspace | policy | state
  deriving DecidableEq

inductive Priority
  | critical | high | medium | low
  deriving DecidableEq

inductive Bucket
  | systemPolicy | currentTurn | recentTranscript | semanticSummary | workingMemory
  | retrievedMemory | retrievedKnowledge | toolObservations | fileContext | diagnostics
  deriving DecidableEq

/-- A value of `meta`. -/
abbrev MetaVal := PyVal

abbrev Meta := PyDict Text MetaVal

/-- `meta.get(key)`. -/
def metaGet (m : Meta) (key : String) : MetaVal := m.getD key.toList .none

def kindToBucket : Kind → Bucket
  | .system => .systemPolicy
  | .userTurn => .currentTurn
  | .recentHistory => .recentTranscript
  | .semanticSummary => .semanticSummary
  | .workingMemory => .workingMemory
  | .episodicMemory => .retrievedMemory
  | .knowledge => .retrievedKnowledge
  | .toolOutput => .toolObservations
  | .fileSlice => .fileContext
  | .symbolSlice => .fileContext
  | .gitDiff => .fileContext
  | .workspaceSummary => .fileContext
  | .diagnostic => .diagnostics
  | .testFailure => .diagnostics
  | .terminalOutput => .diagnostics

/-- Minimal budgetable context unit. -/
structure ContextItem where
  id : Text
  kind : Kind
  source : Source
  content : Text
  role : Text := "user".toList
  priority : Priority := .medium
  freshness : ℚ := 1
  estimatedTokens : ℤ := 0
  compressible : Bool := true
  droppable : Bool := true
  bucket : Option Bucket := none
  data : Meta := PyDict.empty
  deriving DecidableEq

def ContextItem.resolveBucket (i : ContextItem) : Bucket := i.bucket.getD (kindToBucket i.kind)

/-- `f"{prefix}_{uuid}"`. -/
def newContextId (host : Host) (pre : String) (n : ℕ) : Text :=
  pre.toList ++ '_' :: host.uuidHex n

/-- A conversation message. An empty `data` stands for a message without `meta`. -/
structure Message where
  role : Text
  content : Text
  at_ : MetaVal := .none
  data : Meta := PyDict.empty
  deriving DecidableEq

/-- `ContextItem.from_message`; `id` is the freshly drawn one. -/
def fromMessage (id : Text) (msg : Message) (kind : Kind) (source : Source) (priority : Priority)
    (compressible droppable : Bool) : ContextItem where
  id := id
  kind := kind
  source := source
  role := if msg.role = [] then "user".toList else msg.role
  content := msg.content
  priority := priority
  data := ((PyDict.empty : Meta).set "at".toList msg.at_).update msg.data
  compressible := compressible
  droppable := droppable

/-! ### Token estimates -/

/-- `_estimate_tokens`: four characters per token, at least one. -/
def estimateTextTokens (text : Text) : ℕ := max 1 (text.length / 4)

def estimateItemTokens (i : ContextItem) : ContextItem :=
  if i.estimatedTokens ≤ 0 ∧ i.content ≠ [] then
    { i with estimatedTokens := estimateTextTokens i.content }
  else i

def estimateItems (items : List ContextItem) : List ContextItem := items.map estimateItemTokens

/-- The share of one item in a total: a negative estimate counts as nothing. -/
def cost (i : ContextItem) : ℤ := max 0 i.estimatedTokens

def sumItemTokens (items : List ContextItem) : ℤ := (items.map cost).sum

@[simp] theorem sumItemTokens_nil : sumItemTokens [] = 0 := rfl

@[simp] theorem sumItemTokens_cons (i : ContextItem) (l : List ContextItem) :
    sumItemTokens (i :: l) = cost i + sumItemTokens l := by
  simp [sumItemTokens]

@[simp] theorem sumItemTokens_append (l m : List ContextItem) :
    sumItemTokens (l ++ m) = sumItemTokens l + sumItemTokens m := by
  simp [sumItemTokens]

@[simp] theorem estimateItemTokens_id (i : ContextItem) : (estimateItemTokens i).id = i.id := by
  rw [estimateItemTokens]; split <;> rfl

@[simp] theorem estimateItemTokens_kind (i : ContextItem) :
    (estimateItemTokens i).kind = i.kind := by
  rw [estimateItemTokens]; split <;> rfl

@[simp] theorem estimateItemTokens_content (i : ContextItem) :
    (estimateItemTokens i).content = i.content := by
  rw [estimateItemTokens]; split <;> rfl

theorem estimateItemTokens_estimatedTokens (i : ContextItem) :
    (estimateItemTokens i).estimatedTokens =
      if i.estimatedTokens ≤ 0 ∧ i.content ≠ [] then (estimateTextTokens i.content : ℤ)
      else i.estimatedTokens := by
  rw [estimateItemTokens]; split <;> rfl

@[simp] theorem estimateItemTokens_role (i : ContextItem) :
    (estimateItemTokens i).role = i.role := by
  rw [estimateItemTokens]; split <;> rfl

@[simp] theorem estimateItemTokens_droppable (i : ContextItem) :
    (estimateItemTokens i).droppable = i.droppable := by
  rw [estimateItemTokens]; split <;> rfl

@[simp] theorem estimateItemTokens_data (i : ContextItem) :
    (estimateItemTokens i).data = i.data := by
  rw [estimateItemTokens]; split <;> rfl

@[simp] theorem estimateItemTokens_resolveBucket (i : ContextItem) :
    (estimateItemTokens i).resolveBucket = i.resolveBucket := by
  rw [estimateItemTokens]; split <;> rfl

/-! ### The order of items -/

/-- `_PRIORITY_RANK`. -/
def priorityRank : Priority → ℕ
  | .critical => 0
  | .high => 1
  | .medium => 2
  | .low => 3

/-- `(rank, -freshness, id)`. -/
def sortKey (i : ContextItem) : ℕ ×ₗ ℚ ×ₗ Text :=
  toLex (priorityRank i.priority, toLex (-i.freshness, i.id))

/-- `sorted(items, key=…)`. Python's sort is stable, and so is insertion sort. -/
def sortItems (items : List ContextItem) : List ContextItem :=
  items.insertionSort fun a b => sortKey a ≤ sortKey b

/-- `sorted(items, key=rank, reverse=True)`, which is stable too. -/
def sortByRankDesc (items : List ContextItem) : List ContextItem :=
  items.insertionSort fun a b => priorityRank b.priority ≤ priorityRank a.priority

theorem sortItems_perm (items : List ContextItem) : (sortItems items).Perm items :=
  List.perm_insertionSort ..

theorem sortItems_pairwise (items : List ContextItem) :
    (sortItems items).Pairwise fun a b => sortKey a ≤ sortKey b := by
  have : Std.Total fun a b : ContextItem => sortKey a ≤ sortKey b := ⟨fun a b => le_total _ _⟩
  have : IsTrans ContextItem fun a b => sortKey a ≤ sortKey b := ⟨fun a b c => le_trans⟩
  exact List.pairwise_insertionSort _ items

theorem sortByRankDesc_perm (items : List ContextItem) : (sortByRankDesc items).Perm items :=
  List.perm_insertionSort ..

theorem sumItemTokens_perm {l m : List ContextItem} (h : l.Perm m) :
    sumItemTokens l = sumItemTokens m := (h.map cost).sum_eq

end AgentLangraph.Context
