import AgentLangraph.Lib.PyVal
import Mathlib.Data.List.Sort

/-! The read model of a chat message (`message_projection.py`): its stream events replayed, one after
    another, into the blocks that are displayed.

        event ──apply──▶ blocks ──apply──▶ … ──▶ finalized ──▶ sorted for display

    A block that goes on is looked up: the first writing block of a file, the last thinking or answer block. -/

namespace AgentLangraph.Chat
open PyText

/-! ### Blocks and events -/

/-- A block: the entries that are read again, and the others. -/
structure Block where
  type : Text
  blockKey : Option Text := none
  filename : Option Text := none
  text : Option Text := none
  status : Option Text := none
  others : List (Text × Text) := []
  metaFields : Option Fields := none
  deriving DecidableEq

/-- A stream event, with `meta` if it is a dictionary. -/
structure Event where
  eventType : Text
  delta : Text := []
  metaFields : Fields := PyDict.empty

def thinking : Text := "thinking".toList
def writing : Text := "writing".toList
def answer : Text := "answer".toList
def streaming : Text := "streaming".toList
def completed : Text := "completed".toList
def thinkingDelta : Text := "thinking_delta".toList
def thinkingSnapshot : Text := "thinking_snapshot".toList
def writingDelta : Text := "writing_delta".toList
def answerDelta : Text := "answer_delta".toList
def answerPreview : Text := "answer_preview".toList
def trace : Text := "trace".toList
def toolPreview : Text := "tool_preview".toList
def answerRevoked : Text := "answer_revoked".toList

/-- `TELEMETRY_EVENT_TYPES`. -/
def telemetryEventTypes : List Text :=
  ["ui_task_created".toList, "ui_progress".toList, "ui_node".toList, "ui_plan".toList, "ui_ack".toList]

/-- `str(meta.get(key) or default)`. -/
def metaText (event : Event) (key : String) (default : Text) : Text :=
  ((event.metaFields.field key).orElse (.str default)).toText

/-! ### Looking a block up -/

/-- The first element of a kind, changed. -/
def modifyFirst {α : Type*} (p : α → Bool) (f : α → α) : List α → List α
  | [] => []
  | a :: l => if p a then f a :: l else a :: modifyFirst p f l

/-- The last element of a kind, changed. -/
def modifyLast {α : Type*} (p : α → Bool) (f : α → α) (l : List α) : List α :=
  (modifyFirst p f l.reverse).reverse

/-- `_last_block`. -/
def lastBlock (type : Text) (blocks : List Block) : Option Block := blocks.reverse.find? fun b => b.type == type

/-- `str(block.get("text") or "")`. -/
def Block.body (b : Block) : Text := b.text.getD []

/-- The writing blocks of a key. -/
def isWriting (key : Text) (b : Block) : Bool := b.type == writing && b.blockKey.getD [] == key

/-! ### Writing -/

/-- A `writing_delta`. -/
structure Write where
  filename : Text
  reset : Bool
  text : Text
  deriving DecidableEq

def defaultKey : Text := "__default__".toList

/-- `filename or "__default__"`. -/
def blockKey (filename : Text) : Text := if filename = [] then defaultKey else filename

def Event.write (event : Event) : Write where
  filename := strip (metaText event "filename" [])
  reset := (event.metaFields.field "reset").truthy || metaText event "phase" [] == "start".toList
  text := event.delta

/-- The block that a file starts with. -/
def startBlock (w : Write) : Block where
  type := writing
  blockKey := some (blockKey w.filename)
  filename := some w.filename
  text := some []
  status := some streaming

/-- What a delta does to its block. -/
def writeTo (w : Write) (b : Block) : Block :=
  { b with
    text := some (b.body ++ w.text)
    filename := some (if w.filename = [] then b.filename.getD [] else w.filename) }

/-- The branch of `writing_delta`. -/
def applyWrite (w : Write) (out : List Block) : List Block :=
  if out.find? (isWriting (blockKey w.filename)) = none ∨ w.reset then
    let block := startBlock w
    if w.reset ∧ block ∈ out then modifyFirst (· == block) (writeTo w) out
    else out ++ [writeTo w block]
  else modifyFirst (isWriting (blockKey w.filename)) (writeTo w) out

/-! ### Events -/

/-- The branch of `thinking_delta`. -/
def applyThinking (delta : Text) (out : List Block) : List Block :=
  if (lastBlock thinking out).all fun b => b.status == some completed then
    out ++ [{ type := thinking, text := some delta, status := some streaming }]
  else modifyLast (fun b => b.type == thinking) (fun b => { b with text := some (b.body ++ delta) }) out

/-- The branch of `thinking_snapshot`. -/
def applySnapshot (delta : Text) (out : List Block) : List Block :=
  if strip delta = [] then out
  else if lastBlock thinking out = none then
    { type := thinking, text := some delta, status := some completed } :: out
  else
    modifyLast (fun b => b.type == thinking)
      (fun b => { b with
        text := if b.body.length ≤ delta.length then some delta else b.text
        status := some completed }) out

/-- The branch of `answer_delta` and `answer_preview`. -/
def applyAnswer (delta : Text) (out : List Block) : List Block :=
  if delta = [] then out
  else if lastBlock answer out = none then
    out ++ [{ type := answer, text := some delta, status := some streaming }]
  else modifyLast (fun b => b.type == answer) (fun b => { b with text := some (b.body ++ delta) }) out

/-- The block of an event of one of the other kinds. -/
def blockOf (event : Event) : Option Block :=
  if event.eventType = trace then
    some { type := trace
           text := some (if event.delta = [] then metaText event "text" [] else event.delta)
           others := [("node".toList, metaText event "node" []), ("phase".toList, metaText event "phase" []),
             ("level".toList, metaText event "level" "delta".toList)] }
  else if event.eventType = toolPreview then
    some { type := toolPreview
           status := some (metaText event "status" [])
           others := [("tool".toList, metaText event "tool" []),
             ("snippet".toList, metaText event "snippet" event.delta)] }
  else if event.eventType = answerRevoked then
    some { type := answerRevoked
           others := [("reason".toList, metaText event "reason" event.delta)] }
  else if event.delta ≠ [] ∨ event.metaFields.entries ≠ [] then
    some { type := if event.eventType = [] then "event".toList else event.eventType
           text := some event.delta
           metaFields := some event.metaFields }
  else none

/-- `apply_event_to_blocks`. -/
def applyEventToBlocks (blocks : List Block) (event : Event) : List Block :=
  if event.eventType ∈ telemetryEventTypes then blocks
  else if event.eventType = thinkingDelta then applyThinking event.delta blocks
  else if event.eventType = thinkingSnapshot then applySnapshot event.delta blocks
  else if event.eventType = writingDelta then applyWrite event.write blocks
  else if event.eventType = answerDelta ∨ event.eventType = answerPreview then
    applyAnswer event.delta blocks
  else blocks ++ (blockOf event).toList

/-! ### Display -/

/-- `BLOCK_DISPLAY_ORDER`. -/
def blockDisplayOrder (type : Text) : ℕ :=
  if type = thinking then 0
  else if type = trace then 1
  else if type = writing then 2
  else if type = toolPreview then 3
  else if type = answer then 4
  else if type = answerRevoked then 5
  else 99

/-- `sort_blocks_for_display`, which keeps the order of blocks of one kind. -/
def sortBlocksForDisplay (blocks : List Block) : List Block :=
  blocks.insertionSort fun a b => blockDisplayOrder a.type ≤ blockDisplayOrder b.type

/-- A streaming block is completed. -/
def Block.finalize (b : Block) : Block := if b.status = some streaming then { b with status := some completed } else b

/-- `finalize_blocks`. -/
def finalizeBlocks (blocks : List Block) : List Block := blocks.map Block.finalize

/-- `project_events_to_blocks`. -/
def projectEventsToBlocks (events : List Event) : List Block :=
  sortBlocksForDisplay (finalizeBlocks (events.foldl applyEventToBlocks []))

/-- The text of the last answer block, if there is one. -/
def answerOf (blocks : List Block) : Text := (lastBlock answer blocks).elim [] Block.body

def newAnswer (text : Text) : Block := { type := answer, text := some text, status := some completed }

/-- The new answer in an answer block. -/
def setAnswer (text : Text) (b : Block) : Block :=
  { b with
    text := some text
    status := if b.status = some streaming then some completed else b.status }

/-- `ensure_answer_in_blocks`. -/
def ensureAnswerInBlocks (blocks : List Block) (answerText : Text) : List Block :=
  if strip answerText = [] then blocks
  else if (strip answerText).length ≤ (strip (answerOf blocks)).length then blocks
  else if lastBlock answer blocks = none then blocks ++ [newAnswer (strip answerText)]
  else modifyLast (fun b => b.type == answer) (setAnswer (strip answerText)) blocks

/-! ### Blocks changed in place -/

section Modify

variable {α : Type*} {p q : α → Bool} {f : α → α}

/-- Elements of another kind do not notice. -/
theorem filter_modifyFirst_of_not (h : ∀ a, p a → q a = false ∧ q (f a) = false) : ∀ l : List α,
    (modifyFirst p f l).filter q = l.filter q
  | [] => rfl
  | a :: l => by
    rw [modifyFirst]
    split_ifs with hp
    · obtain ⟨ha, hfa⟩ := h a hp
      rw [List.filter_cons_of_neg (by simp [hfa]), List.filter_cons_of_neg (by simp [ha])]
    · rw [List.filter_cons, List.filter_cons, filter_modifyFirst_of_not h l]

/-- Within its own kind an element is changed all the same. -/
theorem filter_modifyFirst_of_mem (h : ∀ a, p a → q a ∧ q (f a)) : ∀ l : List α,
    (modifyFirst p f l).filter q = modifyFirst p f (l.filter q)
  | [] => rfl
  | a :: l => by
    rw [modifyFirst]
    split_ifs with hp
    · obtain ⟨ha, hfa⟩ := h a hp
      rw [List.filter_cons_of_pos hfa, List.filter_cons_of_pos ha, modifyFirst, if_pos hp]
    · by_cases hq : q a
      · rw [List.filter_cons_of_pos hq, List.filter_cons_of_pos hq, modifyFirst, if_neg hp,
          filter_modifyFirst_of_mem h l]
      · rw [List.filter_cons_of_neg hq, List.filter_cons_of_neg hq, filter_modifyFirst_of_mem h l]

theorem find?_modifyFirst (h : ∀ a, p a → p (f a)) : ∀ l : List α,
    (modifyFirst p f l).find? p = (l.find? p).map f
  | [] => rfl
  | a :: l => by
    rw [modifyFirst]
    split_ifs with hp
    · rw [List.find?_cons_of_pos (h a hp), List.find?_cons_of_pos hp, Option.map_some]
    · rw [List.find?_cons_of_neg hp, List.find?_cons_of_neg hp, find?_modifyFirst h l]

@[simp] theorem length_modifyFirst : ∀ l : List α, (modifyFirst p f l).length = l.length
  | [] => rfl
  | a :: l => by
    rw [modifyFirst]
    split_ifs
    · rfl
    · rw [List.length_cons, List.length_cons, length_modifyFirst l]

theorem filter_modifyLast_of_not (h : ∀ a, p a → q a = false ∧ q (f a) = false) (l : List α) :
    (modifyLast p f l).filter q = l.filter q := by
  rw [modifyLast, List.filter_reverse, filter_modifyFirst_of_not h, ← List.filter_reverse, List.reverse_reverse]

end Modify

end AgentLangraph.Chat
