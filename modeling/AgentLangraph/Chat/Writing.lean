import AgentLangraph.Chat.Projection

/-! The writing blocks of a file. A delta looks for the first block of its file; a reset makes a new block and
    puts it in the place of the first block that equals it, which none does once something is written:

        start "" ── "abc" ── reset ──▶ [abc] [ ]
                                        │
        "de" goes to the first block ──▶ [abcde] [ ] -/

namespace AgentLangraph.Chat
open PyText

/-- A delta of a file. -/
def Event.writesTo (name : Text) (event : Event) : Bool :=
  event.eventType == writingDelta && blockKey event.write.filename == blockKey name

/-- The deltas of a file. -/
def writes (name : Text) (events : List Event) : List Write := (events.filter (Event.writesTo name)).map Event.write

/-- The writing blocks of a file. -/
def blocksOf (name : Text) (blocks : List Block) : List Block := blocks.filter (isWriting (blockKey name))

/-- The deltas from the last reset on. -/
def sinceReset : List Write → List Write
  | [] => []
  | w :: ws => if ws.any Write.reset then sinceReset ws else w :: ws

/-- What they write. -/
def content (ws : List Write) : Text := (sinceReset ws).flatMap Write.text

/-- A file has at most one block, with what was written to it since the last reset. -/
structure OneBlock (name : Text) (events : List Event) (blocks : List Block) : Prop where
  single : (blocksOf name blocks).length ≤ 1
  text_eq : ∀ b ∈ blocksOf name blocks, b.body = content (writes name events)

/-- Nothing has been written before a delta, and it has the name that the file has so far. -/
def Untouched (before : List Write) (w : Write) : Prop :=
  (∀ v ∈ before, v.text = []) ∧ (w.filename = [] ↔ ∀ v ∈ before, v.filename = [])

/-- A file is reset only before anything is written to it. -/
def ResetFirst (ws : List Write) : Prop :=
  ∀ before w after, ws = before ++ w :: after → w.reset → before ≠ [] → Untouched before w

/-! ### The blocks of one file -/

section Filter

variable {key : Text} {w : Write} {out : List Block}

theorem blockKey_ne_nil (name : Text) : blockKey name ≠ [] := by
  rw [blockKey]
  split_ifs with h
  · decide
  · exact h

theorem isWriting_startBlock (w : Write) : isWriting (blockKey w.filename) (startBlock w) := by
  rw [isWriting, startBlock, Option.getD_some, beq_self_eq_true, beq_self_eq_true]
  rfl

@[simp] theorem isWriting_writeTo (key : Text) (w : Write) (b : Block) :
    isWriting key (writeTo w b) = isWriting key b := rfl

theorem key_eq_of_isWriting {key' : Text} {b : Block} (h : isWriting key b) (h' : isWriting key' b) : key = key' := by
  rw [isWriting, Bool.and_eq_true, beq_iff_eq, beq_iff_eq] at h h'
  exact h.2.symm.trans h'.2

/-- A delta goes to the blocks of its own file. -/
theorem filter_applyWrite_self :
    (applyWrite w out).filter (isWriting (blockKey w.filename)) =
      applyWrite w (out.filter (isWriting (blockKey w.filename))) := by
  have hnone : out.find? (isWriting (blockKey w.filename)) = none ↔
      (out.filter (isWriting (blockKey w.filename))).find? (isWriting (blockKey w.filename)) = none := by
    simp [List.find?_eq_none]
  have hstart := isWriting_startBlock w
  have hmem : startBlock w ∈ out ↔ startBlock w ∈ out.filter (isWriting (blockKey w.filename)) := by
    rw [List.mem_filter, and_iff_left hstart]
  simp only [applyWrite, ← hnone, ← hmem]
  split_ifs
  · refine filter_modifyFirst_of_mem (fun b hb => ?_) out
    rw [beq_iff_eq.1 hb, isWriting_writeTo]
    exact ⟨hstart, hstart⟩
  · rw [List.filter_append, List.filter_cons_of_pos (by rwa [isWriting_writeTo]), List.filter_nil]
  · refine filter_modifyFirst_of_mem (fun b hb => ?_) out
    rw [isWriting_writeTo]
    exact ⟨hb, hb⟩

theorem filter_applyWrite_ne (h : blockKey w.filename ≠ key) :
    (applyWrite w out).filter (isWriting key) = out.filter (isWriting key) := by
  have hnot : ∀ b, isWriting (blockKey w.filename) b → isWriting key b = false := by
    intro b hb
    by_contra hkey
    exact h (key_eq_of_isWriting hb (by simpa using hkey))
  have hstart := isWriting_startBlock w
  rw [applyWrite]
  dsimp only
  split_ifs
  · refine filter_modifyFirst_of_not (fun b hb => ?_) out
    rw [beq_iff_eq.1 hb, isWriting_writeTo]
    exact ⟨hnot _ hstart, hnot _ hstart⟩
  · rw [List.filter_append, List.filter_cons_of_neg (by simp [hnot _ hstart]), List.filter_nil, List.append_nil]
  · refine filter_modifyFirst_of_not (fun b hb => ?_) out
    rw [isWriting_writeTo]
    exact ⟨hnot b hb, hnot b hb⟩

/-- A block of another type is no writing block of a file. -/
theorem not_isWriting {b : Block} (hkey : key ≠ []) (h : b.type ≠ writing ∨ b.blockKey = none) :
    isWriting key b = false := by
  rw [isWriting, Bool.and_eq_false_iff, beq_eq_false_iff_ne, beq_eq_false_iff_ne]
  refine h.imp_right fun hnone => ?_
  rw [hnone]
  exact hkey.symm

theorem blockKey_blockOf {event : Event} {b : Block} (h : blockOf event = some b) : b.blockKey = none := by
  rw [blockOf] at h
  split_ifs at h <;> cases h <;> rfl

variable {name : Text}

theorem blocksOf_append {b : Block} (h : b.type ≠ writing ∨ b.blockKey = none) :
    blocksOf name (out ++ [b]) = blocksOf name out := by
  have hnot := not_isWriting (blockKey_ne_nil name) h
  rw [blocksOf, List.filter_append, List.filter_cons_of_neg (by rw [hnot]; exact Bool.false_ne_true),
    List.filter_nil, List.append_nil, blocksOf]

theorem blocksOf_modifyLast {type : Text} (htype : type ≠ writing) {f : Block → Block}
    (hf : ∀ b, (f b).type = b.type) :
    blocksOf name (modifyLast (fun b => b.type == type) f out) = blocksOf name out := by
  refine filter_modifyLast_of_not (fun b hb => ?_) out
  have hb : b.type ≠ writing := by rwa [beq_iff_eq.1 hb]
  exact ⟨not_isWriting (blockKey_ne_nil name) (.inl hb),
    not_isWriting (blockKey_ne_nil name) (.inl (by rwa [hf]))⟩

theorem blocksOf_applyThinking (delta : Text) : blocksOf name (applyThinking delta out) = blocksOf name out := by
  rw [applyThinking]
  split_ifs
  · exact blocksOf_append (.inr rfl)
  · exact blocksOf_modifyLast (by decide) fun _ => rfl

theorem blocksOf_applySnapshot (delta : Text) : blocksOf name (applySnapshot delta out) = blocksOf name out := by
  rw [applySnapshot]
  split_ifs
  · rfl
  · have hnot : isWriting (blockKey name) { type := thinking, text := some delta, status := some completed } = false :=
      not_isWriting (blockKey_ne_nil name) (.inr rfl)
    exact List.filter_cons_of_neg (by rw [hnot]; exact Bool.false_ne_true)
  · exact blocksOf_modifyLast (by decide) fun _ => rfl

theorem blocksOf_applyAnswer (delta : Text) : blocksOf name (applyAnswer delta out) = blocksOf name out := by
  rw [applyAnswer]
  split_ifs
  · rfl
  · exact blocksOf_append (.inr rfl)
  · exact blocksOf_modifyLast (by decide) fun _ => rfl

theorem blocksOf_blockOf (event : Event) : blocksOf name (out ++ (blockOf event).toList) = blocksOf name out := by
  cases hblock : blockOf event with
  | none => rw [Option.toList_none, List.append_nil]
  | some b => exact blocksOf_append (.inr (blockKey_blockOf hblock))

/-- Only the deltas of a file change its blocks. -/
theorem blocksOf_apply (name : Text) (blocks : List Block) (event : Event) :
    blocksOf name (applyEventToBlocks blocks event) =
      if event.writesTo name then applyWrite event.write (blocksOf name blocks) else blocksOf name blocks := by
  by_cases hwrite : event.eventType = writingDelta
  · have happly : applyEventToBlocks blocks event = applyWrite event.write blocks := by
      rw [applyEventToBlocks, hwrite, if_neg (by decide), if_neg (by decide), if_neg (by decide), if_pos rfl]
    rw [happly, Event.writesTo, hwrite, beq_self_eq_true, Bool.true_and]
    by_cases hname : blockKey event.write.filename = blockKey name
    · rw [if_pos (beq_iff_eq.2 hname), blocksOf, ← hname, filter_applyWrite_self, blocksOf, ← hname]
    · rw [if_neg (by simpa using hname), blocksOf, filter_applyWrite_ne hname, blocksOf]
  · rw [Event.writesTo, beq_eq_false_iff_ne.2 hwrite, Bool.false_and, if_neg Bool.false_ne_true, applyEventToBlocks,
      if_neg hwrite]
    split_ifs
    · rfl
    · exact blocksOf_applyThinking event.delta
    · exact blocksOf_applySnapshot event.delta
    · exact blocksOf_applyAnswer event.delta
    · exact blocksOf_blockOf event

/-- The blocks of a file are what its deltas make of them. -/
theorem blocksOf_foldl (name : Text) (events : List Event) : ∀ blocks : List Block,
    blocksOf name (events.foldl applyEventToBlocks blocks) =
      (writes name events).foldl (fun out w => applyWrite w out) (blocksOf name blocks) := by
  induction events with
  | nil => exact fun _ => rfl
  | cons event events ih =>
    intro blocks
    rw [List.foldl_cons, ih, blocksOf_apply, writes, writes, List.filter_cons]
    split_ifs <;> rfl

/-- Neither the display order nor the end of the stream changes what a file has. -/
theorem blocksOf_project (name : Text) (events : List Event) :
    ((blocksOf name (projectEventsToBlocks events)).map Block.body).Perm
      (((writes name events).foldl (fun out w => applyWrite w out) []).map Block.body) := by
  have hfinal : ∀ b : Block, isWriting (blockKey name) b.finalize = isWriting (blockKey name) b ∧
      b.finalize.body = b.body := by
    intro b
    rw [Block.finalize]
    split_ifs <;> exact ⟨rfl, rfl⟩
  have hmap : (blocksOf name (finalizeBlocks (events.foldl applyEventToBlocks []))).map Block.body =
      (blocksOf name (events.foldl applyEventToBlocks [])).map Block.body := by
    rw [blocksOf, finalizeBlocks, List.filter_map, List.map_map, blocksOf]
    simp only [Function.comp_def, (hfinal _).1, (hfinal _).2]
  have hperm : (blocksOf name (projectEventsToBlocks events)).Perm
      (blocksOf name (finalizeBlocks (events.foldl applyEventToBlocks []))) :=
    (List.perm_insertionSort _ _).filter _
  have hfold := blocksOf_foldl name events []
  rw [show blocksOf name [] = [] from rfl] at hfold
  rw [← hfold, ← hmap]
  exact hperm.map _

end Filter

/-! ### The deltas of one file -/

theorem sinceReset_append (ws : List Write) (w : Write) :
    sinceReset (ws ++ [w]) = if w.reset then [w] else sinceReset ws ++ [w] := by
  induction ws with
  | nil => simp [sinceReset]
  | cons v ws ih =>
    rw [List.cons_append, sinceReset, ih, sinceReset, List.any_append]
    by_cases hw : w.reset
    · simp [hw]
    · by_cases hany : ws.any Write.reset
      · simp [hw, hany]
      · simp [hw, hany]

theorem content_append (ws : List Write) (w : Write) :
    content (ws ++ [w]) = (if w.reset then [] else content ws) ++ w.text := by
  rw [content, sinceReset_append]
  split_ifs <;> simp [content]

theorem resetFirst_append {ws : List Write} {w : Write} :
    ResetFirst (ws ++ [w]) ↔ ResetFirst ws ∧ (w.reset → ws ≠ [] → Untouched ws w) := by
  constructor
  · intro h
    refine ⟨fun before v after heq => h before v (after ++ [w]) ?_, h ws w [] rfl⟩
    rw [heq, List.append_assoc, List.cons_append]
  · rintro ⟨hws, hw⟩ before v after heq
    rcases List.eq_nil_or_concat after with rfl | ⟨after, x, rfl⟩
    · obtain ⟨rfl, hx⟩ := List.append_inj' heq rfl
      obtain rfl := (List.cons.inj hx).1
      exact hw
    · have hsplit : ws ++ [w] = (before ++ v :: after) ++ [x] := by
        rw [heq, List.concat_eq_append, List.append_assoc, List.cons_append]
      exact hws before v after (List.append_inj' hsplit rfl).1

/-- Where resets come first, a file without text has had no text. -/
theorem ResetFirst.content_eq_nil_iff {ws : List Write} (h : ResetFirst ws) :
    content ws = [] ↔ ∀ v ∈ ws, v.text = [] := by
  induction ws using List.reverseRecOn with
  | nil => simp [content, sinceReset]
  | append_singleton ws w ih =>
    obtain ⟨hws, hw⟩ := resetFirst_append.1 h
    rw [content_append, List.append_eq_nil_iff, List.forall_mem_append, List.forall_mem_singleton]
    refine and_congr_left fun _ => ?_
    split_ifs with hreset
    · by_cases hnil : ws = []
      · simp [hnil]
      · exact iff_of_true rfl (hw hreset hnil).1
    · exact ih hws

/-- The name of a file with some deltas, which all have its key. -/
def fileName (key : Text) (ws : List Write) : Text := if ∀ v ∈ ws, v.filename = [] then [] else key

theorem filename_eq {key : Text} {w : Write} (h : blockKey w.filename = key) (hne : w.filename ≠ []) :
    w.filename = key := by
  rwa [blockKey, if_neg hne] at h

theorem fileName_append {key : Text} (ws : List Write) {w : Write} (h : blockKey w.filename = key) :
    fileName key (ws ++ [w]) = if w.filename = [] then fileName key ws else w.filename := by
  rw [fileName, fileName]
  simp only [List.forall_mem_append, List.forall_mem_singleton]
  by_cases hne : w.filename = []
  · simp [hne]
  · rw [if_neg fun hall => hne hall.2, if_neg hne, filename_eq h hne]

theorem filename_eq_fileName_iff {key : Text} (hkey : key ≠ []) {ws : List Write} {w : Write}
    (h : blockKey w.filename = key) :
    w.filename = fileName key ws ↔ (w.filename = [] ↔ ∀ v ∈ ws, v.filename = []) := by
  rw [fileName]
  by_cases hall : ∀ v ∈ ws, v.filename = []
  · rw [if_pos hall, iff_true_right hall]
  · rw [if_neg hall, iff_false_right hall]
    constructor
    · exact fun heq hnil => hkey (heq.symm.trans hnil)
    · exact fun hne => filename_eq h hne

/-- The one block of a file. -/
def oneBlock (key : Text) (ws : List Write) : Block where
  type := writing
  blockKey := some key
  filename := some (fileName key ws)
  text := some (content ws)
  status := some streaming

variable {key : Text} {ws : List Write} {w : Write}

theorem startBlock_eq_iff (h : blockKey w.filename = key) :
    startBlock w = oneBlock key ws ↔ content ws = [] ∧ w.filename = fileName key ws := by
  rw [startBlock, oneBlock, Block.mk.injEq, h]
  simp only [Option.some.injEq, true_and, and_true]
  rw [and_comm, eq_comm]

theorem writeTo_oneBlock (h : blockKey w.filename = key) (hreset : ¬ w.reset) :
    writeTo w (oneBlock key ws) = oneBlock key (ws ++ [w]) := by
  rw [oneBlock, oneBlock, fileName_append ws h, content_append, if_neg hreset]
  rfl

/-- A block that a delta starts is the one block, where the file has no block or the name of the delta. -/
theorem writeTo_startBlock (h : blockKey w.filename = key)
    (hfirst : ws = [] ∨ w.reset ∧ w.filename = fileName key ws) :
    writeTo w (startBlock w) = oneBlock key (ws ++ [w]) := by
  have hcontent : content (ws ++ [w]) = w.text := by
    rw [content_append]
    rcases hfirst with rfl | ⟨hreset, -⟩
    · simp [content, sinceReset]
    · rw [if_pos hreset, List.nil_append]
  have hfile : fileName key (ws ++ [w]) = w.filename := by
    rw [fileName_append ws h]
    split_ifs with hnil
    · rcases hfirst with rfl | ⟨-, hname⟩
      · simp [fileName, hnil]
      · exact hname.symm
    · rfl
  rw [oneBlock, hcontent, hfile, ← h, writeTo, startBlock]
  split_ifs <;> rfl

theorem length_le_applyWrite (w : Write) (out : List Block) : out.length ≤ (applyWrite w out).length := by
  rw [applyWrite]
  dsimp only
  split_ifs <;> simp

/-- The blocks that the deltas of a file leave. -/
def writtenBlocks (ws : List Write) : List Block := ws.foldl (fun out w => applyWrite w out) []

theorem writtenBlocks_append (ws : List Write) (w : Write) :
    writtenBlocks (ws ++ [w]) = applyWrite w (writtenBlocks ws) := by
  rw [writtenBlocks, List.foldl_append, List.foldl_cons, List.foldl_nil, writtenBlocks]

/-- A delta of a file that has its one block. -/
theorem applyWrite_oneBlock (h : blockKey w.filename = key) :
    applyWrite w [oneBlock key ws] =
      if w.reset then
        if startBlock w = oneBlock key ws then [writeTo w (oneBlock key ws)]
        else [oneBlock key ws, writeTo w (startBlock w)]
      else [writeTo w (oneBlock key ws)] := by
  have hone : isWriting key (oneBlock key ws) := by
    rw [isWriting, oneBlock, Option.getD_some, beq_self_eq_true, beq_self_eq_true]
    rfl
  rw [applyWrite, h]
  by_cases hreset : w.reset
  · by_cases hstart : startBlock w = oneBlock key ws
    · simp [hreset, hstart, modifyFirst]
    · simp [hreset, hstart]
  · simp [hreset, modifyFirst, hone]

/-- A file has its one block as long as its resets come first, and two or more from then on. -/
theorem writtenBlocks_spec (hkey : key ≠ []) (hall : ∀ w ∈ ws, blockKey w.filename = key) :
    (ResetFirst ws → ws ≠ [] → writtenBlocks ws = [oneBlock key ws]) ∧
      (¬ ResetFirst ws → 2 ≤ (writtenBlocks ws).length) := by
  induction ws using List.reverseRecOn with
  | nil => exact ⟨fun _ hne => absurd rfl hne, fun h => absurd (by simp [ResetFirst]) h⟩
  | append_singleton ws w ih =>
    rw [List.forall_mem_append, List.forall_mem_singleton] at hall
    obtain ⟨hone, htwo⟩ := ih hall.1
    have hw := hall.2
    rw [writtenBlocks_append, resetFirst_append]
    by_cases hnil : ws = []
    · subst hnil
      have hstart : applyWrite w (writtenBlocks []) = [writeTo w (startBlock w)] := by
        rw [applyWrite, if_pos (.inl rfl), if_neg fun h => List.not_mem_nil h.2]
        rfl
      rw [hstart, writeTo_startBlock hw (.inl rfl)]
      exact ⟨fun _ _ => rfl, fun h => absurd ⟨by simp [ResetFirst], fun _ hne => absurd rfl hne⟩ h⟩
    · by_cases hfirst : ResetFirst ws
      · rw [hone hfirst hnil, applyWrite_oneBlock hw]
        have huntouched : startBlock w = oneBlock key ws ↔ Untouched ws w := by
          rw [startBlock_eq_iff hw, hfirst.content_eq_nil_iff, filename_eq_fileName_iff hkey hw, Untouched]
        by_cases hreset : w.reset
        · by_cases hstart : startBlock w = oneBlock key ws
          · rw [if_pos hreset, if_pos hstart, ← hstart,
              writeTo_startBlock hw (.inr ⟨hreset, ((startBlock_eq_iff hw).1 hstart).2⟩)]
            exact ⟨fun _ _ => rfl, fun h => absurd ⟨hfirst, fun _ _ => huntouched.1 hstart⟩ h⟩
          · rw [if_pos hreset, if_neg hstart]
            exact ⟨fun h => absurd (huntouched.2 (h.2 hreset hnil)) hstart, fun _ => le_rfl⟩
        · rw [if_neg hreset, writeTo_oneBlock hw hreset]
          exact ⟨fun _ _ => rfl, fun h => absurd ⟨hfirst, fun hr => absurd hr hreset⟩ h⟩
      · have hlong := (htwo hfirst).trans (length_le_applyWrite w (writtenBlocks ws))
        exact ⟨fun h => absurd h.1 hfirst, fun _ => hlong⟩

/-! ### One block for a file -/

theorem blockKey_of_mem {name : Text} {events : List Event} {w : Write} (h : w ∈ writes name events) :
    blockKey w.filename = blockKey name := by
  obtain ⟨event, hevent, rfl⟩ := List.mem_map.1 h
  have hwrites := (List.mem_filter.1 hevent).2
  rw [Event.writesTo, Bool.and_eq_true, beq_iff_eq, beq_iff_eq] at hwrites
  exact hwrites.2

/-- A file has at most one block, with its text since the last reset, just where it is reset only before
    anything is written to it. -/
theorem one_block_iff (events : List Event) (name : Text) :
    OneBlock name events (projectEventsToBlocks events) ↔ ResetFirst (writes name events) := by
  have hperm := blocksOf_project name events
  obtain ⟨hone, htwo⟩ := writtenBlocks_spec (blockKey_ne_nil name) fun w hw => @blockKey_of_mem name events w hw
  constructor
  · intro h
    by_contra hnot
    have hlength := hperm.length_eq
    have hlong : 2 ≤ (writtenBlocks (writes name events)).length := htwo hnot
    have hshort := h.single
    rw [List.length_map, List.length_map] at hlength
    rw [writtenBlocks] at hlong
    omega
  · intro hfirst
    by_cases hnil : writes name events = []
    · rw [hnil] at hperm
      have hempty : blocksOf name (projectEventsToBlocks events) = [] := List.map_eq_nil_iff.1 hperm.eq_nil
      exact ⟨by simp [hempty], by simp [hempty]⟩
    · have hblock : (writes name events).foldl (fun out w => applyWrite w out) [] =
          [oneBlock (blockKey name) (writes name events)] := hone hfirst hnil
      rw [hblock, List.map_singleton, List.perm_singleton] at hperm
      have hlength := congrArg List.length hperm
      refine ⟨by simp only [List.length_map, List.length_singleton] at hlength; omega, fun b hb => ?_⟩
      have hbody : b.body ∈ (blocksOf name (projectEventsToBlocks events)).map Block.body := List.mem_map_of_mem hb
      rw [hperm, List.mem_singleton] at hbody
      exact hbody

def writeEvent (filename text : String) (reset : Bool) : Event where
  eventType := writingDelta
  delta := text.toList
  metaFields := PyDict.ofList [("filename".toList, .str filename.toList), ("reset".toList, .bool reset)]

example : (blocksOf "a.md".toList (projectEventsToBlocks
    [writeEvent "a.md" "abc" false, writeEvent "b.md" "x" false, writeEvent "a.md" "de" false])).map Block.body =
    ["abcde".toList] := by
  decide +kernel

/-- A reset after content leaves two blocks, and what follows it goes to the old one. -/
theorem reset_leaves_two_blocks : ¬ ∀ (events : List Event) (name : Text),
    OneBlock name events (projectEventsToBlocks events) := by
  intro h
  have hsingle := (h [writeEvent "a.md" "abc" false, writeEvent "a.md" "" true, writeEvent "a.md" "de" false]
    "a.md".toList).single
  revert hsingle
  decide +kernel

end AgentLangraph.Chat
