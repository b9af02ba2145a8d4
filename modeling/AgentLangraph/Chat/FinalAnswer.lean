import AgentLangraph.Chat.Projection

/-! The final answer in the blocks of a message. What was streamed and what is final can differ, by a guard or
    a correction; `ensure_answer_in_blocks` puts the final answer in the last answer block if it is longer:

        streamed   "The answer is 41."     final "It is 42."      the streamed answer stays -/

namespace AgentLangraph.Chat
open PyText

/-- The blocks that are no answers. -/
def otherBlocks (blocks : List Block) : List Block := blocks.filter fun b => b.type != answer

/-- The blocks with the final answer: it is their answer, the other blocks are as before, and the same answer
    once more changes nothing. -/
structure FinalAnswer (answerText : Text) (blocks after : List Block) : Prop where
  answer_eq : answerOf after = answerText
  others : otherBlocks after = otherBlocks blocks
  twice : ensureAnswerInBlocks after answerText = after

variable {blocks : List Block} {answerText : Text}

/-! ### The last answer block -/

theorem lastBlock_append {b : Block} (h : b.type = answer) : lastBlock answer (blocks ++ [b]) = some b := by
  rw [lastBlock, List.reverse_append, List.reverse_singleton, List.singleton_append]
  exact List.find?_cons_of_pos (beq_iff_eq.2 h)

theorem lastBlock_setAnswer (text : Text) :
    lastBlock answer (modifyLast (fun b => b.type == answer) (setAnswer text) blocks) =
      (lastBlock answer blocks).map (setAnswer text) := by
  rw [lastBlock, modifyLast, List.reverse_reverse]
  exact @find?_modifyFirst _ (fun b => b.type == answer) (setAnswer text) (fun _ h => h) blocks.reverse

theorem otherBlocks_setAnswer (text : Text) :
    otherBlocks (modifyLast (fun b => b.type == answer) (setAnswer text) blocks) = otherBlocks blocks := by
  refine filter_modifyLast_of_not (fun b hb => ?_) blocks
  have htype : b.type = answer := beq_iff_eq.1 hb
  constructor
  · rw [htype, bne_self_eq_false]
  · rw [setAnswer, htype, bne_self_eq_false]

/-! ### `ensure_answer_in_blocks` -/

/-- An answer that is not longer than the one that is there changes nothing. -/
theorem ensure_of_le (h : (strip answerText).length ≤ (strip (answerOf blocks)).length) :
    ensureAnswerInBlocks blocks answerText = blocks := by
  rw [ensureAnswerInBlocks]
  split_ifs
  · rfl
  · rfl

/-- A longer one is the answer afterwards, without the whitespace around it. -/
theorem answerOf_ensure_of_lt (h : (strip (answerOf blocks)).length < (strip answerText).length) :
    answerOf (ensureAnswerInBlocks blocks answerText) = strip answerText := by
  have hnil : strip answerText ≠ [] := fun hnil => by simp [hnil] at h
  rw [ensureAnswerInBlocks]
  rw [if_neg hnil, if_neg (Nat.not_le.2 h)]
  split_ifs with hnone
  · rw [answerOf, lastBlock_append rfl]
    rfl
  · obtain ⟨b, hb⟩ := Option.ne_none_iff_exists'.1 hnone
    rw [answerOf, lastBlock_setAnswer, hb]
    rfl

theorem otherBlocks_ensure (blocks : List Block) (answerText : Text) :
    otherBlocks (ensureAnswerInBlocks blocks answerText) = otherBlocks blocks := by
  rw [ensureAnswerInBlocks]
  split_ifs
  · rfl
  · rfl
  · have hnew : [newAnswer (strip answerText)].filter (fun b => b.type != answer) = [] :=
      List.filter_cons_of_neg (by simp [newAnswer])
    rw [otherBlocks, List.filter_append, hnew, List.append_nil, otherBlocks]
  · exact otherBlocks_setAnswer (strip answerText)

/-- The same answer once more changes nothing. -/
theorem ensure_twice (blocks : List Block) (answerText : Text) :
    ensureAnswerInBlocks (ensureAnswerInBlocks blocks answerText) answerText =
      ensureAnswerInBlocks blocks answerText := by
  rcases Nat.lt_or_ge (strip (answerOf blocks)).length (strip answerText).length with hlt | hle
  · refine ensure_of_le ?_
    rw [answerOf_ensure_of_lt hlt, strip_strip]
  · rw [ensure_of_le hle, ensure_of_le hle]

/-- The final answer is there just where it was streamed, or is longer than what was streamed and has no
    whitespace around it; the other blocks, and the same answer once more, never matter. -/
theorem final_answer_iff (blocks : List Block) (answerText : Text) :
    FinalAnswer answerText blocks (ensureAnswerInBlocks blocks answerText) ↔
      answerOf blocks = answerText ∨
        strip answerText = answerText ∧ (strip (answerOf blocks)).length < answerText.length := by
  have hanswer : FinalAnswer answerText blocks (ensureAnswerInBlocks blocks answerText) ↔
      answerOf (ensureAnswerInBlocks blocks answerText) = answerText :=
    ⟨FinalAnswer.answer_eq, fun h => ⟨h, otherBlocks_ensure blocks answerText, ensure_twice blocks answerText⟩⟩
  rw [hanswer]
  rcases Nat.lt_or_ge (strip (answerOf blocks)).length (strip answerText).length with hlt | hle
  · rw [answerOf_ensure_of_lt hlt]
    constructor
    · intro h
      exact .inr ⟨h, by rwa [h] at hlt⟩
    · rintro (h | ⟨h, -⟩)
      · rw [h] at hlt
        exact absurd hlt (lt_irrefl _)
      · exact h
  · rw [ensure_of_le hle]
    constructor
    · exact .inl
    · rintro (h | ⟨h, hlt⟩)
      · exact h
      · rw [h] at hle
        exact absurd hlt (Nat.not_lt.2 hle)

/-- What was streamed stays in the place of a shorter final answer. -/
theorem shorter_answer_dropped : ¬ ∀ (events : List Event) (answerText : Text),
    FinalAnswer answerText (projectEventsToBlocks events)
      (ensureAnswerInBlocks (projectEventsToBlocks events) answerText) := by
  intro h
  have hanswer := (h [{ eventType := answerDelta, delta := "The answer is 41.".toList }] "It is 42.".toList).answer_eq
  revert hanswer
  decide +kernel

end AgentLangraph.Chat
