import AgentLangraph.Context.Truncate
import Mathlib.Data.Bool.AllAny

/-! How small a truncated item is. What a compressor leaves is cut to the bound, but for the header of a structured
    tool item, which stays whole:

        [name] status: body     ──▶     [name] status: bo…
        └── kept whole ──┘ -/

namespace AgentLangraph.Context
open PyText

instance (item : ContextItem) : Decidable (IsToolItem item) := by
  unfold IsToolItem
  infer_instance

/-- The length of the name and the status of a structured tool item. -/
def headerLength (item : ContextItem) : ℕ :=
  if IsToolItem item then
    match matchToolHeader item.content with
    | some (name, status, _) => name.length + (strip status).length
    | none => 0
  else 0

variable {host : Host} {settings : Settings} {query : Text} {maxTokens : ℤ}

theorem length_toolBody_le (budget : ℕ) (body : Text) :
    (toolBody host settings query budget body).length ≤ budget + 1 := by
  rw [toolBody]
  split_ifs
  · exact length_extractiveSentences_le host (strip body) query budget
  · exact length_clipTo_le budget (strip body)

theorem length_renderTool (name status body : Text) :
    (renderTool name status body).length = 5 + name.length + (strip status).length + body.length := by
  simp only [renderTool, List.cons_append, List.length_cons, List.length_append, List.length_nil]
  omega

/-- BOUND: a truncated item is within the bound, but for a header that is kept whole: there the body takes three
    quarters of the bound, and the header comes on top. -/
theorem truncate_tokens_le (host : Host) (settings : Settings) (query : Text) (maxTokens : ℤ)
    (hmax : 32 ≤ maxTokens) (item : ContextItem) :
    (truncateItemContent host settings query maxTokens item).estimatedTokens ≤
      max maxTokens ((3 * maxTokens + 6 + headerLength item) / 4) := by
  rcases truncate_tokens_le_or hmax item with hle | ⟨htool, hlt, hsome⟩
  · exact hle.trans (le_max_left _ _)
  · obtain ⟨⟨name, status, body⟩, hheader⟩ := Option.isSome_iff_exists.1 hsome
    have hkept : headerLength item = name.length + (strip status).length := by
      rw [headerLength, if_pos htool, hheader]
    have hbody := @length_toolBody_le host settings query (bodyBudget maxTokens) body
    rw [truncate_structured htool hlt hheader, hkept, clipContent]
    dsimp only
    rw [estimateTextTokens, length_renderTool]
    rw [bodyBudget] at hbody ⊢
    omega

/-- A structured tool item with a name of some length. -/
def namedItem (n : ℕ) : ContextItem where
  id := "ctx_4f1d2c3b5a69".toList
  kind := .toolOutput
  source := .tool
  content := renderTool (List.replicate (n + 1) 'a') "ok".toList "done".toList
  estimatedTokens := 33

theorem named_header (n : ℕ) : ∃ status body,
    matchToolHeader (namedItem n).content = some (List.replicate (n + 1) 'a', status, body) := by
  have hname : ∀ c ∈ List.replicate (n + 1) 'a', c ≠ ']' := by
    intro c hc
    rw [List.eq_of_mem_replicate hc]
    decide
  obtain ⟨status, body, hheader, -, -⟩ :=
    @matchToolHeader_renderTool _ "ok".toList "done".toList (by simp) hname (List.all_iff_forall_prop.1 (by decide))
  exact ⟨status, body, hheader⟩

theorem named_tokens (n : ℕ) : (n / 4 : ℕ) ≤
    (truncateItemContent host settings query 32 (namedItem n)).estimatedTokens := by
  obtain ⟨status, body, hheader⟩ := named_header n
  have hkind : (namedItem n).kind = .toolOutput := rfl
  have hbucket : (namedItem n).resolveBucket = .toolObservations := rfl
  have hover : (namedItem n).estimatedTokens = 33 := rfl
  have htool : IsToolItem (namedItem n) := by
    rw [IsToolItem, hkind, hbucket]
    decide
  rw [truncate_structured htool (by omega) hheader, clipContent]
  dsimp only
  rw [estimateTextTokens, length_renderTool, List.length_replicate]
  omega

example : headerLength (namedItem 3) = 6 := by decide

/-- A truncation to 32 tokens. -/
theorem named_truncate : (truncateItemContent (asciiHost []) {} [] 32 (namedItem 3)).estimatedTokens ≤
    max 32 ((3 * 32 + 6 + headerLength (namedItem 3)) / 4) :=
  truncate_tokens_le (asciiHost []) {} [] 32 (by decide) (namedItem 3)

/-- No constant is enough: the header may be of any length. -/
theorem header_over_bound : ¬ ∃ c : ℤ, ∀ (host : Host) (settings : Settings) (query : Text) (maxTokens : ℤ),
    32 ≤ maxTokens → ∀ item : ContextItem,
      (truncateItemContent host settings query maxTokens item).estimatedTokens ≤ maxTokens + c := by
  rintro ⟨c, hbound⟩
  have hlong := @named_tokens (asciiHost []) {} [] (4 * (33 + c.toNat))
  have hshort := hbound (asciiHost []) {} [] 32 (by decide) (namedItem (4 * (33 + c.toNat)))
  omega

end AgentLangraph.Context
