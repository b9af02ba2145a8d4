import AgentLangraph.Context.ReducerSteps

/-! When a reduction returns. Every bucket's loop drops its way to the cap, except in a bucket that
    may be compressed but not dropped from: there only the last item is ever touched, two rounds take
    it as far as it goes, and a loop that is still over its cap then runs for ever.

        over cap, last item shortened once, twice  →  fits, or never returns -/

namespace AgentLangraph.Context
open PyText Loop

variable (env : Env) (policy : PromptContextPolicy) {bucket : Bucket}

/-- The bucket as its loop finds it, for a bucket that is not merged. -/
def loopEntry (env : Env) (policy : PromptContextPolicy) (bucket : Bucket)
    (group : List ContextItem) : List ContextItem := minimizeBucket env policy bucket (sortItems group)

/-- Under the cap at once, or after the last item is shortened once or twice. -/
def FitsByTruncation (env : Env) (policy : PromptContextPolicy) (bucket : Bucket)
    (items : List ContextItem) : Prop :=
  sumItemTokens items ≤ policy.cap bucket ∨
    sumItemTokens (truncateLast env policy bucket items) ≤ policy.cap bucket ∨
      sumItemTokens (truncateLast env policy bucket (truncateLast env policy bucket items)) ≤
        policy.cap bucket

instance (items : List ContextItem) : Decidable (FitsByTruncation env policy bucket items) :=
  inferInstanceAs (Decidable (_ ∨ _ ∨ _))

/-! ### One bucket -/

theorem capShare_ge (items : List ContextItem) : 32 ≤ capShare policy bucket items := le_max_left ..

/-- The third shortening of the last item changes nothing. -/
theorem truncateLast_stable (items : List ContextItem) :
    let f := truncateLast env policy bucket
    f (f (f items)) = f (f items) := by
  rcases List.eq_nil_or_concat' items with rfl | ⟨rest, victim, rfl⟩
  · rfl
  · have hshare : ∀ v : ContextItem, capShare policy bucket (rest ++ [v]) =
        capShare policy bucket (rest ++ [victim]) := fun v => by simp [capShare]
    simp only [truncateLast_concat, hshare]
    rw [Env.truncate, Env.truncate, Env.truncate, truncate_stable (capShare_ge policy _)]

theorem truncateLast_ne_nil {items : List ContextItem} (h : items ≠ []) :
    truncateLast env policy bucket items ≠ [] := by
  rcases List.eq_nil_or_concat' items with rfl | ⟨rest, victim, rfl⟩
  · exact absurd rfl h
  · simp

/-- Outside compress-only buckets the loop gets shorter every round. -/
theorem terminates_of_not_compressOnly (h : ¬ CompressOnly policy bucket) (st : Stage) :
    Terminates (capStep env policy bucket) st := by
  refine terminates_of_measure (fun st => st.items.length) (fun s s' hs => ?_) st
  rcases capStep_inl hs with ⟨rest, victim, hst, -, ⟨honly, -⟩ | ⟨-, rfl⟩⟩
  · exact absurd honly h
  · simp [hst]

theorem terminates_of_le {st : Stage} (h : sumItemTokens st.items ≤ policy.cap bucket) :
    Terminates (capStep env policy bucket) st := by
  have hexit : capStep env policy bucket st = .inr st → Terminates (capStep env policy bucket) st :=
    terminates_inr
  apply hexit
  rcases List.eq_nil_or_concat' st.items with hnil | ⟨rest, victim, hst⟩
  · simp [capStep, hnil]
  · rw [capStep_concat rest victim hst, if_pos h]

/-- In a compress-only bucket over its cap a round shortens the last item, and no more. -/
theorem capStep_compressOnly (honly : CompressOnly policy bucket) (st : Stage)
    (hne : st.items ≠ []) (hlt : policy.cap bucket < sumItemTokens st.items) :
    ∃ compressed, capStep env policy bucket st =
      .inl ⟨truncateLast env policy bucket st.items, compressed, st.dropped⟩ := by
  obtain ⟨rest, victim, hst⟩ := (List.eq_nil_or_concat' st.items).resolve_left hne
  exact ⟨_, by rw [capStep_concat rest victim hst, if_neg (by omega), if_pos honly]⟩

/-- The loop of a compress-only bucket leaves exactly when two shortenings are enough. -/
theorem terminates_iff_of_compressOnly (honly : CompressOnly policy bucket) {st : Stage}
    (hne : st.items ≠ []) :
    Terminates (capStep env policy bucket) st ↔ FitsByTruncation env policy bucket st.items := by
  set L₁ := truncateLast env policy bucket st.items with hL₁
  set L₂ := truncateLast env policy bucket L₁ with hL₂
  have hne₁ : L₁ ≠ [] := truncateLast_ne_nil env policy hne
  have hne₂ : L₂ ≠ [] := truncateLast_ne_nil env policy hne₁
  rw [FitsByTruncation, ← hL₁, ← hL₂]
  by_cases h0 : sumItemTokens st.items ≤ policy.cap bucket
  · exact iff_of_true (terminates_of_le env policy h0) (Or.inl h0)
  obtain ⟨c₁, hs₁⟩ := capStep_compressOnly env policy honly st hne (lt_of_not_ge h0)
  rw [terminates_inl hs₁]
  by_cases h1 : sumItemTokens L₁ ≤ policy.cap bucket
  · exact iff_of_true (terminates_of_le env policy h1) (Or.inr (Or.inl h1))
  obtain ⟨c₂, hs₂⟩ :=
    capStep_compressOnly env policy honly ⟨L₁, c₁, st.dropped⟩ hne₁ (lt_of_not_ge h1)
  rw [terminates_inl hs₂]
  by_cases h2 : sumItemTokens L₂ ≤ policy.cap bucket
  · exact iff_of_true (terminates_of_le env policy h2) (Or.inr (Or.inr h2))
  -- from here on every round finds the same items again
  have hloop : ∀ s : Stage, s.items = L₂ → ∃ s', capStep env policy bucket s = .inl s' ∧
      s'.items = L₂ := by
    intro s hs
    obtain ⟨c, hs'⟩ := capStep_compressOnly env policy honly s (by rw [hs]; exact hne₂)
      (by rw [hs]; exact lt_of_not_ge h2)
    exact ⟨_, hs', by rw [hs]; exact truncateLast_stable env policy st.items⟩
  refine iff_of_false (not_terminates_of_inv hloop rfl) ?_
  rintro (h | h | h) <;> contradiction

/-! ### All buckets -/

theorem sortItems_ne_nil {items : List ContextItem} (h : items ≠ []) : sortItems items ≠ [] := by
  intro hs
  have hperm := sortItems_perm items
  rw [hs] at hperm
  exact h (List.nil_perm.1 hperm)

theorem minimizeBucket_ne_nil {items : List ContextItem} (h : items ≠ []) :
    minimizeBucket env policy bucket items ≠ [] := by
  rw [minimizeBucket]
  split_ifs with hm
  · exact hm.2.2.2.1
  · exact h

theorem enterBucket_items (h : bucket ≠ .recentTranscript) (group : List ContextItem) (acc : Acc) :
    (enterBucket env policy bucket group acc).items = loopEntry env policy bucket group := by
  rw [enterBucket, mergeTranscript, if_neg fun hm => h hm.2.2]
  rfl

theorem terminates_enterBucket {group : List ContextItem} (hne : group ≠ []) (acc : Acc) :
    Terminates (capStep env policy bucket) (enterBucket env policy bucket group acc) ↔
      (CompressOnly policy bucket →
        FitsByTruncation env policy bucket (loopEntry env policy bucket group)) := by
  by_cases honly : CompressOnly policy bucket
  · have hitems := enterBucket_items env policy honly.2.2 group acc
    have hne' : (enterBucket env policy bucket group acc).items ≠ [] := by
      rw [hitems]
      exact minimizeBucket_ne_nil env policy (sortItems_ne_nil hne)
    rw [terminates_iff_of_compressOnly env policy honly hne', hitems]
    simp [honly]
  · exact iff_of_true (terminates_of_not_compressOnly env policy honly _) fun h => absurd h honly

variable {env policy}

theorem reduceBucket_mono {n m : ℕ} {acc acc' : Acc} {group : Bucket × List ContextItem}
    (h : reduceBucket env policy n acc group = some acc') (hle : n ≤ m) :
    reduceBucket env policy m acc group = some acc' := by
  rw [reduceBucket, Option.map_eq_some_iff] at h
  obtain ⟨st, hst, hacc⟩ := h
  rw [reduceBucket, run_mono hst hle, Option.map_some, hacc]

theorem reduceBuckets_mono {n m : ℕ} (hle : n ≤ m) (groups : List (Bucket × List ContextItem)) :
    ∀ {acc acc' : Acc}, reduceBuckets env policy n groups acc = some acc' →
      reduceBuckets env policy m groups acc = some acc' := by
  induction groups with
  | nil => intro acc acc' h; exact h
  | cons group groups ih =>
    intro acc acc' h
    rw [reduceBuckets, Option.bind_eq_some_iff] at h ⊢
    obtain ⟨acc₁, h₁, h₂⟩ := h
    exact ⟨acc₁, reduceBucket_mono h₁ hle, ih h₂⟩

variable (env policy)

/-- The bucket stage returns exactly when the loop of every bucket does. -/
theorem reduceBuckets_returns_iff (groups : List (Bucket × List ContextItem)) :
    ∀ acc : Acc, (∀ g ∈ groups, g.2 ≠ []) →
      ((∃ fuel acc', reduceBuckets env policy fuel groups acc = some acc') ↔
        ∀ g ∈ groups, CompressOnly policy g.1 →
          FitsByTruncation env policy g.1 (loopEntry env policy g.1 g.2)) := by
  induction groups with
  | nil => intro acc _; simp [reduceBuckets]
  | cons group groups ih =>
    intro acc hne
    rw [List.forall_mem_cons] at hne
    rw [List.forall_mem_cons, ← terminates_enterBucket env policy hne.1 acc]
    constructor
    · rintro ⟨fuel, acc', h⟩
      rw [reduceBuckets, Option.bind_eq_some_iff] at h
      obtain ⟨acc₁, h₁, h₂⟩ := h
      rw [reduceBucket, Option.map_eq_some_iff] at h₁
      obtain ⟨st, hst, -⟩ := h₁
      exact ⟨⟨st, fuel, hst⟩, (ih acc₁ hne.2).1 ⟨fuel, acc', h₂⟩⟩
    · rintro ⟨⟨st, n, hst⟩, hrest⟩
      obtain ⟨acc₁, hacc₁⟩ : ∃ acc₁, reduceBucket env policy n acc group = some acc₁ := by
        rw [reduceBucket, hst]
        exact ⟨_, rfl⟩
      obtain ⟨m, acc', h⟩ := (ih acc₁ hne.2).2 hrest
      refine ⟨max n m, acc', ?_⟩
      rw [reduceBuckets, reduceBucket_mono hacc₁ (le_max_left n m), Option.bind_some]
      exact reduceBuckets_mono (le_max_right n m) groups h

theorem byBucket_ne_nil {items : List ContextItem} : ∀ g ∈ byBucket items, g.2 ≠ [] := by
  rintro ⟨b, xs⟩ hg
  obtain ⟨rfl, x, hx, hb⟩ := PyDict.mem_groupBy.1 hg
  exact List.ne_nil_of_mem (List.mem_filter.2 ⟨hx, by simpa using hb⟩)

/-- A reduction returns exactly when every compress-only bucket gets under its cap by shortening
    its last item at most twice. -/
theorem reduceContextItems_returns_iff (budget : ℤ) (items : List ContextItem) :
    (∃ fuel acc, reduceContextItems env policy budget fuel items = some acc) ↔
      ∀ g ∈ byBucket (dedupedItems env items), CompressOnly policy g.1 →
        FitsByTruncation env policy g.1 (loopEntry env policy g.1 g.2) := by
  rw [← reduceBuckets_returns_iff env policy _ {} byBucket_ne_nil]
  constructor
  · rintro ⟨fuel, acc, h⟩
    rw [reduceContextItems, Option.bind_eq_some_iff] at h
    obtain ⟨acc₁, h₁, -⟩ := h
    exact ⟨fuel, acc₁, h₁⟩
  · rintro ⟨fuel, acc₁, h₁⟩
    obtain ⟨acc, h, -⟩ := fitBudget_steps env policy budget acc₁
    exact ⟨fuel, acc, by rw [reduceContextItems, h₁, Option.bind_some, h]⟩

/-! ### The registered policies -/

/-- The buckets a registered policy may compress but not drop from, the transcript apart. -/
def compressOnlyBuckets : Purpose → List Bucket
  | .planning => [.semanticSummary]
  | .reasoning => [.semanticSummary, .retrievedKnowledge, .toolObservations]
  | .writing => [.semanticSummary]
  | .reviewing => [.semanticSummary]
  | .summarization => []
  | .reflection => [.semanticSummary, .retrievedMemory]
  | .routing => [.semanticSummary, .retrievedMemory]
  | .intentObservation => [.semanticSummary, .retrievedMemory]
  | .codeAgent => []

theorem compressOnly_policies (p : Purpose) (b : Bucket) :
    CompressOnly (policies p) b ↔ b ∈ compressOnlyBuckets p := by
  cases p <;> cases b <;> decide

/-- CORRECT when it can be: under a registered policy the reduction returns exactly for the item
    lists whose compress-only buckets fit their caps after their last item is shortened at most
    twice. -/
theorem reduce_terminates_iff (p : Purpose) (budget : ℤ) (items : List ContextItem) :
    (∃ fuel acc, reduceContextItems env (policies p) budget fuel items = some acc) ↔
      ∀ g ∈ byBucket (dedupedItems env items), g.1 ∈ compressOnlyBuckets p →
        FitsByTruncation env (policies p) g.1 (loopEntry env (policies p) g.1 g.2) := by
  rw [reduceContextItems_returns_iff]
  simp only [compressOnly_policies]

/-- Two knowledge items: the first alone is over the cap of its bucket, the last is tiny. -/
def hangingItems : List ContextItem :=
  [{ id := "doc_1".toList, kind := .knowledge, source := .retrieval, content := "alpha".toList
     priority := .high, estimatedTokens := 5000, bucket := some .retrievedKnowledge },
   { id := "doc_2".toList, kind := .knowledge, source := .retrieval, content := "beta".toList
     priority := .medium, bucket := some .retrievedKnowledge }]

def hangingEnv : Env where
  host := asciiHost
    [("alpha".toList, "8ed3f6ad685b959ead7022518e1af76cd816f8e8ec7ccdda1ed4018e8f2223f8".toList),
      ("beta".toList, "f44e64e75f3948e9f73f8dfa94721c4ce8cbb4f265c4790c702b2d41cfbf2753".toList)]
  settings := {}
  query := []
  summarize _ := ⟨[], [], []⟩

/-- For reasoning these two items are never reduced. -/
theorem reduce_hangs : ¬ ∃ fuel acc,
    reduceContextItems hangingEnv (policies .reasoning) 32000 fuel hangingItems = some acc := by
  rw [reduceContextItems_returns_iff]
  decide +kernel

end AgentLangraph.Context
