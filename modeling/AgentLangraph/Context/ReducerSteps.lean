import AgentLangraph.Context.Reducer

/-! What a reduction can do, said once: one round of a bucket's loop shortens or drops the last item
    or leaves the loop (`capStep_inl`, `capStep_inr`), and the two global passes always return and
    are made of three changes (`GlobalStep`, `fitBudget_steps`). The properties of the reducer are
    proved from these and never unfold the passes again. -/

namespace AgentLangraph.Context

/-! ### Removing items -/

theorem removeItem_of_mem {kept : List ContextItem} {item : ContextItem} (h : item ∈ kept) :
    removeItem kept item = some (kept.erase item) := if_pos h

/-- Items that are all there can be removed one after the other. -/
theorem removeItems_eq : ∀ {olds kept : List ContextItem}, olds.Subperm kept →
    removeItems kept olds = some (kept.diff olds)
  | [], kept, _ => by rw [removeItems, List.diff_nil]
  | old :: olds, kept, h => by
      have hmem : old ∈ kept := h.subset List.mem_cons_self
      have hrest : olds.Subperm (kept.erase old) := by
        simpa using h.erase old
      rw [removeItems, removeItem_of_mem hmem, Option.bind_some, removeItems_eq hrest,
        List.diff_cons]

/-- Removing all items of a kind leaves the others, in order. -/
theorem diff_filter (p : ContextItem → Bool) : ∀ l : List ContextItem,
    l.diff (l.filter p) = l.filter fun i => !p i
  | [] => rfl
  | i :: l => by
      by_cases hp : p i = true
      · rw [List.filter_cons_of_pos hp, List.filter_cons_of_neg (by simp [hp]), List.diff_cons,
          List.erase_cons_head, diff_filter p l]
      · have hnot : i ∉ l.filter p := fun h => hp (List.mem_filter.1 h).2
        rw [List.filter_cons_of_neg hp, List.filter_cons_of_pos (by simp [hp]),
          List.cons_diff_of_not_mem hnot, diff_filter p l]

/-! ### One round of the loop -/

/-- The buckets whose loop only ever shortens their last item. -/
def CompressOnly (policy : PromptContextPolicy) (bucket : Bucket) : Prop :=
  bucket ∉ policy.droppableBuckets ∧ bucket ∈ policy.compressibleBuckets ∧
    bucket ≠ .recentTranscript

instance (policy : PromptContextPolicy) (bucket : Bucket) :
    Decidable (CompressOnly policy bucket) := inferInstanceAs (Decidable (_ ∧ _ ∧ _))

section

variable {env : Env} {policy : PromptContextPolicy} {bucket : Bucket}

@[simp] theorem truncateLast_concat (rest : List ContextItem) (victim : ContextItem) :
    truncateLast env policy bucket (rest ++ [victim]) =
      rest ++ [env.truncate (capShare policy bucket (rest ++ [victim])) victim] := by
  rw [truncateLast, List.getLast?_concat, List.dropLast_concat]

theorem capStep_concat (rest : List ContextItem) (victim : ContextItem) {st : Stage}
    (h : st.items = rest ++ [victim]) :
    capStep env policy bucket st =
      if sumItemTokens st.items ≤ policy.cap bucket then .inr st
      else if CompressOnly policy bucket then
        .inl { st with
          items := truncateLast env policy bucket st.items
          compressed := st.compressed ++ [victim] }
      else if bucket ∈ policy.droppableBuckets ∧ bucket ∈ policy.requiredBuckets ∧ rest = [] then
        .inr st
      else .inl { st with items := rest, dropped := st.dropped ++ [victim] } := by
  rw [capStep, h, List.getLast?_concat, List.dropLast_concat]
  by_cases hd : bucket ∈ policy.droppableBuckets
  · simp [hd, CompressOnly]
  · simp [hd, CompressOnly]

/-- A round that continues shortens the last item or drops it. -/
theorem capStep_inl {st st' : Stage} (h : capStep env policy bucket st = .inl st') :
    ∃ rest victim, st.items = rest ++ [victim] ∧ policy.cap bucket < sumItemTokens st.items ∧
      (CompressOnly policy bucket ∧
          st' = { st with
            items := truncateLast env policy bucket st.items
            compressed := st.compressed ++ [victim] } ∨
        ¬ CompressOnly policy bucket ∧
          st' = { st with items := rest, dropped := st.dropped ++ [victim] }) := by
  rcases List.eq_nil_or_concat' st.items with hnil | ⟨rest, victim, hst⟩
  · rw [capStep, hnil] at h
    simp at h
  · rw [capStep_concat rest victim hst] at h
    split_ifs at h with hle honly
    · exact ⟨rest, victim, hst, by omega, Or.inl ⟨honly, (Sum.inl.inj h).symm⟩⟩
    · exact ⟨rest, victim, hst, by omega, Or.inr ⟨honly, (Sum.inl.inj h).symm⟩⟩

/-- A round that leaves the loop changes nothing. -/
theorem capStep_inr {st st' : Stage} (h : capStep env policy bucket st = .inr st') :
    st' = st ∧ (st.items = [] ∨ sumItemTokens st.items ≤ policy.cap bucket ∨
      bucket ∈ policy.droppableBuckets ∧ ∃ victim, st.items = [victim]) := by
  rcases List.eq_nil_or_concat' st.items with hnil | ⟨rest, victim, hst⟩
  · rw [capStep, hnil] at h
    exact ⟨(Sum.inr.inj h).symm, Or.inl hnil⟩
  · rw [capStep_concat rest victim hst] at h
    split_ifs at h with hle honly hone
    · exact ⟨(Sum.inr.inj h).symm, Or.inr (Or.inl hle)⟩
    · exact ⟨(Sum.inr.inj h).symm, Or.inr (Or.inr ⟨hone.1, victim, by rw [hst, hone.2.2]; rfl⟩)⟩

/-! ### One change under the global budget -/

/-- The transcript, where the policy may compress it: merged as a whole, never item by item. -/
def Mergeable (policy : PromptContextPolicy) (bucket : Bucket) : Prop :=
  bucket ∈ policy.compressibleBuckets ∧ bucket = .recentTranscript

/-- The changes the two global passes are made of. -/
inductive GlobalStep (env : Env) (policy : PromptContextPolicy) (acc : Acc) : Acc → Prop
  | shorten (item : ContextItem) (hmem : item ∈ acc.kept) (hcomp : item.compressible = true)
      (hbucket : ¬ Mergeable policy item.resolveBucket) :
      GlobalStep env policy acc
        { acc with
          kept := acc.kept.erase item ++ [env.truncate (halfTokens item) item]
          compressed := acc.compressed ++ [item] }
  | drop (item : ContextItem) (hmem : item ∈ acc.kept) (hdrop : item.droppable = true) :
      GlobalStep env policy acc
        { acc with kept := acc.kept.erase item, dropped := acc.dropped ++ [item] }
  | merge (bucketKept newItems : List ContextItem)
      (hkept : bucketKept = acc.kept.filter fun i => i.resolveBucket = .recentTranscript)
      (hne : bucketKept ≠ [])
      (hnew : newItems = compressTranscriptItems env acc.nextId bucketKept) :
      GlobalStep env policy acc
        { acc with
          kept := acc.kept.diff bucketKept ++ newItems
          compressed := acc.compressed ++ bucketKept
          nextId := acc.nextId + newItems.length }

open Relation (ReflTransGen)

theorem subperm_erase_of_cons {item : ContextItem} {items kept : List ContextItem}
    (h : (item :: items).Subperm kept) : items.Subperm (kept.erase item) := by
  simpa using h.erase item

variable (env policy)

theorem degradeItems_steps (budget : ℤ) (bucket : Bucket) (hm : ¬ Mergeable policy bucket) :
    ∀ (items : List ContextItem) (acc : Acc), items.Subperm acc.kept →
      (∀ i ∈ items, i.resolveBucket = bucket) →
      ∃ acc', degradeItems env policy budget bucket items acc = some acc' ∧
        ReflTransGen (GlobalStep env policy) acc acc' := by
  intro items
  induction items with
  | nil => intro acc _ _; exact ⟨acc, rfl, .refl⟩
  | cons item items ih =>
    intro acc h hb
    have hmem : item ∈ acc.kept := h.subset List.mem_cons_self
    have hrest := subperm_erase_of_cons h
    rw [List.forall_mem_cons] at hb
    rw [degradeItems]
    split_ifs with hle hsp hcomp
    · exact ⟨acc, rfl, .refl⟩
    · rw [removeItem_of_mem hmem, Option.bind_some]
      obtain ⟨acc', heq, hsteps⟩ := ih
        ⟨acc.kept.erase item ++ [env.truncate (halfTokens item) item], acc.compressed ++ [item],
          acc.dropped, acc.nextId⟩ (hrest.trans (List.sublist_append_left _ _).subperm) hb.2
      exact ⟨acc', heq, .head (.shorten item hmem hcomp (by rwa [hb.1])) hsteps⟩
    · exact ih acc ((List.sublist_cons_self _ _).subperm.trans h) hb.2
    · rw [removeItem_of_mem hmem, Option.bind_some]
      obtain ⟨acc', heq, hsteps⟩ := ih
        ⟨acc.kept.erase item, acc.compressed, acc.dropped ++ [item], acc.nextId⟩ hrest hb.2
      refine ⟨acc', heq, .head (.drop item hmem ?_) hsteps⟩
      by_contra hd
      exact hsp (Or.inl (by simpa using hd))

theorem degradeBucket_steps (budget : ℤ) (bucket : Bucket) (acc : Acc) :
    ∃ acc', degradeBucket env policy budget bucket acc = some acc' ∧
      ReflTransGen (GlobalStep env policy) acc acc' := by
  rw [degradeBucket]
  dsimp only
  split_ifs with hnil htr
  · exact ⟨acc, rfl, .refl⟩
  · rcases htr with ⟨-, rfl⟩
    rw [removeItems_eq List.filter_sublist.subperm]
    exact ⟨_, rfl, .single (.merge _ _ rfl hnil rfl)⟩
  · refine degradeItems_steps env policy budget bucket htr _ acc
      ((sortByRankDesc_perm _).subperm.trans List.filter_sublist.subperm) fun i hi => ?_
    have hfilter := (sortByRankDesc_perm _).mem_iff.1 hi
    simpa using (List.mem_filter.1 hfilter).2

theorem degradeBuckets_steps (budget : ℤ) (buckets : List Bucket) : ∀ acc : Acc,
    ∃ acc', degradeBuckets env policy budget buckets acc = some acc' ∧
      ReflTransGen (GlobalStep env policy) acc acc' := by
  induction buckets with
  | nil => intro acc; exact ⟨acc, rfl, .refl⟩
  | cons b buckets ih =>
    intro acc
    rw [degradeBuckets]
    split_ifs with hle
    · exact ⟨acc, rfl, .refl⟩
    · obtain ⟨acc₁, heq, hsteps⟩ := degradeBucket_steps env policy budget b acc
      obtain ⟨acc₂, heq₂, hsteps₂⟩ := ih acc₁
      exact ⟨acc₂, by rw [heq, Option.bind_some, heq₂], hsteps.trans hsteps₂⟩

theorem dropOverflow_steps (budget : ℤ) : ∀ (items : List ContextItem) (acc : Acc),
    items.Subperm acc.kept →
      ∃ acc', dropOverflow budget items acc = some acc' ∧
        ReflTransGen (GlobalStep env policy) acc acc' := by
  intro items
  induction items with
  | nil => intro acc _; exact ⟨acc, rfl, .refl⟩
  | cons item items ih =>
    intro acc h
    have hmem : item ∈ acc.kept := h.subset List.mem_cons_self
    rw [dropOverflow]
    split_ifs with hle hkeep
    · exact ⟨acc, rfl, .refl⟩
    · exact ih acc ((List.sublist_cons_self _ _).subperm.trans h)
    · rw [removeItem_of_mem hmem, Option.bind_some]
      obtain ⟨acc', heq, hsteps⟩ := ih
        ⟨acc.kept.erase item, acc.compressed, acc.dropped ++ [item], acc.nextId⟩
        (subperm_erase_of_cons h)
      refine ⟨acc', heq, .head (.drop item hmem ?_) hsteps⟩
      by_contra hd
      exact hkeep (Or.inr (by simpa using hd))

/-- The global passes always return, and only by the changes of `GlobalStep`. -/
theorem fitBudget_steps (budget : ℤ) (acc : Acc) :
    ∃ acc', fitBudget env policy budget acc = some acc' ∧
      ReflTransGen (GlobalStep env policy) acc acc' := by
  rw [fitBudget]
  split_ifs with hle
  · exact ⟨acc, rfl, .refl⟩
  · obtain ⟨acc₁, heq, hsteps⟩ := degradeBuckets_steps env policy budget policy.degradeOrder acc
    rw [heq, Option.bind_some]
    split_ifs with hle₁
    · exact ⟨acc₁, rfl, hsteps⟩
    · obtain ⟨acc₂, heq₂, hsteps₂⟩ := dropOverflow_steps env policy budget _ acc₁
        (sortByRankDesc_perm acc₁.kept).subperm
      exact ⟨acc₂, heq₂, hsteps.trans hsteps₂⟩

/-! ### What the buckets leave -/

/-- `items` is what the loop of a bucket leaves of its group. -/
def Leaves (fuel : ℕ) (group : Bucket × List ContextItem) (items : List ContextItem) : Prop :=
  ∃ acc st, Loop.run (capStep env policy group.1) fuel (enterBucket env policy group.1 group.2 acc) =
    some st ∧ st.items = items

/-- The bucket stage keeps what each bucket leaves, bucket after bucket. -/
theorem reduceBuckets_leaves {fuel : ℕ} (groups : List (Bucket × List ContextItem)) :
    ∀ {acc acc' : Acc}, reduceBuckets env policy fuel groups acc = some acc' →
      ∃ left, List.Forall₂ (Leaves env policy fuel) groups left ∧
        acc'.kept = acc.kept ++ left.flatten := by
  induction groups with
  | nil =>
    intro acc acc' h
    exact ⟨[], .nil, by rw [← Option.some.inj h]; simp⟩
  | cons group groups ih =>
    intro acc acc' h
    rw [reduceBuckets, Option.bind_eq_some_iff] at h
    obtain ⟨acc₁, h₁, h₂⟩ := h
    rw [reduceBucket, Option.map_eq_some_iff] at h₁
    obtain ⟨st, hrun, rfl⟩ := h₁
    obtain ⟨left, hleft, hkept⟩ := ih h₂
    exact ⟨st.items :: left, .cons ⟨acc, st, hrun, rfl⟩ hleft, by rw [hkept]; simp⟩

/-- A reduction keeps what the buckets leave, changed by the global passes. -/
theorem reduceContextItems_cases {budget : ℤ} {fuel : ℕ} {items : List ContextItem} {acc : Acc}
    (h : reduceContextItems env policy budget fuel items = some acc) :
    ∃ acc₁ left, reduceBuckets env policy fuel (byBucket (dedupedItems env items)) {} = some acc₁ ∧
      List.Forall₂ (Leaves env policy fuel) (byBucket (dedupedItems env items)) left ∧
      acc₁.kept = left.flatten ∧ fitBudget env policy budget acc₁ = some acc ∧
      ReflTransGen (GlobalStep env policy) acc₁ acc := by
  rw [reduceContextItems, Option.bind_eq_some_iff] at h
  obtain ⟨acc₁, h₁, h₂⟩ := h
  obtain ⟨acc₂, heq, hsteps⟩ := fitBudget_steps env policy budget acc₁
  obtain ⟨left, hleft, hkept⟩ := reduceBuckets_leaves env policy _ h₁
  rw [heq, Option.some.injEq] at h₂
  subst h₂
  exact ⟨acc₁, left, h₁, hleft, by simpa using hkept, heq, hsteps⟩

/-- The group of a bucket. -/
theorem mem_byBucket {items : List ContextItem} {b : Bucket} {group : List ContextItem} :
    (b, group) ∈ byBucket items ↔
      group = items.filter (fun i => i.resolveBucket = b) ∧ ∃ i ∈ items, i.resolveBucket = b :=
  PyDict.mem_groupBy

theorem byBucket_resolveBucket (items : List ContextItem) :
    ∀ g ∈ byBucket items, ∀ i ∈ g.2, i.resolveBucket = g.1 := by
  rintro ⟨b, group⟩ hg i hi
  rw [(mem_byBucket.1 hg).1] at hi
  simpa using (List.mem_filter.1 hi).2

theorem nodup_byBucket (items : List ContextItem) : ((byBucket items).map Prod.fst).Nodup :=
  (PyDict.groupBy ContextItem.resolveBucket items).nodup

variable {env policy}

/-- Every item a minimal representation has is a reworded one of the bucket. -/
theorem mem_applyMinBucketRepresentation {items : List ContextItem} {i : ContextItem}
    (h : i ∈ applyMinBucketRepresentation env policy bucket items) : ∃ x ∈ items, Reworded x i := by
  rw [applyMinBucketRepresentation] at h
  dsimp only at h
  split_ifs at h
  · exact ⟨i, h, .refl i⟩
  · obtain ⟨x, hx, rfl⟩ := List.mem_map.1 h
    refine ⟨x, (sortItems_perm items).mem_iff.1 (List.mem_of_mem_take hx), ?_⟩
    split_ifs
    · exact reworded_clipContent ..
    · exact reworded_truncate x

theorem mem_minimizeBucket {items : List ContextItem} {i : ContextItem}
    (h : i ∈ minimizeBucket env policy bucket items) : ∃ x ∈ items, Reworded x i := by
  rw [minimizeBucket] at h
  split_ifs at h
  · exact mem_applyMinBucketRepresentation h
  · exact ⟨i, h, .refl i⟩

theorem enterBucket_items_eq (group : List ContextItem) (acc : Acc) :
    (enterBucket env policy bucket group acc).items =
      minimizeBucket env policy bucket
        (mergeTranscript env policy bucket acc.nextId (sortItems group)) := rfl

/-- Apart from the transcript, a bucket leaves only items of its own. -/
theorem Leaves.resolveBucket {fuel : ℕ} {group : Bucket × List ContextItem}
    {items : List ContextItem} (h : Leaves env policy fuel group items)
    (hb : group.1 ≠ .recentTranscript) (hgroup : ∀ i ∈ group.2, i.resolveBucket = group.1) :
    ∀ i ∈ items, i.resolveBucket = group.1 := by
  obtain ⟨acc, st, hrun, rfl⟩ := h
  have hstep : ∀ s s' : Stage, (∀ i ∈ s.items, i.resolveBucket = group.1) →
      capStep env policy group.1 s = .inl s' → ∀ i ∈ s'.items, i.resolveBucket = group.1 := by
    intro s s' hs h
    rcases capStep_inl h with ⟨rest, victim, hst, -, ⟨-, rfl⟩ | ⟨-, rfl⟩⟩
    · rw [hst] at hs ⊢
      rw [truncateLast_concat]
      intro i hi
      rcases List.mem_append.1 hi with hi | hi
      · exact hs i (List.mem_append_left _ hi)
      · rw [List.mem_singleton.1 hi, Env.truncate, (reworded_truncate victim).resolveBucket_eq]
        exact hs victim (List.mem_append_right _ List.mem_cons_self)
    · intro i hi
      exact hs i (by rw [hst]; exact List.mem_append_left _ hi)
  have hexit : ∀ s r : Stage, (∀ i ∈ s.items, i.resolveBucket = group.1) →
      capStep env policy group.1 s = .inr r → ∀ i ∈ r.items, i.resolveBucket = group.1 := by
    intro s r hs h
    rwa [(capStep_inr h).1]
  refine Loop.run_inv hstep hexit (fun i hi => ?_) hrun
  rw [enterBucket_items_eq, mergeTranscript, if_neg fun hm => hb hm.2.2] at hi
  obtain ⟨x, hx, hxi⟩ := mem_minimizeBucket hi
  rw [hxi.resolveBucket_eq]
  exact hgroup x ((sortItems_perm _).mem_iff.1 hx)

/-- A bucket that is not compress-only leaves a start of the list its loop begins with. -/
theorem Leaves.items_prefix {fuel : ℕ} {group : Bucket × List ContextItem}
    {items : List ContextItem} (h : Leaves env policy fuel group items)
    (honly : ¬ CompressOnly policy group.1) :
    ∃ acc, items <+: (enterBucket env policy group.1 group.2 acc).items := by
  obtain ⟨acc, st, hrun, rfl⟩ := h
  refine ⟨acc, ?_⟩
  have hstep : ∀ s s' : Stage, s.items <+: (enterBucket env policy group.1 group.2 acc).items →
      capStep env policy group.1 s = .inl s' →
        s'.items <+: (enterBucket env policy group.1 group.2 acc).items := by
    intro s s' hs h
    rcases capStep_inl h with ⟨rest, victim, hst, -, ⟨ho, -⟩ | ⟨-, rfl⟩⟩
    · exact absurd ho honly
    · exact (List.prefix_append rest [victim]).trans (hst ▸ hs)
  have hexit : ∀ s r : Stage, s.items <+: (enterBucket env policy group.1 group.2 acc).items →
      capStep env policy group.1 s = .inr r →
        r.items <+: (enterBucket env policy group.1 group.2 acc).items := by
    intro s r hs h
    rwa [(capStep_inr h).1]
  exact Loop.run_inv hstep hexit (List.prefix_refl _) hrun

/-- A bucket whose loop starts under the cap is left as the loop found it. -/
theorem Leaves.items_eq {fuel : ℕ} {group : Bucket × List ContextItem} {items : List ContextItem}
    (h : Leaves env policy fuel group items)
    (hfits : ∀ acc, sumItemTokens (enterBucket env policy group.1 group.2 acc).items ≤
      policy.cap group.1) :
    ∃ acc, items = (enterBucket env policy group.1 group.2 acc).items := by
  obtain ⟨acc, st, hrun, rfl⟩ := h
  set entry := enterBucket env policy group.1 group.2 acc with hentry
  have hexit : capStep env policy group.1 entry = .inr entry := by
    rcases List.eq_nil_or_concat' entry.items with hnil | ⟨rest, victim, hst⟩
    · rw [capStep, hnil]
      rfl
    · rw [capStep_concat rest victim hst, if_pos (hfits acc)]
  refine ⟨acc, ?_⟩
  cases fuel with
  | zero => simp at hrun
  | succ n =>
    rw [Loop.run_succ_inr hexit, Option.some.injEq] at hrun
    rw [← hrun]

end

end AgentLangraph.Context
