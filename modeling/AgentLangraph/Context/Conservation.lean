import AgentLangraph.Context.ReducerSteps

/-! Conservation of the reducer: every item that survives deduplication is accounted for in `kept`,
    `compressed` or `dropped`, nothing is both kept and dropped, and what is kept fits the budget
    unless only critical and non-droppable items are left.

    The ids of `kept ++ dropped` are distinct at every moment (`Accounted`): a round of a bucket's
    loop and a change of the global passes only permute them, and a merge of the transcript replaces
    some of them by freshly drawn ones. -/

namespace AgentLangraph.Context
open PyText Loop

def ids (items : List ContextItem) : List Text := items.map (·.id)

@[simp] theorem ids_append (l m : List ContextItem) : ids (l ++ m) = ids l ++ ids m := by
  simp [ids]

@[simp] theorem ids_singleton (i : ContextItem) : ids [i] = [i.id] := rfl

theorem mem_ids_of_mem {i : ContextItem} {l : List ContextItem} (h : i ∈ l) : i.id ∈ ids l :=
  List.mem_map_of_mem h

theorem ids_subset {l m : List ContextItem} (h : l ⊆ m) : ids l ⊆ ids m := List.map_subset _ h

theorem ids_perm {l m : List ContextItem} (h : l.Perm m) : (ids l).Perm (ids m) := h.map _

/-- The `k`-th id drawn while a transcript is merged. -/
def drawnId (env : Env) (k : ℕ) : Text := newContextId env.host "ctx" k

/-- The first `n` draws are distinct and new to `known`: what `uuid4` is used for. -/
structure FreshIds (env : Env) (n : ℕ) (known : List Text) : Prop where
  distinct : ∀ i < n, ∀ j < n, drawnId env i = drawnId env j → i = j
  unknown : ∀ i < n, drawnId env i ∉ known

/-- The books of a reduction that has seen the ids `seen`. -/
structure Accounted (env : Env) (seen : List Text) (acc : Acc) : Prop where
  nodup : (ids (acc.kept ++ acc.dropped)).Nodup
  origin : ∀ i ∈ ids (acc.kept ++ acc.dropped), i ∈ seen ∨ ∃ k < acc.nextId, i = drawnId env k
  covered : ∀ i ∈ seen, i ∈ ids acc.kept ∨ i ∈ ids acc.compressed ∨ i ∈ ids acc.dropped

variable {env : Env} {policy : PromptContextPolicy} {bucket : Bucket}

/-! ### The loop of a bucket -/

/-- From `st` to `st'` the ids in the bucket or dropped are permuted, and `compressed` grows. -/
structure Follows (st st' : Stage) : Prop where
  perm : (ids (st'.items ++ st'.dropped)).Perm (ids (st.items ++ st.dropped))
  compressed : st.compressed ⊆ st'.compressed

theorem Follows.refl (st : Stage) : Follows st st := ⟨List.Perm.refl _, List.Subset.refl _⟩

theorem capStep_follows {st st' : Stage} (h : capStep env policy bucket st = .inl st') :
    Follows st st' := by
  rcases capStep_inl h with ⟨rest, victim, hst, -, ⟨-, rfl⟩ | ⟨-, rfl⟩⟩
  · refine ⟨?_, List.subset_append_left ..⟩
    have hid : (env.truncate (capShare policy bucket (rest ++ [victim])) victim).id = victim.id :=
      (reworded_truncate victim).id_eq
    simp [hst, ids, hid]
  · refine ⟨?_, List.Subset.refl _⟩
    rw [hst, List.append_assoc]
    exact ids_perm (List.perm_append_comm.append_left rest)

theorem run_capStep_follows {fuel : ℕ} {st st' : Stage}
    (h : run (capStep env policy bucket) fuel st = some st') : Follows st st' := by
  have hstep : ∀ s s', Follows st s → capStep env policy bucket s = .inl s' → Follows st s' := by
    intro s s' hs h'
    have hnext := capStep_follows h'
    exact ⟨hnext.perm.trans hs.perm, List.Subset.trans hs.compressed hnext.compressed⟩
  have hexit : ∀ s r, Follows st s → capStep env policy bucket s = .inr r → Follows st r := by
    intro s r hs hr
    rw [(capStep_inr hr).1]
    exact hs
  exact run_inv hstep hexit (.refl st) h

/-! ### Entering a bucket -/

theorem ids_transcriptItemsFrom (msgs : List Message) : ∀ n : ℕ,
    ids (transcriptItemsFrom env.host n msgs) = (List.range' n msgs.length).map (drawnId env) := by
  induction msgs with
  | nil => intro n; rfl
  | cons msg msgs ih =>
    intro n
    simp only [ids] at ih ⊢
    simp [transcriptItemsFrom, ih, List.range'_succ, drawnId]

/-- A merged transcript carries exactly the ids drawn for it. -/
theorem ids_compressTranscriptItems (n : ℕ) (items : List ContextItem) :
    ids (compressTranscriptItems env n items) =
      (List.range' n (compressTranscriptItems env n items).length).map (drawnId env) := by
  rw [compressTranscriptItems]
  split_ifs with h
  · rw [h]; rfl
  · rw [ids_transcriptItemsFrom, length_transcriptItemsFrom]

theorem mem_ids_compressTranscriptItems {n : ℕ} {items : List ContextItem} {i : Text}
    (h : i ∈ ids (compressTranscriptItems env n items)) :
    ∃ k, n ≤ k ∧ k < n + (compressTranscriptItems env n items).length ∧ i = drawnId env k := by
  rw [ids_compressTranscriptItems, List.mem_map] at h
  obtain ⟨k, hk, rfl⟩ := h
  rw [List.mem_range'_1] at hk
  exact ⟨k, hk.1, hk.2, rfl⟩

theorem nodup_ids_compressTranscriptItems {n m : ℕ} {known : List Text} {items : List ContextItem}
    (hfresh : FreshIds env m known) (hm : n + (compressTranscriptItems env n items).length ≤ m) :
    (ids (compressTranscriptItems env n items)).Nodup := by
  rw [ids_compressTranscriptItems]
  refine List.Nodup.map_on ?_ List.nodup_range'
  intro i hi j hj hij
  rw [List.mem_range'_1] at hi hj
  exact hfresh.distinct i (by omega) j (by omega) hij

/-- The minimal representation of a bucket has a selection of its ids. -/
theorem subperm_ids_minimizeBucket (items : List ContextItem) :
    (ids (minimizeBucket env policy bucket items)).Subperm (ids items) := by
  rw [minimizeBucket]
  split_ifs with hm
  · rw [applyMinBucketRepresentation]
    dsimp only
    split_ifs
    · exact List.Subperm.refl _
    · set keep := (sortItems items).take
        (max 1 (policy.minimumRequiredItems.getD bucket 1)).toNat with hkeep
      rw [ids, List.map_map]
      have hmap : ∀ l : List ContextItem, l.map ((·.id) ∘ fun item =>
          if policy.allowSummarySubstitute.getD bucket false = true ∧
              item.kind ∈ [.workingMemory, .semanticSummary] then
            clipContent item (summaryLines item.content) "min_bucket_summary"
          else env.truncate
            (max 32 (policy.minBucketTokens.getD bucket 0 / (max 1 keep.length : ℕ))) item) =
          ids l := by
        intro l
        refine List.map_congr_left fun item _ => ?_
        simp only [Function.comp_apply]
        split_ifs
        · rfl
        · exact (reworded_truncate item).id_eq
      rw [hmap]
      exact ((List.take_sublist _ _).map _).subperm.trans (ids_perm (sortItems_perm items)).subperm
  · exact List.Subperm.refl _

/-- What a minimal representation leaves out is put with the compressed items. -/
theorem mem_ids_minimizeBucket {merged : List ContextItem} {i : Text} (hi : i ∈ ids merged) :
    i ∈ ids (minimizeBucket env policy bucket merged) ∨
      i ∈ ids (if Minimizes env policy bucket merged then
        merged.filter (· ∉ minimizeBucket env policy bucket merged) else []) := by
  obtain ⟨x, hx, rfl⟩ := List.mem_map.1 hi
  by_cases hmin : Minimizes env policy bucket merged
  · rw [if_pos hmin]
    by_cases hin : x ∈ minimizeBucket env policy bucket merged
    · exact Or.inl (mem_ids_of_mem hin)
    · exact Or.inr (mem_ids_of_mem (List.mem_filter.2 ⟨hx, by simpa using hin⟩))
  · rw [minimizeBucket, if_neg hmin]
    exact Or.inl hi

theorem nodup_of_subperm {l m : List Text} (h : l.Subperm m) (hm : m.Nodup) : l.Nodup := by
  obtain ⟨k, hk, hkm⟩ := h
  exact hk.nodup_iff.1 (hkm.nodup hm)

/-- What entering a bucket does to the books: the ids of the bucket are in the bucket or compressed,
    and what is in the bucket carries ids of the group or freshly drawn ones. -/
structure Entered (env : Env) (policy : PromptContextPolicy) (bucket : Bucket)
    (group : List ContextItem) (acc : Acc) (st : Stage) : Prop where
  nodup : (ids st.items).Nodup
  origin : ∀ i ∈ ids st.items, i ∈ ids group ∨
    ∃ k, acc.nextId ≤ k ∧ k < acc.nextId + idsDrawn env policy bucket group acc.nextId ∧
      i = drawnId env k
  covered : ∀ i ∈ ids group, i ∈ ids st.items ∨ i ∈ ids st.compressed
  compressed : acc.compressed ⊆ st.compressed
  dropped : st.dropped = acc.dropped

theorem enterBucket_entered (env : Env) (policy : PromptContextPolicy) (bucket : Bucket) {m : ℕ}
    {known : List Text} {group : List ContextItem} {acc : Acc} (hnodup : (ids group).Nodup)
    (hfresh : FreshIds env m known)
    (hm : acc.nextId + idsDrawn env policy bucket group acc.nextId ≤ m) :
    Entered env policy bucket group acc (enterBucket env policy bucket group acc) := by
  set sorted := sortItems group with hsorted
  set merged := mergeTranscript env policy bucket acc.nextId sorted with hmerged
  set items := minimizeBucket env policy bucket merged with hitems
  have hst : enterBucket env policy bucket group acc =
      ⟨items, acc.compressed ++ (if MergesTranscript policy bucket sorted then sorted else []) ++
        (if Minimizes env policy bucket merged then merged.filter (· ∉ items) else []),
        acc.dropped⟩ := rfl
  have hperm : (ids sorted).Perm (ids group) := ids_perm (sortItems_perm group)
  have hsub : (ids items).Subperm (ids merged) := subperm_ids_minimizeBucket merged
  have hstay : ∀ i ∈ ids merged, i ∈ ids items ∨
      i ∈ ids (if Minimizes env policy bucket merged then merged.filter (· ∉ items) else []) :=
    fun i hi => mem_ids_minimizeBucket hi
  rw [hst]
  by_cases hmt : MergesTranscript policy bucket sorted
  · have hmeq : merged = compressTranscriptItems env acc.nextId sorted := by
      rw [hmerged, mergeTranscript, if_pos hmt]
    have hdrawn : idsDrawn env policy bucket group acc.nextId =
        (compressTranscriptItems env acc.nextId sorted).length := by
      rw [idsDrawn, ← hsorted, if_pos hmt]
    rw [hdrawn] at hm
    refine ⟨?_, fun i hi => Or.inr ?_, fun i hi => Or.inr ?_, fun x hx => ?_, rfl⟩
    · rw [hmeq] at hsub
      exact nodup_of_subperm hsub (nodup_ids_compressTranscriptItems hfresh hm)
    · rw [hdrawn]
      exact mem_ids_compressTranscriptItems (hmeq ▸ hsub.subset hi)
    · rw [if_pos hmt, ids_append, ids_append]
      exact List.mem_append_left _ (List.mem_append_right _ (hperm.mem_iff.2 hi))
    · exact List.mem_append_left _ (List.mem_append_left _ hx)
  · have hmeq : merged = sorted := by rw [hmerged, mergeTranscript, if_neg hmt]
    rw [hmeq] at hsub hstay
    refine ⟨?_, fun i hi => Or.inl (hperm.subset (hsub.subset hi)), fun i hi => ?_, fun x hx => ?_,
      rfl⟩
    · exact nodup_of_subperm hsub (hperm.nodup_iff.2 hnodup)
    · rcases hstay i (hperm.mem_iff.2 hi) with h | h
      · exact Or.inl h
      · rw [hmeq, ids_append]
        exact Or.inr (List.mem_append_right _ h)
    · exact List.mem_append_left _ (List.mem_append_left _ hx)

/-! ### Keeping the books -/

/-- Items that change places between `kept` and `dropped` stay in the books. -/
theorem Accounted.of_perm {seen : List Text} {acc acc' : Acc} (hacc : Accounted env seen acc)
    (hperm : (ids (acc'.kept ++ acc'.dropped)).Perm (ids (acc.kept ++ acc.dropped)))
    (hcompressed : acc.compressed ⊆ acc'.compressed) (hnext : acc'.nextId = acc.nextId) :
    Accounted env seen acc' := by
  refine ⟨hperm.nodup_iff.2 hacc.nodup, fun i hi => ?_, fun i hi => ?_⟩
  · rw [hnext]
    exact hacc.origin i (hperm.subset hi)
  · have hstays : i ∈ ids (acc.kept ++ acc.dropped) →
        i ∈ ids acc'.kept ∨ i ∈ ids acc'.compressed ∨ i ∈ ids acc'.dropped := by
      intro hi
      have hi' := hperm.mem_iff.2 hi
      rw [ids_append, List.mem_append] at hi'
      exact hi'.imp_right Or.inr
    rw [ids_append, List.mem_append] at hstays
    rcases hacc.covered i hi with hk | hc | hd
    · exact hstays (Or.inl hk)
    · exact Or.inr (Or.inl (ids_subset hcompressed hc))
    · exact hstays (Or.inr hd)

/-- Ids of a new group and freshly drawn ones join the books without a clash. -/
theorem Accounted.join {m n : ℕ} {seen group known old new : List Text} {acc : Acc}
    {kept dropped : List ContextItem} (hacc : Accounted env seen acc)
    (hfresh : FreshIds env m known) (hseen : seen ⊆ known) (hknown : group ⊆ known)
    (hgroup : ∀ i ∈ group, i ∉ seen) (hperm : (ids (kept ++ dropped)).Perm (old ++ new))
    (hold : old.Sublist (ids (acc.kept ++ acc.dropped))) (hnew : new.Nodup)
    (horigin : ∀ i ∈ new, i ∈ group ∨ ∃ k, acc.nextId ≤ k ∧ k < n ∧ i = drawnId env k)
    (hnext : acc.nextId ≤ n) (hm : n ≤ m) :
    (ids (kept ++ dropped)).Nodup ∧
      ∀ i ∈ ids (kept ++ dropped), i ∈ seen ++ group ∨ ∃ k < n, i = drawnId env k := by
  refine ⟨?_, fun i hi => ?_⟩
  · rw [hperm.nodup_iff, List.nodup_append]
    refine ⟨hold.nodup hacc.nodup, hnew, ?_⟩
    rintro i hi j hj rfl
    rcases hacc.origin i (hold.subset hi) with hs | ⟨k, hk, hik⟩ <;>
      rcases horigin i hj with hg | ⟨k', hk', hkm', hik'⟩
    · exact hgroup i hg hs
    · exact hfresh.unknown k' (by omega) (hik' ▸ hseen hs)
    · exact hfresh.unknown k (by omega) (hik ▸ hknown hg)
    · have := hfresh.distinct k (by omega) k' (by omega) (hik.symm.trans hik')
      omega
  · rw [List.mem_append]
    rcases List.mem_append.1 (hperm.subset hi) with hi | hi
    · rcases hacc.origin i (hold.subset hi) with hs | ⟨k, hk, hik⟩
      · exact Or.inl (Or.inl hs)
      · exact Or.inr ⟨k, hk.trans_le hnext, hik⟩
    · rcases horigin i hi with hg | ⟨k, -, hk, hik⟩
      · exact Or.inl (Or.inr hg)
      · exact Or.inr ⟨k, hk, hik⟩

/-! ### The books through the buckets -/

theorem reduceBucket_accounted {fuel m : ℕ} {seen known : List Text} {acc acc' : Acc}
    {group : Bucket × List ContextItem} (hacc : Accounted env seen acc)
    (hnodup : (ids group.2).Nodup) (hnew : ∀ i ∈ ids group.2, i ∉ seen)
    (hfresh : FreshIds env m known) (hseen : seen ⊆ known) (hgroup : ids group.2 ⊆ known)
    (hm : acc'.nextId ≤ m) (h : reduceBucket env policy fuel acc group = some acc') :
    Accounted env (seen ++ ids group.2) acc' := by
  rw [reduceBucket, Option.map_eq_some_iff] at h
  obtain ⟨st, hrun, rfl⟩ := h
  have hent := enterBucket_entered env policy group.1 hnodup hfresh hm
  set st₀ := enterBucket env policy group.1 group.2 acc with hst₀
  have hfol := run_capStep_follows hrun
  have hperm : (ids ((acc.kept ++ st.items) ++ st.dropped)).Perm
      (ids (acc.kept ++ acc.dropped) ++ ids st₀.items) := by
    have hstage := hfol.perm
    rw [hent.dropped] at hstage
    simp only [ids_append, List.append_assoc] at hstage ⊢
    exact (hstage.trans List.perm_append_comm).append_left _
  obtain ⟨hdistinct, horigin⟩ := hacc.join hfresh hseen hgroup hnew hperm (List.Sublist.refl _)
    hent.nodup hent.origin (Nat.le_add_right _ _) hm
  refine ⟨hdistinct, horigin, fun i hi => ?_⟩
  have hloop : ∀ j ∈ ids (st₀.items ++ st₀.dropped), j ∈ ids (acc.kept ++ st.items) ∨
      j ∈ ids st.compressed ∨ j ∈ ids st.dropped := by
    intro j hj
    have hj' := hfol.perm.mem_iff.2 hj
    rw [ids_append, List.mem_append] at hj' ⊢
    tauto
  rcases List.mem_append.1 hi with hi | hi
  · rcases hacc.covered i hi with hk | hc | hd
    · rw [ids_append, List.mem_append]
      exact Or.inl (Or.inl hk)
    · exact Or.inr (Or.inl (ids_subset (List.Subset.trans hent.compressed hfol.compressed) hc))
    · exact hloop i (by rw [ids_append, hent.dropped]; exact List.mem_append_right _ hd)
  · rcases hent.covered i hi with hk | hc
    · exact hloop i (by rw [ids_append]; exact List.mem_append_left _ hk)
    · exact Or.inr (Or.inl (ids_subset hfol.compressed hc))

theorem reduceBuckets_nextId_le {fuel : ℕ} (groups : List (Bucket × List ContextItem)) :
    ∀ {acc acc' : Acc}, reduceBuckets env policy fuel groups acc = some acc' →
      acc.nextId ≤ acc'.nextId := by
  induction groups with
  | nil => intro acc acc' h; rw [Option.some.inj h]
  | cons group groups ih =>
    intro acc acc' h
    rw [reduceBuckets, Option.bind_eq_some_iff] at h
    obtain ⟨acc₁, h₁, h₂⟩ := h
    rw [reduceBucket, Option.map_eq_some_iff] at h₁
    obtain ⟨st, -, rfl⟩ := h₁
    exact (Nat.le_add_right _ _).trans (ih h₂)

theorem reduceBuckets_accounted {fuel m : ℕ} {known : List Text} (hfresh : FreshIds env m known)
    (groups : List (Bucket × List ContextItem)) : ∀ {seen : List Text} {acc acc' : Acc},
    Accounted env seen acc → (seen ++ ids (groups.flatMap Prod.snd)).Nodup →
      seen ++ ids (groups.flatMap Prod.snd) ⊆ known → acc'.nextId ≤ m →
        reduceBuckets env policy fuel groups acc = some acc' →
          Accounted env (seen ++ ids (groups.flatMap Prod.snd)) acc' := by
  induction groups with
  | nil =>
    intro seen acc acc' hacc _ _ _ h
    rw [← Option.some.inj h]
    simpa [ids] using hacc
  | cons group groups ih =>
    intro seen acc acc' hacc hnodup hknown hm h
    rw [reduceBuckets, Option.bind_eq_some_iff] at h
    obtain ⟨acc₁, h₁, h₂⟩ := h
    rw [List.flatMap_cons, ids_append, ← List.append_assoc] at hnodup hknown ⊢
    obtain ⟨hleft, -, -⟩ := List.nodup_append.1 hnodup
    obtain ⟨-, hgroup, hdisj⟩ := List.nodup_append.1 hleft
    have hsub : seen ++ ids group.2 ⊆ known := fun i hi => hknown (List.mem_append_left _ hi)
    have hnext := reduceBuckets_nextId_le groups h₂
    refine ih (reduceBucket_accounted hacc hgroup ?_ hfresh ?_ ?_ (hnext.trans hm) h₁) hnodup hknown
      hm h₂
    · intro i hi hs
      exact hdisj i hs i hi rfl
    · exact fun i hi => hsub (List.mem_append_left _ hi)
    · exact fun i hi => hsub (List.mem_append_right _ hi)

/-! ### The books through the global passes -/

theorem globalStep_nextId_le {acc acc' : Acc} (h : GlobalStep env policy acc acc') :
    acc.nextId ≤ acc'.nextId := by
  cases h with
  | shorten => exact le_rfl
  | drop => exact le_rfl
  | merge => exact Nat.le_add_right _ _

theorem globalSteps_nextId_le {acc acc' : Acc}
    (h : Relation.ReflTransGen (GlobalStep env policy) acc acc') : acc.nextId ≤ acc'.nextId := by
  induction h with
  | refl => exact le_rfl
  | tail _ hstep ih => exact ih.trans (globalStep_nextId_le hstep)

theorem ids_erase_perm {item : ContextItem} {kept : List ContextItem} (h : item ∈ kept) :
    (ids kept).Perm (item.id :: ids (kept.erase item)) := ids_perm (List.perm_cons_erase h)

/-- A transcript that is merged leaves the books with its old items compressed. -/
theorem merge_accounted {m : ℕ} {seen known : List Text} {acc : Acc}
    {bucketKept newItems : List ContextItem} (hfresh : FreshIds env m known) (hseen : seen ⊆ known)
    (hm : acc.nextId + newItems.length ≤ m) (hacc : Accounted env seen acc)
    (hkept : bucketKept = acc.kept.filter fun i => i.resolveBucket = .recentTranscript)
    (hnew : newItems = compressTranscriptItems env acc.nextId bucketKept) :
    Accounted env seen { acc with
      kept := acc.kept.diff bucketKept ++ newItems
      compressed := acc.compressed ++ bucketKept
      nextId := acc.nextId + newItems.length } := by
  have hrest : acc.kept.diff bucketKept =
      acc.kept.filter fun i => !decide (i.resolveBucket = .recentTranscript) := by
    rw [hkept, diff_filter]
  have hold : (ids (acc.kept.diff bucketKept ++ acc.dropped)).Sublist
      (ids (acc.kept ++ acc.dropped)) := by
    rw [hrest]
    exact (List.filter_sublist.append_right _).map _
  have hperm : (ids ((acc.kept.diff bucketKept ++ newItems) ++ acc.dropped)).Perm
      (ids (acc.kept.diff bucketKept ++ acc.dropped) ++ ids newItems) := by
    simp only [ids_append, List.append_assoc]
    exact List.perm_append_comm.append_left _
  have hdistinct : (ids newItems).Nodup := by
    rw [hnew] at hm ⊢
    exact nodup_ids_compressTranscriptItems hfresh hm
  have hdrawn : ∀ i ∈ ids newItems, i ∈ ([] : List Text) ∨
      ∃ k, acc.nextId ≤ k ∧ k < acc.nextId + newItems.length ∧ i = drawnId env k := by
    intro i hi
    rw [hnew] at hi ⊢
    exact Or.inr (mem_ids_compressTranscriptItems hi)
  obtain ⟨hnodup, horigin⟩ := hacc.join hfresh hseen (List.nil_subset _) (by simp) hperm hold
    hdistinct hdrawn (Nat.le_add_right _ _) hm
  rw [List.append_nil] at horigin
  refine ⟨hnodup, horigin, fun i hi => ?_⟩
  rcases hacc.covered i hi with hk | hc | hd
  · obtain ⟨x, hx, rfl⟩ := List.mem_map.1 hk
    by_cases hb : x.resolveBucket = .recentTranscript
    · refine Or.inr (Or.inl (mem_ids_of_mem (List.mem_append_right _ ?_)))
      rw [hkept]
      exact List.mem_filter.2 ⟨hx, by simpa using hb⟩
    · refine Or.inl (mem_ids_of_mem (List.mem_append_left _ ?_))
      rw [hrest]
      exact List.mem_filter.2 ⟨hx, by simpa using hb⟩
  · exact Or.inr (Or.inl (by simp [hc]))
  · exact Or.inr (Or.inr hd)

theorem globalStep_accounted {m : ℕ} {seen known : List Text} {acc acc' : Acc}
    (hfresh : FreshIds env m known) (hseen : seen ⊆ known) (hm : acc'.nextId ≤ m)
    (hacc : Accounted env seen acc) (h : GlobalStep env policy acc acc') :
    Accounted env seen acc' := by
  cases h with
  | shorten item hmem hcomp _ =>
    have hid : (env.truncate (halfTokens item) item).id = item.id := (reworded_truncate item).id_eq
    have hkept : (ids (acc.kept.erase item ++ [env.truncate (halfTokens item) item])).Perm
        (ids acc.kept) := by
      rw [ids_append, ids_singleton, hid]
      exact (List.perm_append_singleton _ _).trans (ids_erase_perm hmem).symm
    have hall := hkept.append_right (ids acc.dropped)
    rw [← ids_append, ← ids_append] at hall
    exact hacc.of_perm hall (List.subset_append_left ..) rfl
  | drop item hmem hdrop =>
    refine hacc.of_perm (ids_perm ?_) (List.Subset.refl _) rfl
    rw [← List.append_assoc]
    refine (List.perm_append_singleton _ _).trans ?_
    exact ((List.perm_cons_erase hmem).append_right acc.dropped).symm
  | merge bucketKept newItems hkept hne hnew =>
    exact merge_accounted hfresh hseen hm hacc hkept hnew

/-- The books stay right through any number of global changes. -/
theorem globalSteps_accounted {m : ℕ} {seen known : List Text} {acc acc' : Acc}
    (hfresh : FreshIds env m known) (hseen : seen ⊆ known) (hm : acc'.nextId ≤ m)
    (hacc : Accounted env seen acc)
    (h : Relation.ReflTransGen (GlobalStep env policy) acc acc') : Accounted env seen acc' := by
  induction h with
  | refl => exact hacc
  | tail _ hstep ih =>
    exact globalStep_accounted hfresh hseen hm (ih ((globalStep_nextId_le hstep).trans hm)) hstep

/-! ### The bound -/

/-- What the overflow pass never drops. -/
def Protected (i : ContextItem) : Prop := i.priority = .critical ∨ i.droppable = false

instance (i : ContextItem) : Decidable (Protected i) := inferInstanceAs (Decidable (_ ∨ _))

/-- Within the budget, or only protected items left. -/
def Bounded (budget : ℤ) (kept : List ContextItem) : Prop :=
  sumItemTokens kept ≤ budget ∨ ∀ i ∈ kept, Protected i

theorem subperm_of_subperm_cons {item : ContextItem} {l items : List ContextItem}
    (h : l.Subperm (item :: items)) (hnot : item ∉ l) : l.Subperm items := by
  have herase := h.erase item
  rwa [List.erase_of_not_mem hnot, List.erase_cons_head] at herase

/-- While the unprotected kept items are among those still to be visited, the pass ends bounded. -/
theorem dropOverflow_bounded {budget : ℤ} (items : List ContextItem) : ∀ {acc acc' : Acc},
    (acc.kept.filter fun i => ¬ Protected i).Subperm items →
      dropOverflow budget items acc = some acc' → Bounded budget acc'.kept := by
  induction items with
  | nil =>
    intro acc acc' hsub h
    rw [dropOverflow, Option.some.injEq] at h
    rw [← h]
    refine Or.inr fun i hi => ?_
    by_contra hp
    have := hsub.subset (List.mem_filter.2 ⟨hi, by simpa using hp⟩)
    simp at this
  | cons item items ih =>
    intro acc acc' hsub h
    rw [dropOverflow] at h
    split_ifs at h with hle hkeep
    · rw [← Option.some.inj h]
      exact Or.inl hle
    · exact ih (subperm_of_subperm_cons hsub fun hmem =>
        of_decide_eq_true (List.mem_filter.1 hmem).2 hkeep) h
    · rw [Option.bind_eq_some_iff] at h
      obtain ⟨kept, hrem, h⟩ := h
      rw [removeItem] at hrem
      split_ifs at hrem with hmem
      rw [Option.some.injEq] at hrem
      refine ih ?_ h
      have herase := hsub.erase item
      rw [List.erase_cons_head, List.erase_filter] at herase
      rwa [← hrem]

theorem fitBudget_bounded {budget : ℤ} {acc acc' : Acc}
    (h : fitBudget env policy budget acc = some acc') : Bounded budget acc'.kept := by
  rw [fitBudget] at h
  split_ifs at h with hle
  · rw [← Option.some.inj h]
    exact Or.inl hle
  · rw [Option.bind_eq_some_iff] at h
    obtain ⟨acc₁, -, h⟩ := h
    split_ifs at h with hle₁
    · rw [← Option.some.inj h]
      exact Or.inl hle₁
    · exact dropOverflow_bounded _
        (List.filter_sublist.subperm.trans (sortByRankDesc_perm acc₁.kept).symm.subperm) h

/-! ### The whole reduction -/

theorem ids_dedupedItems_sublist (env : Env) (items : List ContextItem) :
    (ids (dedupedItems env items)).Sublist (ids items) := by
  have hids : ids (items.map estimateItemTokens) = ids items := by
    simp [ids, Function.comp_def]
  rw [← hids]
  exact (dedupe_sublist env.host _).map _

/-- After a reduction the books are right for all items that survived deduplication. -/
theorem reduceContextItems_accounted {budget : ℤ} {fuel : ℕ} {items : List ContextItem} {acc : Acc}
    (hids : (ids items).Nodup) (hfresh : FreshIds env acc.nextId (ids items))
    (h : reduceContextItems env policy budget fuel items = some acc) :
    Accounted env (ids ((byBucket (dedupedItems env items)).flatMap Prod.snd)) acc := by
  rw [reduceContextItems, Option.bind_eq_some_iff] at h
  obtain ⟨acc₁, h₁, h₂⟩ := h
  obtain ⟨acc₂, heq, hsteps⟩ := fitBudget_steps env policy budget acc₁
  rw [heq, Option.some.injEq] at h₂
  subst h₂
  have hperm : (ids ((byBucket (dedupedItems env items)).flatMap Prod.snd)).Perm
      (ids (dedupedItems env items)) :=
    ids_perm (PyDict.flatMap_groupBy_perm ContextItem.resolveBucket _)
  have hsub := ids_dedupedItems_sublist env items
  have hknown : ids ((byBucket (dedupedItems env items)).flatMap Prod.snd) ⊆ ids items :=
    fun i hi => hsub.subset (hperm.subset hi)
  have hempty : Accounted env [] ({} : Acc) := ⟨by simp [ids], by simp [ids], by simp⟩
  have hbuckets := reduceBuckets_accounted hfresh (byBucket (dedupedItems env items)) hempty
    (by simpa using hperm.nodup_iff.2 (hsub.nodup hids)) (by simpa using hknown)
    (globalSteps_nextId_le hsteps) h₁
  rw [List.nil_append] at hbuckets
  exact globalSteps_accounted hfresh hknown le_rfl hbuckets hsteps

/-- CORRECT: every item that survives deduplication is kept, compressed or dropped; nothing is both
    kept and dropped; and the kept items fit the budget or are all protected. -/
theorem reduce_conserves (env : Env) (policy : PromptContextPolicy) (budget : ℤ) (fuel : ℕ)
    (items : List ContextItem) (acc : Acc) (hids : (ids items).Nodup)
    (hrun : reduceContextItems env policy budget fuel items = some acc)
    (hfresh : FreshIds env acc.nextId (ids items)) :
    (∀ x ∈ dedupedItems env items,
        x.id ∈ ids acc.kept ∨ x.id ∈ ids acc.compressed ∨ x.id ∈ ids acc.dropped) ∧
      (∀ i ∈ ids acc.kept, i ∉ ids acc.dropped) ∧
      (sumItemTokens acc.kept ≤ budget ∨
        ∀ i ∈ acc.kept, i.priority = .critical ∨ i.droppable = false) := by
  have hacc := reduceContextItems_accounted hids hfresh hrun
  refine ⟨fun x hx => ?_, fun i hi hd => ?_, ?_⟩
  · have hperm := PyDict.flatMap_groupBy_perm ContextItem.resolveBucket (dedupedItems env items)
    exact hacc.covered x.id (mem_ids_of_mem (hperm.mem_iff.2 hx))
  · have hnodup := hacc.nodup
    rw [ids_append] at hnodup
    exact (List.nodup_append.1 hnodup).2.2 i hi i hd rfl
  · rw [reduceContextItems, Option.bind_eq_some_iff] at hrun
    obtain ⟨acc₁, -, h⟩ := hrun
    exact fitBudget_bounded h

/-- A goal and a transcript over its cap, for a budget that merges the transcript a second time. -/
def mergedItems : List ContextItem :=
  [{ id := "turn_1".toList, kind := .userTurn, source := .session
     content := "draft the release notes".toList, priority := .critical, compressible := false
     droppable := false, bucket := some .currentTurn },
   { id := "ctx_a".toList, kind := .recentHistory, source := .session
     content := "list the open tasks".toList, estimatedTokens := 6000, droppable := false },
   { id := "ctx_b".toList, kind := .recentHistory, source := .session
     role := "assistant".toList, content := "three tasks are open".toList, estimatedTokens := 6000
     droppable := false }]

def mergedEnv : Env where
  host := asciiHost
    [("draft the release notes".toList,
        "686bcd9ea5066c38de91e9c6552c1123131a0b31de87906cef7783f4ee5dba8a".toList),
      ("list the open tasks".toList,
        "e6f345d0867753639d4aa0fc082a12df82c0407bb10555df602e4289991eb74d".toList),
      ("three tasks are open".toList,
        "9b893557aaa69da92be6e614fa3788232571f96e9ca12e882a103783a55b0cb7".toList)]
  settings := {}
  query := []
  summarize _ := ⟨[], [], []⟩

theorem reduce_conserves_merged : ∃ acc,
    reduceContextItems mergedEnv (policies .reasoning) 4 5 mergedItems = some acc ∧
      (∀ x ∈ dedupedItems mergedEnv mergedItems,
        x.id ∈ ids acc.kept ∨ x.id ∈ ids acc.compressed ∨ x.id ∈ ids acc.dropped) ∧
      (∀ i ∈ ids acc.kept, i ∉ ids acc.dropped) ∧
      (sumItemTokens acc.kept ≤ 4 ∨
        ∀ i ∈ acc.kept, i.priority = .critical ∨ i.droppable = false) := by
  have hdrawn : (reduceContextItems mergedEnv (policies .reasoning) 4 5 mergedItems).map
      (·.nextId) = some 4 := by decide +kernel
  obtain ⟨acc, hrun, hnext⟩ := Option.map_eq_some_iff.1 hdrawn
  have hfresh : FreshIds mergedEnv acc.nextId (ids mergedItems) := by
    rw [hnext]
    exact ⟨by decide +kernel, by decide +kernel⟩
  exact ⟨acc, hrun, reduce_conserves mergedEnv (policies .reasoning) 4 5 mergedItems acc
    (by decide +kernel) hrun hfresh⟩

end AgentLangraph.Context
