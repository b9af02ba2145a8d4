import AgentLangraph.Context.Order
import AgentLangraph.Context.Termination

/-! When a required bucket still has something to say. Three things can take its items: the
    deduplication, which compares items of all buckets; the loop of the bucket, which drops from the
    end down to the cap; and the global passes, which drop what is droppable and merge the
    transcript. So an item is safe that survives deduplication, stands within the cap and is not
    droppable; the transcript is safe when it fits and its last message can be told again.

        dedupe → bucket (within the cap) → degrade (not droppable) → kept -/

namespace AgentLangraph.Context
open PyText Loop

/-! ### Within the cap -/

/-- The longest start of the list that fits. -/
def fitting : ℤ → List ContextItem → List ContextItem
  | _, [] => []
  | cap, i :: items => if cost i ≤ cap then i :: fitting (cap - cost i) items else []

theorem fitting_isPrefix (items : List ContextItem) : ∀ cap : ℤ, fitting cap items <+: items := by
  induction items with
  | nil => intro cap; exact List.prefix_refl _
  | cons i items ih =>
    intro cap
    rw [fitting]
    split_ifs
    · exact (List.prefix_cons_inj i).2 (ih _)
    · exact List.nil_prefix

theorem sumItemTokens_fitting_le (items : List ContextItem) : ∀ cap : ℤ, 0 ≤ cap →
    sumItemTokens (fitting cap items) ≤ cap := by
  induction items with
  | nil => intro cap hcap; exact hcap
  | cons i items ih =>
    intro cap hcap
    rw [fitting]
    split_ifs with hle
    · have hrest := ih (cap - cost i) (by omega)
      rw [sumItemTokens_cons]
      omega
    · exact hcap

/-- The items a bucket's loop does not drop. -/
def withinCap (policy : PromptContextPolicy) (bucket : Bucket) (items : List ContextItem) :
    List ContextItem :=
  if CompressOnly policy bucket then items else fitting (policy.cap bucket) items

variable {env : Env} {policy : PromptContextPolicy} {bucket : Bucket}

/-- The loop leaves whatever fits. -/
theorem Leaves.fitting_prefix {fuel : ℕ} {group items : List ContextItem}
    (h : Leaves env policy fuel (bucket, group) items) (hcap : 0 ≤ policy.cap bucket)
    (hb : bucket ≠ .recentTranscript) (honly : ¬ CompressOnly policy bucket) :
    fitting (policy.cap bucket) (loopEntry env policy bucket group) <+: items := by
  obtain ⟨acc, st, hrun, rfl⟩ := h
  set fits := fitting (policy.cap bucket) (loopEntry env policy bucket group) with hfits
  have hstep : ∀ s s' : Stage, fits <+: s.items → capStep env policy bucket s = .inl s' →
      fits <+: s'.items := by
    intro s s' hs h
    rcases capStep_inl h with ⟨rest, victim, hst, hlt, ⟨ho, -⟩ | ⟨-, rfl⟩⟩
    · exact absurd ho honly
    · have hle := sumItemTokens_fitting_le (loopEntry env policy bucket group) _ hcap
      rw [hst] at hs
      rcases List.prefix_concat_iff.1 hs with heq | hrest
      · -- the whole list is over the cap, so it is not what fits
        rw [← hfits, heq, ← hst] at hle
        omega
      · exact hrest
  have hexit : ∀ s r : Stage, fits <+: s.items → capStep env policy bucket s = .inr r →
      fits <+: r.items := by
    intro s r hs h
    rwa [(capStep_inr h).1]
  refine Loop.run_inv hstep hexit ?_ hrun
  rw [enterBucket_items env policy hb]
  exact fitting_isPrefix _ _

/-- A loop that only shortens leaves the items as droppable as they were. -/
theorem Leaves.map_droppable {fuel : ℕ} {group items : List ContextItem}
    (h : Leaves env policy fuel (bucket, group) items) (honly : CompressOnly policy bucket) :
    items.map (·.droppable) = (loopEntry env policy bucket group).map (·.droppable) := by
  obtain ⟨acc, st, hrun, rfl⟩ := h
  set flags := (loopEntry env policy bucket group).map (·.droppable) with hflags
  have hstep : ∀ s s' : Stage, s.items.map (·.droppable) = flags →
      capStep env policy bucket s = .inl s' → s'.items.map (·.droppable) = flags := by
    intro s s' hs h
    rcases capStep_inl h with ⟨rest, victim, hst, -, ⟨-, rfl⟩ | ⟨hnot, -⟩⟩
    · rw [hst, List.map_append] at hs
      rw [hst, truncateLast_concat, List.map_append, ← hs, List.map_singleton, List.map_singleton,
        Env.truncate, (reworded_truncate victim).droppable_eq]
    · exact absurd honly hnot
  have hexit : ∀ s r : Stage, s.items.map (·.droppable) = flags →
      capStep env policy bucket s = .inr r → r.items.map (·.droppable) = flags := by
    intro s r hs h
    rwa [(capStep_inr h).1]
  refine Loop.run_inv hstep hexit ?_ hrun
  rw [enterBucket_items env policy honly.2.2]

/-- An item within the cap leaves one that is as droppable. -/
theorem Leaves.exists_of_withinCap {fuel : ℕ} {group items : List ContextItem}
    (h : Leaves env policy fuel (bucket, group) items) (hcap : 0 ≤ policy.cap bucket)
    (hb : bucket ≠ .recentTranscript) {x : ContextItem}
    (hx : x ∈ withinCap policy bucket (loopEntry env policy bucket group)) :
    ∃ i ∈ items, i.droppable = x.droppable := by
  rw [withinCap] at hx
  split_ifs at hx with honly
  · have hflag : x.droppable ∈ (loopEntry env policy bucket group).map (·.droppable) :=
      List.mem_map_of_mem hx
    rw [← h.map_droppable honly] at hflag
    exact List.mem_map.1 hflag
  · exact ⟨x, (h.fitting_prefix hcap hb honly).subset hx, rfl⟩

/-! ### Items that the global passes leave -/

/-- Something of the bucket is kept that nothing may drop. -/
def Holds (bucket : Bucket) (acc : Acc) : Prop :=
  ∃ i ∈ acc.kept, i.resolveBucket = bucket ∧ i.droppable = false

theorem globalStep_holds {acc acc' : Acc} (h : GlobalStep env policy acc acc')
    (hb : bucket ≠ .recentTranscript) (hold : Holds bucket acc) : Holds bucket acc' := by
  obtain ⟨i, hi, hib, hid⟩ := hold
  cases h with
  | shorten item hmem hcomp hbucket =>
    by_cases heq : i = item
    · subst heq
      have hr : Reworded i (env.truncate (halfTokens i) i) := reworded_truncate i
      exact ⟨_, List.mem_append_right _ List.mem_cons_self, hr.resolveBucket_eq.trans hib,
        hr.droppable_eq.trans hid⟩
    · exact ⟨i, List.mem_append_left _ ((List.mem_erase_of_ne heq).2 hi), hib, hid⟩
  | drop item hmem hdrop =>
    have hne : i ≠ item := by
      rintro rfl
      simp [hid] at hdrop
    exact ⟨i, (List.mem_erase_of_ne hne).2 hi, hib, hid⟩
  | merge bucketKept newItems hkept hne hnew =>
    refine ⟨i, List.mem_append_left _ ?_, hib, hid⟩
    rw [hkept, diff_filter, List.mem_filter]
    exact ⟨hi, by simp [hib, hb]⟩

theorem globalSteps_holds {acc acc' : Acc}
    (h : Relation.ReflTransGen (GlobalStep env policy) acc acc')
    (hb : bucket ≠ .recentTranscript) (hold : Holds bucket acc) : Holds bucket acc' := by
  induction h with
  | refl => exact hold
  | tail _ hstep ih => exact globalStep_holds hstep hb ih

/-! ### The last message of a merge -/

theorem lastN_concat (n : ℕ) (history : List Message) (msg : Message) :
    ∃ pre, lastN n (history ++ [msg]) = pre ++ [msg] := by
  rw [lastN]
  split_ifs with hn
  · exact ⟨history, rfl⟩
  · refine ⟨history.drop ((history ++ [msg]).length - n), List.drop_append_of_le_length ?_⟩
    rw [List.length_append, List.length_singleton]
    omega

theorem keepNewest_cons {budget : ℕ} {msg : Message} (h : msg.content.length ≤ budget)
    (older : List Message) : ∃ pre, keepNewest budget (msg :: older) = pre ++ [msg] :=
  ⟨_, by rw [keepNewest, if_pos h]⟩

theorem compressConversationHistory_concat (host : Host) {settings : Settings} {msg : Message}
    (h : msg.content.length ≤ settings.sessionMaxHistoryChars) (history : List Message) :
    ∃ pre, compressConversationHistory host settings (history ++ [msg]) = pre ++ [msg] := by
  rw [compressConversationHistory]
  split_ifs with hoff
  · exact ⟨history, rfl⟩
  · obtain ⟨pre, hpre⟩ := lastN_concat settings.sessionMaxHistoryTurns history msg
    obtain ⟨pre', hpre'⟩ := keepNewest_cons h pre.reverse
    rw [hpre]
    dsimp only
    rw [List.reverse_concat, hpre']
    split_ifs
    · exact ⟨pre, rfl⟩
    · exact ⟨omissionNote host _ :: pre', rfl⟩
    · exact ⟨pre', rfl⟩

theorem withSummary_concat (settings : Settings) (summary : Message) (recent : List Message)
    (msg : Message) : ∃ pre, withSummary settings summary (recent ++ [msg]) = pre ++ [msg] := by
  rw [withSummary]
  split_ifs
  · obtain ⟨pre, hpre⟩ :=
      lastN_concat (max 1 settings.contextCompressKeepRecentTurns) (summary :: recent) msg
    rw [List.cons_append] at hpre
    exact ⟨summary :: pre, by rw [hpre, List.cons_append]⟩
  · exact ⟨summary :: recent, rfl⟩

theorem recentOr_concat (keep : ℕ) {rawRecent : List Message} (history : List Message)
    {msg : Message} (h : rawRecent = [] ∨ ∃ pre, rawRecent = pre ++ [msg]) :
    ∃ pre, recentOr keep rawRecent (history ++ [msg]) = pre ++ [msg] := by
  rw [recentOr]
  split_ifs with hnil
  · exact lastN_concat keep history msg
  · exact h.resolve_left hnil

theorem buildSemanticContextSummary_concat {history rawRecent : List Message} {msg : Message}
    {fields : SummaryFields}
    (h : buildSemanticContextSummary env (history ++ [msg]) = some (fields, rawRecent)) :
    rawRecent = [] ∨ ∃ pre, rawRecent = pre ++ [msg] := by
  rw [buildSemanticContextSummary] at h
  split_ifs at h
  · rw [← (Prod.mk.inj (Option.some.inj h)).2]
    exact Or.inr (lastN_concat _ history msg)
  · exact Or.inl (Prod.mk.inj (Option.some.inj h)).2.symm

theorem applySemanticContextCompress_concat (env : Env) (history : List Message) (msg : Message) :
    ∃ pre, applySemanticContextCompress env (history ++ [msg]) = pre ++ [msg] := by
  rw [applySemanticContextCompress]
  split
  · exact ⟨history, rfl⟩
  · rename_i fields rawRecent hbuild
    obtain ⟨pre, hpre⟩ := recentOr_concat env.settings.contextCompressKeepRecentTurns history
      (buildSemanticContextSummary_concat hbuild)
    rw [hpre]
    exact withSummary_concat ..

/-- However a conversation is compressed, its last message stays the last, if it is not too long. -/
theorem compressMessages_concat {msg : Message}
    (h : msg.content.length ≤ env.settings.sessionMaxHistoryChars) (history : List Message) :
    ∃ pre, compressMessages env (history ++ [msg]) = pre ++ [msg] := by
  rw [compressMessages]
  split_ifs
  · exact applySemanticContextCompress_concat env history msg
  · exact compressConversationHistory_concat env.host h history

theorem transcriptItemsFrom_concat (host : Host) (msgs : List Message) (msg : Message) : ∀ n : ℕ,
    transcriptItemsFrom host n (msgs ++ [msg]) =
      transcriptItemsFrom host n msgs ++ [transcriptItem host (n + msgs.length) msg] := by
  induction msgs with
  | nil => intro n; rfl
  | cons m msgs ih =>
    intro n
    rw [List.cons_append, transcriptItemsFrom, ih, transcriptItemsFrom, List.cons_append,
      List.length_cons, Nat.add_right_comm, Nat.add_assoc n]

/-- A message read back from the item made of it. -/
theorem itemToMessage_transcriptItem (host : Host) (n : ℕ) {msg : Message} (hrole : msg.role ≠ [])
    (hdata : msg.data = PyDict.empty) : itemToMessage (transcriptItem host n msg) = msg := by
  have hat : metaGet ((PyDict.empty : Meta).set "at".toList msg.at_) "at" = msg.at_ := by
    rw [metaGet, PyDict.getD, PyDict.get?_set_self]
    rfl
  have hupd : ∀ d : Meta, d.update PyDict.empty = d := fun d => rfl
  cases msg with
  | mk role content at_ data =>
    subst hdata
    rw [transcriptItem]
    split_ifs <;>
      simp only [itemToMessage, fromMessage, if_neg hrole, hupd, hat, estimateItemTokens_role,
        estimateItemTokens_content, estimateItemTokens_data]

/-! ### The transcript -/

/-- A message that a merge tells again. -/
structure Retold (settings : Settings) (msg : Message) : Prop where
  ordinary : isOrdinary msg = true
  role : msg.role ≠ []
  short : msg.content.length ≤ settings.sessionMaxHistoryChars

/-- The transcript ends with `msg`, and nothing may drop an item of it. -/
structure EndsWith (msg : Message) (items : List ContextItem) : Prop where
  stays : ∀ i ∈ transcriptOf items, i.droppable = false
  last : ∃ rest i, transcriptOf items = rest ++ [i] ∧ itemToMessage i = msg

theorem EndsWith.congr {msg : Message} {items items' : List ContextItem} (h : EndsWith msg items)
    (heq : transcriptOf items' = transcriptOf items) : EndsWith msg items' :=
  ⟨by rw [heq]; exact h.stays, by rw [heq]; exact h.last⟩

/-- A merged transcript ends with the message the transcript ended with. -/
theorem EndsWith.merge {msg : Message} (hmsg : Retold env.settings msg) {items : List ContextItem}
    (hlast : ∃ rest i, items = rest ++ [i] ∧ itemToMessage i = msg) (n : ℕ) :
    EndsWith msg (compressTranscriptItems env n items) := by
  obtain ⟨rest, i, rfl, hi⟩ := hlast
  have hdata : msg.data = PyDict.empty := by rw [← hi]; rfl
  rw [compressTranscriptItems, if_neg (by simp), List.map_append, List.map_singleton, hi]
  obtain ⟨pre, hpre⟩ := compressMessages_concat hmsg.short (rest.map itemToMessage)
  rw [hpre]
  constructor
  · intro j hj
    obtain ⟨k, m, -, -, rfl⟩ := mem_transcriptItemsFrom (List.mem_filter.1 hj).1
    exact transcriptItem_droppable ..
  · set last := transcriptItem env.host (n + pre.length) msg with hdef
    have hb : transcriptOf [last] = [last] := by
      rw [transcriptOf, List.filter_cons_of_pos]
      · rfl
      · simpa using (transcriptItem_resolveBucket env.host _ msg).2 hmsg.ordinary
    refine ⟨transcriptOf (transcriptItemsFrom env.host n pre), last, ?_,
      itemToMessage_transcriptItem env.host _ hmsg.role hdata⟩
    rw [transcriptItemsFrom_concat, transcriptOf_append, hb]

variable {p : Purpose}

theorem globalStep_endsWith {msg : Message} (hmsg : Retold env.settings msg) {acc acc' : Acc}
    (h : GlobalStep env (policies p) acc acc') (hend : EndsWith msg acc.kept) :
    EndsWith msg acc'.kept := by
  rcases globalStep_transcript h with heq | ⟨item, hmem, hdrop, heq⟩ | heq
  · exact hend.congr heq
  · have hb : item.resolveBucket ≠ .recentTranscript := by
      intro hb
      have hstay := hend.stays item (List.mem_filter.2 ⟨hmem, by simpa using hb⟩)
      simp [hstay] at hdrop
    rw [heq]
    exact hend.congr (transcriptOf_erase hb _)
  · exact (EndsWith.merge hmsg hend.last _).congr heq

theorem globalSteps_endsWith {msg : Message} (hmsg : Retold env.settings msg) {acc acc' : Acc}
    (h : Relation.ReflTransGen (GlobalStep env (policies p)) acc acc')
    (hend : EndsWith msg acc.kept) : EndsWith msg acc'.kept := by
  induction h with
  | refl => exact hend
  | tail _ hstep ih => exact globalStep_endsWith hmsg hstep ih

theorem cost_transcriptItem (host : Host) (n : ℕ) (msg : Message) :
    cost (transcriptItem host n msg) = cost (transcriptItem host 0 msg) := by
  have hest : ∀ k : ℕ, (transcriptItem host k msg).estimatedTokens =
      (transcriptItem host 0 msg).estimatedTokens := by
    intro k
    simp only [transcriptItem]
    split_ifs <;> simp only [estimateItemTokens_estimatedTokens, fromMessage]
  rw [cost, cost, hest]

/-- What a merge costs does not depend on the ids it draws. -/
theorem sumItemTokens_compressTranscriptItems (n : ℕ) (items : List ContextItem) :
    sumItemTokens (compressTranscriptItems env n items) =
      sumItemTokens (compressTranscriptItems env 0 items) := by
  have hfrom : ∀ (msgs : List Message) (k m : ℕ),
      sumItemTokens (transcriptItemsFrom env.host k msgs) =
        sumItemTokens (transcriptItemsFrom env.host m msgs) := by
    intro msgs
    induction msgs with
    | nil => intro k m; rfl
    | cons msg msgs ih =>
      intro k m
      rw [transcriptItemsFrom, transcriptItemsFrom, sumItemTokens_cons, sumItemTokens_cons,
        cost_transcriptItem env.host k, cost_transcriptItem env.host m, ih (k + 1) (m + 1)]
  rw [compressTranscriptItems, compressTranscriptItems]
  split_ifs
  · rfl
  · exact hfrom _ n 0

/-- The surviving transcript fits its bucket, merged if need be, has no droppable item, and ends with
    a message that a merge tells again. -/
structure TranscriptSafe (env : Env) (policy : PromptContextPolicy) (items : List ContextItem) :
    Prop where
  fits : sumItemTokens (mergeTranscript env policy .recentTranscript 0
    (sortItems (survivors env items))) ≤ policy.cap .recentTranscript
  stays : ∀ i ∈ survivors env items, i.droppable = false
  last : ∃ rest i, sortItems (survivors env items) = rest ++ [i] ∧
    Retold env.settings (itemToMessage i)

/-- A safe transcript leaves its bucket ending with the message it ended with. -/
theorem TranscriptSafe.leaves {fuel : ℕ} {items left : List ContextItem}
    (h : TranscriptSafe env policy items)
    (hleaves : Leaves env policy fuel (.recentTranscript, survivors env items) left) :
    ∃ msg, Retold env.settings msg ∧ EndsWith msg left := by
  obtain ⟨rest, i, hsort, hmsg⟩ := h.last
  refine ⟨itemToMessage i, hmsg, ?_⟩
  have hsum : ∀ n : ℕ, sumItemTokens (mergeTranscript env policy .recentTranscript n
      (sortItems (survivors env items))) ≤ policy.cap .recentTranscript := by
    intro n
    refine le_of_eq_of_le ?_ h.fits
    rw [mergeTranscript, mergeTranscript]
    split_ifs
    · exact sumItemTokens_compressTranscriptItems n _
    · rfl
  have henter : ∀ acc : Acc,
      (enterBucket env policy .recentTranscript (survivors env items) acc).items =
        mergeTranscript env policy .recentTranscript acc.nextId
          (sortItems (survivors env items)) := by
    intro acc
    rw [enterBucket_items_eq, minimizeBucket, if_neg fun hm => absurd hm.1 (not_lt.2 (hsum _))]
  obtain ⟨acc, rfl⟩ := hleaves.items_eq fun acc => (henter acc).symm ▸ hsum _
  rw [henter, mergeTranscript]
  split_ifs
  · exact EndsWith.merge hmsg ⟨rest, i, hsort, rfl⟩ _
  · have hown : transcriptOf (sortItems (survivors env items)) = sortItems (survivors env items) := by
      rw [transcriptOf, List.filter_eq_self]
      intro j hj
      exact (List.mem_filter.1 ((sortItems_perm _).mem_iff.1 hj)).2
    constructor
    · intro j hj
      rw [hown] at hj
      exact h.stays j ((sortItems_perm _).mem_iff.1 hj)
    · exact ⟨rest, i, hown.trans hsort, rfl⟩

/-! ### Required buckets -/

/-- The items of a bucket that survive deduplication. -/
def bucketItems (env : Env) (items : List ContextItem) (bucket : Bucket) : List ContextItem :=
  (dedupedItems env items).filter fun i => i.resolveBucket = bucket

/-- What the buckets keep fits the budget. -/
def FitsBudget (env : Env) (policy : PromptContextPolicy) (budget : ℤ) (fuel : ℕ)
    (items : List ContextItem) : Prop :=
  ∀ acc, reduceBuckets env policy fuel (byBucket (dedupedItems env items)) {} = some acc →
    sumItemTokens acc.kept ≤ budget

/-- A surviving item of the bucket stands within its cap, and it may not be dropped or need not be. -/
def ItemSafe (env : Env) (policy : PromptContextPolicy) (budget : ℤ) (fuel : ℕ)
    (items : List ContextItem) (bucket : Bucket) : Prop :=
  ∃ x ∈ withinCap policy bucket (loopEntry env policy bucket (bucketItems env items bucket)),
    x.droppable = false ∨ FitsBudget env policy budget fuel items

/-- The bucket cannot be emptied. -/
def BucketSafe (env : Env) (policy : PromptContextPolicy) (budget : ℤ) (fuel : ℕ)
    (items : List ContextItem) (bucket : Bucket) : Prop :=
  if bucket = .recentTranscript then TranscriptSafe env policy items
  else ItemSafe env policy budget fuel items bucket

theorem policies_cap_nonneg (p : Purpose) (b : Bucket) : 0 ≤ (policies p).cap b := by
  cases p <;> cases b <;> decide

/-- A group that is not empty leaves its share of what the buckets keep. -/
theorem mem_left_of_leaves {fuel : ℕ} {groups : List (Bucket × List ContextItem)}
    {left : List (List ContextItem)} (h : List.Forall₂ (Leaves env policy fuel) groups left)
    {group : Bucket × List ContextItem} (hg : group ∈ groups) :
    ∃ items, Leaves env policy fuel group items ∧ ∀ i ∈ items, i ∈ left.flatten := by
  induction h with
  | nil => exact absurd hg List.not_mem_nil
  | @cons g its groups left hleaves _ ih =>
    rcases List.mem_cons.1 hg with rfl | hg
    · exact ⟨its, hleaves, fun i hi => List.mem_append_left _ hi⟩
    · obtain ⟨items, hitems, hmem⟩ := ih hg
      exact ⟨items, hitems, fun i hi => List.mem_append_right _ (hmem i hi)⟩

/-- A bucket with surviving items is one of the groups. -/
theorem bucketItems_mem_byBucket {items : List ContextItem} {b : Bucket}
    (h : bucketItems env items b ≠ []) :
    (b, bucketItems env items b) ∈ byBucket (dedupedItems env items) := by
  obtain ⟨i, hi⟩ := List.exists_mem_of_ne_nil _ h
  obtain ⟨hmem, hb⟩ := List.mem_filter.1 hi
  exact mem_byBucket.2 ⟨rfl, i, hmem, by simpa using hb⟩

theorem item_kept {budget : ℤ} {fuel : ℕ} {items : List ContextItem} {acc : Acc} {b : Bucket}
    (hb : b ≠ .recentTranscript) (hsafe : ItemSafe env (policies p) budget fuel items b)
    (hrun : reduceContextItems env (policies p) budget fuel items = some acc) :
    ∃ i ∈ acc.kept, i.resolveBucket = b := by
  obtain ⟨x, hx, hstay⟩ := hsafe
  obtain ⟨acc₁, left, h₁, hleft, hkept, hfit, hsteps⟩ :=
    reduceContextItems_cases env (policies p) hrun
  have hne : bucketItems env items b ≠ [] := by
    intro hnil
    have hempty : loopEntry env (policies p) b [] = [] := by
      rw [loopEntry, minimizeBucket, if_neg fun hm => ?_]
      · rfl
      · exact absurd hm.1 (not_lt.2 (policies_cap_nonneg p b))
    rw [hnil, hempty, withinCap] at hx
    split_ifs at hx <;> exact absurd hx List.not_mem_nil
  have hmem := bucketItems_mem_byBucket hne
  obtain ⟨its, hleaves, hsub⟩ := mem_left_of_leaves hleft hmem
  obtain ⟨i, hi, hdrop⟩ := hleaves.exists_of_withinCap (policies_cap_nonneg p b) hb hx
  have hib : i.resolveBucket = b :=
    hleaves.resolveBucket hb (byBucket_resolveBucket _ _ hmem) i hi
  have hik : i ∈ acc₁.kept := hkept ▸ hsub i hi
  rcases hstay with hd | hfits
  · obtain ⟨j, hj, hjb, -⟩ := globalSteps_holds hsteps hb ⟨i, hik, hib, hdrop.trans hd⟩
    exact ⟨j, hj, hjb⟩
  · rw [fitBudget, if_pos (hfits acc₁ h₁)] at hfit
    exact ⟨i, Option.some.inj hfit ▸ hik, hib⟩

theorem transcript_kept {budget : ℤ} {fuel : ℕ} {items : List ContextItem} {acc : Acc}
    (hsafe : TranscriptSafe env (policies p) items)
    (hrun : reduceContextItems env (policies p) budget fuel items = some acc) :
    ∃ i ∈ acc.kept, i.resolveBucket = .recentTranscript := by
  obtain ⟨acc₁, left, h₁, hleft, hkept, hfit, hsteps⟩ :=
    reduceContextItems_cases env (policies p) hrun
  obtain ⟨rest, last, hsort, -⟩ := hsafe.last
  have hne : survivors env items ≠ [] := by
    intro hnil
    rw [hnil] at hsort
    simp [sortItems] at hsort
  have hmem : (Bucket.recentTranscript, survivors env items) ∈ byBucket (dedupedItems env items) :=
    bucketItems_mem_byBucket hne
  rcases transcriptOf_left hleft (nodup_byBucket _) (byBucket_resolveBucket _) with
    ⟨hkey, -⟩ | ⟨group, its, hg, hl, heq⟩
  · exact absurd (List.mem_map_of_mem hmem) hkey
  · have hgroup : group = survivors env items := (mem_byBucket.1 hg).1
    subst hgroup
    obtain ⟨msg, hmsg, hend⟩ := hsafe.leaves hl
    have hend₁ : EndsWith msg acc₁.kept := hend.congr (by rw [hkept, heq])
    obtain ⟨-, rest', i, hi, -⟩ := globalSteps_endsWith hmsg hsteps hend₁
    have hik : i ∈ transcriptOf acc.kept := by
      rw [hi]
      exact List.mem_append_right _ List.mem_cons_self
    obtain ⟨hmem', hb⟩ := List.mem_filter.1 hik
    exact ⟨i, hmem', by simpa using hb⟩

theorem transcriptSafe_turnItems :
    TranscriptSafe orderEnv (policies .reasoning) (turnItems ascendingDraw) := by
  have hlast : (sortItems (survivors orderEnv (turnItems ascendingDraw))).getLast?.map
      (fun i => decide (isOrdinary (itemToMessage i) = true ∧ (itemToMessage i).role ≠ [] ∧
        (itemToMessage i).content.length ≤ orderEnv.settings.sessionMaxHistoryChars)) =
          some true := by
    rw [survivors_turnItems]
    decide +kernel
  refine ⟨?_, ?_, ?_⟩
  · rw [survivors_turnItems]
    decide +kernel
  · rw [survivors_turnItems]
    decide +kernel
  · obtain ⟨i, hi, hgood⟩ := Option.map_eq_some_iff.1 hlast
    obtain ⟨hord, hrole, hshort⟩ := of_decide_eq_true hgood
    obtain ⟨rest, hrest⟩ := List.getLast?_eq_some_iff.1 hi
    exact ⟨rest, i, hrest, hord, hrole, hshort⟩

theorem itemSafe_turnItems (budget : ℤ) (fuel : ℕ) :
    ItemSafe orderEnv (policies .reasoning) budget fuel (turnItems ascendingDraw) .currentTurn := by
  have hstay : ((withinCap (policies .reasoning) .currentTurn (loopEntry orderEnv
      (policies .reasoning) .currentTurn (bucketItems orderEnv (turnItems ascendingDraw)
        .currentTurn))).any fun i => !i.droppable) = true := by
    rw [bucketItems, dedupedItems_turnItems]
    decide +kernel
  obtain ⟨x, hx, hd⟩ := List.any_eq_true.1 hstay
  exact ⟨x, hx, Or.inl (by simpa using hd)⟩

/-- A turn whose request is repeated, almost word for word, in its only history entry. -/
def foldedEnv : Env where
  host := asciiHost
    [("summarise the quarterly sales report".toList,
        "797d7416bce85e4f05c043b6a765c09f48a22ca058ff8d3d65b279296641e332".toList),
      ("please summarise the quarterly sales report".toList,
        "df6ec95d2532b173ee686b837da384f470d9a0d50a448e8b6993ec1423281b05".toList),
      ("goal: summarise the quarterly sales report".toList,
        "c2c16d1950955d37ba0a5d7673518f8faa3bf5ef309b8b90ceb0319e708c1210".toList)]
  settings := {}
  query := []
  summarize _ := ⟨[], [], []⟩

def foldedItems : List ContextItem :=
  [goalItem "turn_5b1d90c3ee27".toList "summarise the quarterly sales report".toList] ++
    collectHistory foldedEnv.host "summarise the quarterly sales report".toList descendingDraw 0
      [{ role := "user".toList
         content := "Please summarise the quarterly sales report".toList }] ++
    [({ goal := "summarise the quarterly sales report".toList } : WorkingMemory).toContextItem
      "wm_c04e7a91f6d8".toList]

end AgentLangraph.Context
