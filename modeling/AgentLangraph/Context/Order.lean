import AgentLangraph.Context.ReducerSteps
import AgentLangraph.Context.Collect

/-! The order of the conversation through the reducer. Transcript items are collected in conversation
    order with random ids, and sorted by priority, freshness and id: the first two are the same for
    all of them, so the ids decide. From there on the order is only ever thinned out: a merge, the
    drops of the loop and the global passes keep what is left in the order of the sorted bucket.

        conversation → dedupe → sort by id → (merge | drop)* → rendered -/

namespace AgentLangraph.Context
open PyText Loop

/-- The items of the transcript bucket. -/
def transcriptOf (items : List ContextItem) : List ContextItem :=
  items.filter fun i => i.resolveBucket = .recentTranscript

/-- Nothing to order, or the order of `original`, with some of it missing. -/
def InOrder (rendered original : List Message) : Prop :=
  rendered.length ≤ 1 ∨ rendered.Sublist original

theorem InOrder.of_sublist {rendered rendered' original : List Message}
    (h : InOrder rendered original) (hs : rendered'.Sublist rendered) :
    InOrder rendered' original := by
  rcases h with h | h
  · exact Or.inl (hs.length_le.trans h)
  · exact Or.inr (hs.trans h)

@[simp] theorem transcriptOf_append (l m : List ContextItem) :
    transcriptOf (l ++ m) = transcriptOf l ++ transcriptOf m := by
  simp [transcriptOf]

theorem transcriptOf_sublist {l m : List ContextItem} (h : l.Sublist m) :
    (transcriptOf l).Sublist (transcriptOf m) := h.filter _

/-! ### Merging keeps the order -/

/-- Messages that become transcript items again. -/
def isOrdinary (msg : Message) : Bool := !isSystemRole msg && !isSemanticSummary msg

theorem lastN_sublist (n : ℕ) (history : List Message) : (lastN n history).Sublist history := by
  rw [lastN]
  split_ifs
  · exact List.Sublist.refl _
  · exact List.drop_sublist _ _

theorem keepNewest_sublist (newestFirst : List Message) : ∀ budget : ℕ,
    (keepNewest budget newestFirst).Sublist newestFirst.reverse := by
  induction newestFirst with
  | nil => intro budget; exact List.Sublist.refl _
  | cons msg older ih =>
    intro budget
    rw [keepNewest, List.reverse_cons]
    split_ifs
    · exact (ih _).append_right [msg]
    · exact List.nil_sublist _

theorem isOrdinary_of_system {msg : Message} (h : msg.role = "system".toList) :
    isOrdinary msg = false := by
  rw [isOrdinary, isSystemRole, h, beq_self_eq_true]
  rfl

/-- A system message in front is not ordinary. -/
theorem filter_cons_system {msg : Message} (h : msg.role = "system".toList) (l : List Message) :
    (msg :: l).filter isOrdinary = l.filter isOrdinary :=
  List.filter_cons_of_neg (by rw [isOrdinary_of_system h]; decide)

theorem compressConversationHistory_sublist (host : Host) (settings : Settings)
    (history : List Message) :
    ((compressConversationHistory host settings history).filter isOrdinary).Sublist history := by
  have hlast := lastN_sublist settings.sessionMaxHistoryTurns history
  have hkept := keepNewest_sublist (lastN settings.sessionMaxHistoryTurns history).reverse
    settings.sessionMaxHistoryChars
  rw [List.reverse_reverse] at hkept
  rw [compressConversationHistory]
  split_ifs
  · exact List.filter_sublist
  · dsimp only
    split_ifs
    · exact List.filter_sublist.trans hlast
    · rw [filter_cons_system rfl]
      exact List.filter_sublist.trans (hkept.trans hlast)
    · exact List.filter_sublist.trans (hkept.trans hlast)

theorem withSummary_sublist (settings : Settings) {summary : Message}
    (h : summary.role = "system".toList) (recent : List Message) :
    ((withSummary settings summary recent).filter isOrdinary).Sublist recent := by
  have hmerged : ((summary :: recent).filter isOrdinary).Sublist recent := by
    rw [filter_cons_system h]
    exact List.filter_sublist
  rw [withSummary]
  split_ifs
  · rw [filter_cons_system h]
    exact ((lastN_sublist _ _).filter _).trans hmerged
  · exact hmerged

theorem recentOr_sublist {keep : ℕ} {rawRecent history : List Message}
    (h : rawRecent.Sublist history) : (recentOr keep rawRecent history).Sublist history := by
  rw [recentOr]
  split_ifs
  · exact lastN_sublist _ _
  · exact h

theorem buildSemanticContextSummary_sublist {env : Env} {history rawRecent : List Message}
    {fields : SummaryFields}
    (h : buildSemanticContextSummary env history = some (fields, rawRecent)) :
    rawRecent.Sublist history := by
  rw [buildSemanticContextSummary] at h
  split_ifs at h
  · rw [← (Prod.mk.inj (Option.some.inj h)).2]
    exact lastN_sublist _ _
  · rw [← (Prod.mk.inj (Option.some.inj h)).2]
    exact List.nil_sublist _

theorem applySemanticContextCompress_sublist (env : Env) (history : List Message) :
    ((applySemanticContextCompress env history).filter isOrdinary).Sublist history := by
  rw [applySemanticContextCompress]
  split
  · exact List.filter_sublist
  · rename_i fields rawRecent hbuild
    exact (withSummary_sublist _ rfl _).trans
      (recentOr_sublist (buildSemanticContextSummary_sublist hbuild))

/-- Of the messages of a merged transcript, the ordinary ones are old ones in the old order. -/
theorem compressMessages_sublist (env : Env) (history : List Message) :
    ((compressMessages env history).filter isOrdinary).Sublist history := by
  rw [compressMessages]
  split_ifs
  · exact applySemanticContextCompress_sublist env history
  · exact compressConversationHistory_sublist env.host env.settings history

/-- The message as it is rendered. -/
def visible (msg : Message) : Message :=
  { role := msg.role, content := msg.content, at_ := msg.at_.orElse .none }

theorem transcriptItem_resolveBucket (host : Host) (n : ℕ) (msg : Message) :
    (transcriptItem host n msg).resolveBucket = .recentTranscript ↔ isOrdinary msg = true := by
  rw [transcriptItem, isOrdinary]
  cases hsem : isSemanticSummary msg with
  | true => simp [ContextItem.resolveBucket]
  | false =>
    simp only [Bool.false_eq_true, if_false, estimateItemTokens_resolveBucket]
    cases hsys : isSystemRole msg with
    | true => simp [fromMessage, ContextItem.resolveBucket, kindToBucket]
    | false => simp [fromMessage, ContextItem.resolveBucket, kindToBucket]

theorem payload_transcriptItem (host : Host) (n : ℕ) {msg : Message} (hrole : msg.role ≠ [])
    (hdata : msg.data = PyDict.empty) : payloadMessage (transcriptItem host n msg) = visible msg := by
  have hat : metaGet ((PyDict.empty : Meta).set "at".toList msg.at_) "at" = msg.at_ := by
    rw [metaGet, PyDict.getD, PyDict.get?_set_self]
    rfl
  have hupd : ∀ d : Meta, d.update PyDict.empty = d := fun d => rfl
  rw [transcriptItem]
  split_ifs <;>
    simp only [payloadMessage, visible, fromMessage, if_neg hrole, hdata, hupd, hat,
      estimateItemTokens_role, estimateItemTokens_content, estimateItemTokens_data]

/-- Of the items of a merged transcript, those of the ordinary messages are transcript again. -/
theorem transcriptOf_transcriptItemsFrom_cons (host : Host) (n : ℕ) (msg : Message)
    (msgs : List Message) : transcriptOf (transcriptItemsFrom host n (msg :: msgs)) =
      if isOrdinary msg then
        transcriptItem host n msg :: transcriptOf (transcriptItemsFrom host (n + 1) msgs)
      else transcriptOf (transcriptItemsFrom host (n + 1) msgs) := by
  have hb := transcriptItem_resolveBucket host n msg
  rw [transcriptItemsFrom, transcriptOf, List.filter_cons, ← transcriptOf]
  simp only [decide_eq_true_eq, hb]

/-- Back as items, the ordinary messages are the transcript again, in the same order. -/
theorem payload_transcriptItemsFrom (host : Host) (msgs : List Message) :
    (∀ msg ∈ msgs, isOrdinary msg = true → msg.role ≠ [] ∧ msg.data = PyDict.empty) →
      ∀ n : ℕ, (transcriptOf (transcriptItemsFrom host n msgs)).map payloadMessage =
        (msgs.filter isOrdinary).map visible := by
  induction msgs with
  | nil => intro _ n; rfl
  | cons msg msgs ih =>
    intro h n
    rw [List.forall_mem_cons] at h
    rw [transcriptOf_transcriptItemsFrom_cons, List.filter_cons]
    split_ifs with hord
    · obtain ⟨hrole, hdata⟩ := h.1 hord
      rw [List.map_cons, List.map_cons, ih h.2 (n + 1), payload_transcriptItem host n hrole hdata]
    · exact ih h.2 (n + 1)

theorem length_transcriptOf_transcriptItemsFrom (host : Host) (msgs : List Message) :
    ∀ n : ℕ, (transcriptOf (transcriptItemsFrom host n msgs)).length =
      (msgs.filter isOrdinary).length := by
  induction msgs with
  | nil => intro n; rfl
  | cons msg msgs ih =>
    intro n
    rw [transcriptOf_transcriptItemsFrom_cons, List.filter_cons]
    split_ifs
    · rw [List.length_cons, List.length_cons, ih (n + 1)]
    · exact ih (n + 1)

/-- A merge keeps the order of the messages it does not leave out. -/
theorem merge_sublist (env : Env) (n : ℕ) {items : List ContextItem}
    (hrole : ∀ i ∈ items, i.role ≠ []) :
    ((transcriptOf (compressTranscriptItems env n items)).map payloadMessage).Sublist
      (items.map payloadMessage) := by
  rw [compressTranscriptItems]
  split_ifs with hnil
  · rw [hnil]; exact List.Sublist.refl _
  · have hsub := compressMessages_sublist env (items.map itemToMessage)
    rw [payload_transcriptItemsFrom env.host _ fun msg hmsg hord => ?_]
    · have hmap : items.map payloadMessage = (items.map itemToMessage).map visible := by
        rw [List.map_map]
        rfl
      rw [hmap]
      exact hsub.map visible
    · obtain ⟨i, hi, rfl⟩ := List.mem_map.1 (hsub.subset (List.mem_filter.2 ⟨hmsg, hord⟩))
      exact ⟨hrole i hi, rfl⟩

/-- A merge does not make a transcript longer. -/
theorem length_merge_le (env : Env) (n : ℕ) (items : List ContextItem) :
    (transcriptOf (compressTranscriptItems env n items)).length ≤ items.length := by
  rw [compressTranscriptItems]
  split_ifs with hnil
  · rw [hnil]; simp [transcriptOf]
  · rw [length_transcriptOf_transcriptItemsFrom]
    have hlen := (compressMessages_sublist env (items.map itemToMessage)).length_le
    rwa [List.length_map] at hlen

/-! ### The transcript through the buckets -/

/-- The messages of the transcript among kept items. -/
def spoken (items : List ContextItem) : List Message := (transcriptOf items).map payloadMessage

theorem spoken_sublist {l m : List ContextItem} (h : l.Sublist m) :
    (spoken l).Sublist (spoken m) := (transcriptOf_sublist h).map _

theorem spoken_sublist_map (l : List ContextItem) :
    (spoken l).Sublist (l.map payloadMessage) := List.filter_sublist.map _

variable {env : Env} {p : Purpose}

/-- A minimal representation of the transcript has one item under every registered policy. -/
theorem length_minimized_le {items : List ContextItem}
    (h : Minimizes env (policies p) .recentTranscript items) :
    (applyMinBucketRepresentation env (policies p) .recentTranscript items).length ≤ 1 := by
  have hone : (policies p).minimumRequiredItems.getD .recentTranscript 1 = 1 := by
    cases p <;> decide
  have hmin : (policies p).minBucketTokens.getD .recentTranscript 0 ≠ 0 := by
    have hsome := h.2.2.1
    revert hsome
    cases p <;> decide
  rw [applyMinBucketRepresentation, hone]
  dsimp only
  split_ifs with hskip
  · rcases hskip with h0 | hnil
    · exact absurd h0 hmin
    · rw [hnil]; simp
  · rw [List.length_map, List.length_take]
    exact min_le_left _ _

/-- The transcript bucket leaves messages in the order in which it sorted them. -/
theorem leaves_inOrder {fuel : ℕ} {group items : List ContextItem}
    (h : Leaves env (policies p) fuel (.recentTranscript, group) items)
    (hrole : ∀ i ∈ group, i.role ≠ []) :
    InOrder (spoken items) ((sortItems group).map payloadMessage) := by
  obtain ⟨acc, hpre⟩ := h.items_prefix fun honly => honly.2.2 rfl
  refine InOrder.of_sublist ?_ (spoken_sublist hpre.sublist)
  rw [enterBucket_items_eq]
  set merged := mergeTranscript env (policies p) .recentTranscript acc.nextId (sortItems group)
    with hmerged
  rw [minimizeBucket]
  split_ifs with hmin
  · refine Or.inl ?_
    rw [spoken, List.length_map]
    exact (List.filter_sublist.length_le).trans (length_minimized_le hmin)
  · refine Or.inr ?_
    rw [hmerged, mergeTranscript]
    split_ifs
    · exact merge_sublist env _ fun i hi => hrole i ((sortItems_perm group).mem_iff.1 hi)
    · exact spoken_sublist_map _

theorem transcriptOf_eq_nil {items : List ContextItem} {b : Bucket} (hb : b ≠ .recentTranscript)
    (h : ∀ i ∈ items, i.resolveBucket = b) : transcriptOf items = [] := by
  rw [transcriptOf, List.filter_eq_nil_iff]
  intro i hi
  rw [h i hi]
  simpa using hb

/-- All buckets together leave the transcript their transcript bucket leaves. -/
theorem transcriptOf_left {fuel : ℕ} {groups : List (Bucket × List ContextItem)}
    {left : List (List ContextItem)}
    (h : List.Forall₂ (Leaves env (policies p) fuel) groups left)
    (hkeys : (groups.map Prod.fst).Nodup) (hgroups : ∀ g ∈ groups, ∀ i ∈ g.2, i.resolveBucket = g.1) :
    (Bucket.recentTranscript ∉ groups.map Prod.fst ∧ transcriptOf left.flatten = []) ∨
      ∃ group items, (Bucket.recentTranscript, group) ∈ groups ∧
        Leaves env (policies p) fuel (.recentTranscript, group) items ∧
          transcriptOf left.flatten = transcriptOf items := by
  induction h with
  | nil => exact Or.inl ⟨by simp, rfl⟩
  | @cons g items groups left hleaves htail ih =>
    rw [List.map_cons, List.nodup_cons] at hkeys
    rw [List.forall_mem_cons] at hgroups
    rw [List.flatten_cons, transcriptOf_append]
    rcases ih hkeys.2 hgroups.2 with ⟨hkey, hnil⟩ | ⟨group, items', hmem, hleaves', heq⟩
    · by_cases hb : g.1 = .recentTranscript
      · obtain ⟨b, group⟩ := g
        dsimp only at hb
        subst hb
        exact Or.inr ⟨group, items, List.mem_cons_self, hleaves, by rw [hnil, List.append_nil]⟩
      · rw [transcriptOf_eq_nil hb (hleaves.resolveBucket hb hgroups.1), List.nil_append]
        refine Or.inl ⟨?_, hnil⟩
        rw [List.map_cons, List.mem_cons]
        rintro (h | h)
        · exact hb h.symm
        · exact hkey h
    · have hb : g.1 ≠ .recentTranscript := fun hb =>
        hkeys.1 (hb ▸ List.mem_map_of_mem hmem)
      rw [transcriptOf_eq_nil hb (hleaves.resolveBucket hb hgroups.1), List.nil_append]
      exact Or.inr ⟨group, items', List.mem_cons_of_mem _ hmem, hleaves', heq⟩

/-! ### The transcript under the global budget -/

theorem transcriptOf_erase {item : ContextItem} (h : item.resolveBucket ≠ .recentTranscript)
    (items : List ContextItem) : transcriptOf (items.erase item) = transcriptOf items := by
  induction items with
  | nil => rfl
  | cons i items ih =>
    by_cases heq : i = item
    · rw [heq, List.erase_cons_head, transcriptOf, transcriptOf, List.filter_cons_of_neg]
      simpa using h
    · rw [List.erase_cons_tail (by simpa using heq)]
      rw [transcriptOf] at ih ⊢
      rw [List.filter_cons, ih, transcriptOf, transcriptOf, List.filter_cons]

/-- What a global step does to the transcript: nothing, where an item of another bucket is shortened; an item
    can be dropped; and it is merged as a whole. -/
theorem globalStep_transcript {acc acc' : Acc} (h : GlobalStep env (policies p) acc acc') :
    transcriptOf acc'.kept = transcriptOf acc.kept ∨
    (∃ item ∈ acc.kept, item.droppable = true ∧ acc'.kept = acc.kept.erase item) ∨
    transcriptOf acc'.kept =
      transcriptOf (compressTranscriptItems env acc.nextId (transcriptOf acc.kept)) := by
  cases h with
  | shorten item hmem hcomp hbucket =>
    have hb : item.resolveBucket ≠ .recentTranscript := fun hb =>
      hbucket ⟨hb ▸ policies_transcript_compressible p, hb⟩
    have hnew : (env.truncate (halfTokens item) item).resolveBucket ≠ .recentTranscript := by
      rwa [Env.truncate, (reworded_truncate item).resolveBucket_eq]
    have hnil : transcriptOf [env.truncate (halfTokens item) item] = [] :=
      transcriptOf_eq_nil hnew (by simp)
    refine Or.inl ?_
    dsimp only
    rw [transcriptOf_append, transcriptOf_erase hb, hnil, List.append_nil]
  | drop item hmem hdrop => exact Or.inr (Or.inl ⟨item, hmem, hdrop, rfl⟩)
  | merge bucketKept newItems hkept hne hnew =>
    have hrest : transcriptOf (acc.kept.diff bucketKept) = [] := by
      rw [hkept, diff_filter, transcriptOf, List.filter_filter, List.filter_eq_nil_iff]
      simp
    refine Or.inr (Or.inr ?_)
    dsimp only
    rw [transcriptOf_append, hrest, List.nil_append, hnew, hkept]
    rfl

theorem globalStep_inOrder {original : List Message} (horig : ∀ m ∈ original, m.role ≠ [])
    {acc acc' : Acc} (h : GlobalStep env (policies p) acc acc')
    (hord : InOrder (spoken acc.kept) original) : InOrder (spoken acc'.kept) original := by
  rcases globalStep_transcript h with heq | ⟨item, -, -, heq⟩ | heq
  · rwa [spoken, heq]
  · rw [heq]
    exact hord.of_sublist (spoken_sublist List.erase_sublist)
  · rw [spoken, heq]
    rcases hord with hone | hsub
    · refine Or.inl ?_
      rw [List.length_map]
      refine (length_merge_le env _ _).trans ?_
      rwa [spoken, List.length_map] at hone
    · refine Or.inr ((merge_sublist env _ fun i hi => ?_).trans hsub)
      exact horig _ (hsub.subset (List.mem_map_of_mem hi))

theorem globalSteps_inOrder {original : List Message} (horig : ∀ m ∈ original, m.role ≠ [])
    {acc acc' : Acc} (h : Relation.ReflTransGen (GlobalStep env (policies p)) acc acc')
    (hord : InOrder (spoken acc.kept) original) : InOrder (spoken acc'.kept) original := by
  induction h with
  | refl => exact hord
  | tail _ hstep ih => exact globalStep_inOrder horig hstep ih

/-- Whatever happens to it, the transcript comes out in the order in which it was sorted. -/
theorem reduce_inOrder_sorted {budget : ℤ} {fuel : ℕ} {items : List ContextItem} {acc : Acc}
    (hrole : ∀ i ∈ transcriptOf (dedupedItems env items), i.role ≠ [])
    (h : reduceContextItems env (policies p) budget fuel items = some acc) :
    InOrder (spoken acc.kept)
      ((sortItems (transcriptOf (dedupedItems env items))).map payloadMessage) := by
  obtain ⟨acc₁, left, -, hleft, hkept, -, hsteps⟩ := reduceContextItems_cases env (policies p) h
  have horig : ∀ m ∈ (sortItems (transcriptOf (dedupedItems env items))).map payloadMessage,
      m.role ≠ [] := by
    intro m hm
    obtain ⟨i, hi, rfl⟩ := List.mem_map.1 hm
    exact hrole i ((sortItems_perm _).mem_iff.1 hi)
  refine globalSteps_inOrder horig hsteps ?_
  rw [hkept]
  rcases transcriptOf_left hleft (nodup_byBucket _) (byBucket_resolveBucket _) with
    ⟨-, hnil⟩ | ⟨group, its, hg, hl, heq⟩
  · rw [spoken, hnil]
    exact Or.inl (by simp)
  · have hgroup : group = transcriptOf (dedupedItems env items) := (mem_byBucket.1 hg).1
    rw [spoken, heq, ← spoken]
    subst hgroup
    exact leaves_inOrder hl hrole

/-! ### The collected conversation -/

/-- The transcript messages among the rendered ones. -/
def renderedTranscript (kept : List ContextItem) : List Message :=
  (transcriptOf (payloadItems kept)).map payloadMessage

/-- The transcript items that survive deduplication, in conversation order. -/
def survivors (env : Env) (items : List ContextItem) : List ContextItem :=
  transcriptOf (dedupedItems env items)

/-- The ids were drawn in ascending order. -/
def Ascending (items : List ContextItem) : Prop := items.Pairwise fun a b => a.id ≤ b.id

instance (items : List ContextItem) : Decidable (Ascending items) :=
  inferInstanceAs (Decidable (List.Pairwise _ _))

/-- The transcript fits its bucket, and what the buckets keep fits the budget. -/
def FitsWhole (env : Env) (policy : PromptContextPolicy) (budget : ℤ) (fuel : ℕ)
    (items : List ContextItem) : Prop :=
  sumItemTokens (survivors env items) ≤ policy.cap .recentTranscript ∧
    ∀ acc, reduceBuckets env policy fuel (byBucket (dedupedItems env items)) {} = some acc →
      sumItemTokens acc.kept ≤ budget

/-- A collected history entry with its tokens estimated. -/
def IsHistoryItem (i : ContextItem) : Prop :=
  ∃ (drawn : Text) (msg : Message), msg.data = PyDict.empty ∧
    i = estimateItemTokens (historyItem ("ctx_".toList ++ drawn) msg)

theorem IsHistoryItem.role_ne_nil {i : ContextItem} (h : IsHistoryItem i) : i.role ≠ [] := by
  obtain ⟨drawn, msg, -, rfl⟩ := h
  rw [estimateItemTokens_role]
  exact historyItem_role_ne_nil _ _

theorem IsHistoryItem.kind_eq {i : ContextItem} (h : IsHistoryItem i) : i.kind = .recentHistory := by
  obtain ⟨drawn, msg, -, rfl⟩ := h
  rw [estimateItemTokens_kind]
  rfl

theorem estimateItemTokens_sortKey (i : ContextItem) :
    sortKey (estimateItemTokens i) = sortKey i := by
  rw [estimateItemTokens]; split <;> rfl

/-- Among history entries the id decides the order. -/
theorem IsHistoryItem.sortKey_le_iff {i j : ContextItem} (hi : IsHistoryItem i)
    (hj : IsHistoryItem j) : sortKey i ≤ sortKey j ↔ i.id ≤ j.id := by
  obtain ⟨di, mi, -, rfl⟩ := hi
  obtain ⟨dj, mj, -, rfl⟩ := hj
  rw [estimateItemTokens_sortKey, estimateItemTokens_sortKey, estimateItemTokens_id,
    estimateItemTokens_id]
  simp [sortKey, historyItem, fromMessage, Prod.Lex.le_iff]

/-- No source id names a history entry, so its key depends on its content only. -/
theorem IsHistoryItem.key_eq {host : Host} {i : ContextItem} (h : IsHistoryItem i) :
    strictDedupeKey host i = "text:".toList ++ kindName .recentHistory ++ [':'] ++
      (if normalizedHash host i.content = [] then i.content.take 80
        else normalizedHash host i.content) := by
  have hnone : sourceAwareKey host i = none := by
    obtain ⟨drawn, msg, hdata, rfl⟩ := h
    refine sourceAwareKey_eq_none (fun key hkey => ?_) ?_
    · rw [estimateItemTokens_data]
      exact metaGet_historyItem _ hdata hkey
    · rw [estimateItemTokens_id]
      rfl
  rw [strictDedupeKey, hnone, h.kind_eq]

/-- Collected items around a conversation: only the conversation goes to the transcript. -/
theorem survivors_isHistoryItem (env : Env) {goal : Text} {draw : ℕ → Text} {n : ℕ}
    {history : List Message} {before after : List ContextItem}
    (hother : ∀ i ∈ before ++ after, i.resolveBucket ≠ .recentTranscript) :
    ∀ i ∈ survivors env (before ++ collectHistory env.host goal draw n history ++ after),
      IsHistoryItem i := by
  intro i hi
  obtain ⟨hmem, hb⟩ := List.mem_filter.1 hi
  obtain ⟨x, hx, rfl⟩ := List.mem_map.1 ((dedupe_sublist env.host _).subset hmem)
  rw [estimateItemTokens_resolveBucket, decide_eq_true_eq] at hb
  rw [List.mem_append, List.mem_append] at hx
  rcases hx with (hx | hx) | hx
  · exact absurd hb (hother x (List.mem_append_left _ hx))
  · obtain ⟨k, msg, hmsg, rfl⟩ := mem_historyItemsFrom _ hx
    exact ⟨draw k, msg, conversationHistoryForLlm_data history msg hmsg, rfl⟩
  · exact absurd hb (hother x (List.mem_append_right _ hx))

theorem eq_of_map_eq_map {l m : List ContextItem} {f : ContextItem → Text}
    (hinj : ∀ a ∈ l, ∀ b ∈ m, f a = f b → a = b) (h : l.map f = m.map f) : l = m := by
  induction l generalizing m with
  | nil =>
    cases m with
    | nil => rfl
    | cons b m => simp at h
  | cons a l ih =>
    cases m with
    | nil => simp at h
    | cons b m =>
      rw [List.map_cons, List.map_cons, List.cons.injEq] at h
      rw [hinj a List.mem_cons_self b List.mem_cons_self h.1, ih (fun c hc d hd =>
        hinj c (List.mem_cons_of_mem _ hc) d (List.mem_cons_of_mem _ hd)) h.2]

/-- Surviving history entries have distinct contents. -/
theorem survivors_content_inj (env : Env) {items : List ContextItem}
    (hhist : ∀ i ∈ survivors env items, IsHistoryItem i) :
    ∀ a ∈ survivors env items, ∀ b ∈ survivors env items, a.content = b.content → a = b := by
  intro a ha b hb hab
  have hkeys := dedupe_keys_nodup env.host (items.map estimateItemTokens)
  refine List.inj_on_of_nodup_map hkeys (List.mem_filter.1 ha).1 (List.mem_filter.1 hb).1 ?_
  rw [(hhist a ha).key_eq, (hhist b hb).key_eq, hab]

theorem sortItems_of_ascending {items : List ContextItem} (hhist : ∀ i ∈ items, IsHistoryItem i)
    (h : Ascending items) : sortItems items = items := by
  refine List.Pairwise.insertionSort_eq ?_
  refine List.Pairwise.imp_of_mem ?_ h
  intro a b ha hb hab
  exact ((hhist a ha).sortKey_le_iff (hhist b hb)).2 hab

theorem ascending_of_sortItems {items : List ContextItem} (hhist : ∀ i ∈ items, IsHistoryItem i)
    (h : sortItems items = items) : Ascending items := by
  have hsorted : items.Pairwise fun a b => sortKey a ≤ sortKey b := by
    rw [← h]
    exact sortItems_pairwise items
  refine List.Pairwise.imp_of_mem ?_ hsorted
  intro a b ha hb hab
  exact ((hhist a ha).sortKey_le_iff (hhist b hb)).1 hab

/-! ### When everything fits -/

/-- A transcript under its cap is left as it was sorted. -/
theorem leaves_of_le {fuel : ℕ} {policy : PromptContextPolicy} {group items : List ContextItem}
    (h : Leaves env policy fuel (.recentTranscript, group) items)
    (hcap : sumItemTokens group ≤ policy.cap .recentTranscript) : items = sortItems group := by
  have hsum : sumItemTokens (sortItems group) ≤ policy.cap .recentTranscript := by
    rwa [sumItemTokens_perm (sortItems_perm group)]
  have henter : ∀ acc, (enterBucket env policy .recentTranscript group acc).items =
      sortItems group := by
    intro acc
    rw [enterBucket_items_eq, mergeTranscript, if_neg fun hm => absurd hm.1 (not_lt.2 hsum),
      minimizeBucket, if_neg fun hm => absurd hm.1 (not_lt.2 hsum)]
  obtain ⟨acc, hitems⟩ := h.items_eq fun acc => (henter acc).symm ▸ hsum
  rw [hitems, henter]

/-- When everything fits, the transcript that is kept is the sorted one. -/
theorem transcriptOf_kept_of_fits {budget : ℤ} {fuel : ℕ} {items : List ContextItem} {acc : Acc}
    (hfits : FitsWhole env (policies p) budget fuel items)
    (h : reduceContextItems env (policies p) budget fuel items = some acc) :
    transcriptOf acc.kept = sortItems (survivors env items) := by
  obtain ⟨acc₁, left, h₁, hleft, hkept, hfit, -⟩ := reduceContextItems_cases env (policies p) h
  have hacc : acc = acc₁ := by
    rw [fitBudget, if_pos (hfits.2 acc₁ h₁)] at hfit
    exact (Option.some.inj hfit).symm
  have hown : ∀ i ∈ sortItems (survivors env items), i.resolveBucket = .recentTranscript := by
    intro i hi
    have hmem := (sortItems_perm _).mem_iff.1 hi
    simpa using (List.mem_filter.1 hmem).2
  rw [hacc, hkept]
  rcases transcriptOf_left hleft (nodup_byBucket _) (byBucket_resolveBucket _) with
    ⟨hkey, hnil⟩ | ⟨group, its, hg, hl, heq⟩
  · have hempty : survivors env items = [] := by
      by_contra hne
      obtain ⟨i, hi⟩ := List.exists_mem_of_ne_nil _ hne
      obtain ⟨hmem, hb⟩ := List.mem_filter.1 hi
      have hg : (Bucket.recentTranscript, survivors env items) ∈ byBucket (dedupedItems env items) :=
        mem_byBucket.2 ⟨rfl, i, hmem, by simpa using hb⟩
      exact hkey (List.mem_map_of_mem hg)
    rw [hnil, hempty]
    rfl
  · have hgroup : group = survivors env items := (mem_byBucket.1 hg).1
    subst hgroup
    rw [heq, leaves_of_le hl hfits.1, transcriptOf, List.filter_eq_self]
    intro i hi
    simpa using hown i hi

/-- History entries are rendered. -/
theorem renderedTranscript_of_history {kept : List ContextItem}
    (h : ∀ i ∈ transcriptOf kept, IsHistoryItem i) : renderedTranscript kept = spoken kept := by
  have hfilter : transcriptOf (payloadItems kept) = transcriptOf kept := by
    rw [transcriptOf, payloadItems, List.filter_filter, transcriptOf]
    refine List.filter_congr fun i hi => ?_
    by_cases hb : i.resolveBucket = .recentTranscript
    · have hkind := (h i (List.mem_filter.2 ⟨hi, by simpa using hb⟩)).kind_eq
      simp [hb, hkind]
    · simp [hb]
  rw [renderedTranscript, hfilter, spoken]

/-- The survivors, told in sorted order, are in their own order only if they were drawn that way. -/
theorem ascending_of_inOrder {items : List ContextItem}
    (hhist : ∀ i ∈ survivors env items, IsHistoryItem i)
    (h : InOrder ((sortItems (survivors env items)).map payloadMessage)
      ((survivors env items).map payloadMessage)) : Ascending (survivors env items) := by
  have hperm := sortItems_perm (survivors env items)
  rcases h with hone | hsub
  · rw [List.length_map, hperm.length_eq] at hone
    cases hs : survivors env items with
    | nil => exact List.Pairwise.nil
    | cons a l =>
      rw [hs, List.length_cons] at hone
      have hl : l = [] := List.length_eq_zero_iff.1 (by omega)
      rw [hl]
      exact List.pairwise_singleton _ a
  · have heq := hsub.eq_of_length (by simp [hperm.length_eq])
    have hcontent : (sortItems (survivors env items)).map (·.content) =
        (survivors env items).map (·.content) := by
      have := congrArg (List.map Message.content) heq
      rwa [List.map_map, List.map_map] at this
    refine ascending_of_sortItems hhist (eq_of_map_eq_map (fun a ha b hb => ?_) hcontent)
    exact survivors_content_inj env hhist a (hperm.mem_iff.1 ha) b hb

/-- CORRECT when it can be: a conversation whose surviving messages drew ascending ids is rendered in
    order, whatever is merged, dropped or cut; and when the transcript fits its bucket and the prompt
    its budget, no other conversation is. -/
theorem conversation_order (env : Env) (p : Purpose) (budget : ℤ) (fuel : ℕ) (goal : Text)
    (draw : ℕ → Text) (n : ℕ) (history : List Message) (before after : List ContextItem) (acc : Acc)
    (hother : ∀ i ∈ before ++ after, i.resolveBucket ≠ .recentTranscript)
    (hrun : reduceContextItems env (policies p) budget fuel
      (before ++ collectHistory env.host goal draw n history ++ after) = some acc) :
    let transcript := survivors env (before ++ collectHistory env.host goal draw n history ++ after)
    (Ascending transcript →
        InOrder (renderedTranscript acc.kept) (transcript.map payloadMessage)) ∧
      (FitsWhole env (policies p) budget fuel
          (before ++ collectHistory env.host goal draw n history ++ after) →
        InOrder (renderedTranscript acc.kept) (transcript.map payloadMessage) →
          Ascending transcript) := by
  intro transcript
  have hhist : ∀ i ∈ transcript, IsHistoryItem i := survivors_isHistoryItem env hother
  refine ⟨fun hasc => ?_, fun hfits hord => ?_⟩
  · have hsorted := reduce_inOrder_sorted (fun i hi => (hhist i hi).role_ne_nil) hrun
    have hsort : sortItems transcript = transcript := sortItems_of_ascending hhist hasc
    rw [← survivors, hsort] at hsorted
    exact hsorted.of_sublist ((transcriptOf_sublist List.filter_sublist).map _)
  · have hkept := transcriptOf_kept_of_fits hfits hrun
    have hall : ∀ i ∈ transcriptOf acc.kept, IsHistoryItem i := by
      rw [hkept]
      exact fun i hi => hhist i ((sortItems_perm _).mem_iff.1 hi)
    rw [renderedTranscript_of_history hall, spoken, hkept] at hord
    exact ascending_of_inOrder hhist hord

instance (rendered original : List Message) : Decidable (InOrder rendered original) :=
  inferInstanceAs (Decidable (_ ∨ _))

def shortHistory : List Message :=
  [{ role := "user".toList, content := "parse the config file".toList },
   { role := "assistant".toList, content := "the parser reads yaml".toList }]

def orderEnv : Env where
  host := asciiHost
    [("write the changelog".toList,
        "605f7f8fc6172a7ffcb41c5307bf0dd1928450eda5b8d6a8deca3886898dc46d".toList),
      ("parse the config file".toList,
        "01dc84c159df744ff6b63cd69bd7bf1c7e8135172ee412ed7ce9277dc2aa93be".toList),
      ("the parser reads yaml".toList,
        "57a7508047e33a9cacbdcb57f166c5a1e512f6cfc9331c3ce7bec7e5691b6000".toList),
      ("goal: write the changelog".toList,
        "26910ed2c8c9d1069339217517d7fa4992026ab8d8358c295f5a6582df0e0005".toList)]
  settings := {}
  query := []
  summarize _ := ⟨[], [], []⟩

/-- The collected items of a turn over `shortHistory`, with the ids of its messages given. -/
def turnItems (draw : ℕ → Text) : List ContextItem :=
  [goalItem "turn_5b1d90c3ee27".toList "write the changelog".toList] ++
    collectHistory orderEnv.host "write the changelog".toList draw 0 shortHistory ++
    [({ goal := "write the changelog".toList } : WorkingMemory).toContextItem
      "wm_c04e7a91f6d8".toList]

def ascendingDraw (n : ℕ) : Text := if n = 0 then "17e05c88d2f4".toList else "9f2c41d07ab3".toList

def descendingDraw (n : ℕ) : Text := if n = 0 then "9f2c41d07ab3".toList else "17e05c88d2f4".toList

/-- The working memory repeats the goal and is folded into it. -/
theorem dedupedItems_turnItems : dedupedItems orderEnv (turnItems ascendingDraw) =
    ((turnItems ascendingDraw).take 3).map estimateItemTokens := by decide +kernel

theorem survivors_turnItems : survivors orderEnv (turnItems ascendingDraw) =
    transcriptOf (((turnItems ascendingDraw).take 3).map estimateItemTokens) := by
  rw [survivors, dedupedItems_turnItems]

theorem turnItems_reduced : ∃ acc, reduceContextItems orderEnv (policies .reasoning) 32000 2
    (turnItems ascendingDraw) = some acc := by
  rw [← Option.isSome_iff_exists, reduceContextItems, dedupedItems_turnItems]
  decide +kernel

theorem conversation_order_ascending : ∃ acc,
    reduceContextItems orderEnv (policies .reasoning) 32000 2 (turnItems ascendingDraw) = some acc ∧
      InOrder (renderedTranscript acc.kept)
        ((survivors orderEnv (turnItems ascendingDraw)).map payloadMessage) := by
  obtain ⟨acc, hrun⟩ := turnItems_reduced
  have hasc : Ascending (survivors orderEnv (turnItems ascendingDraw)) := by
    rw [survivors_turnItems]
    decide +kernel
  exact ⟨acc, hrun, (conversation_order orderEnv .reasoning 32000 2 "write the changelog".toList
    ascendingDraw 0 shortHistory _ _ acc (by decide) hrun).1 hasc⟩

/-- With ids drawn the other way round, the answer is rendered before the question. -/
theorem conversation_reversed : ∃ acc,
    reduceContextItems orderEnv (policies .reasoning) 32000 2 (turnItems descendingDraw) =
        some acc ∧
      ¬ InOrder (renderedTranscript acc.kept)
        ((collectHistory orderEnv.host "write the changelog".toList descendingDraw 0
          shortHistory).map payloadMessage) := by
  have hlost : (reduceContextItems orderEnv (policies .reasoning) 32000 2
      (turnItems descendingDraw)).map (fun acc => decide (InOrder (renderedTranscript acc.kept)
        ((collectHistory orderEnv.host "write the changelog".toList descendingDraw 0
          shortHistory).map payloadMessage))) = some false := by decide +kernel
  obtain ⟨acc, hrun, hnot⟩ := Option.map_eq_some_iff.1 hlost
  exact ⟨acc, hrun, of_decide_eq_false hnot⟩

end AgentLangraph.Context
