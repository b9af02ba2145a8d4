import AgentLangraph.Context.Fingerprint
import AgentLangraph.Lib.Kept
import AgentLangraph.Lib.Occurrences

/-! Which copy of a fact survives deduplication: the first one. An item goes when it is a duplicate of one that
    is kept in front of it, also where it says more:

        "the build failed in main.cpp"   "the build failed in main.cpp at line 12"   ──▶   the first -/

namespace AgentLangraph.Context
open PyText Firsts

variable (host : Host)

/-- An item has the key of another, or nearly its text. -/
def Duplicates (item k : ContextItem) : Prop :=
  strictDedupeKey host item = strictDedupeKey host k ∨ isNearDuplicate host item.content k.content = true

instance : DecidableRel (Duplicates host) := fun _ _ => inferInstanceAs (Decidable (_ ∨ _))

/-- The text of an item has that of another in it, and more. -/
def SaysMore (item k : ContextItem) : Prop :=
  normalizeContentText host k.content <:+: normalizeContentText host item.content ∧
    normalizeContentText host k.content ≠ normalizeContentText host item.content

variable {host}

/-- What the loop has seen is the keys and the texts of what it has kept. -/
theorem dedupeFrom_eq_firstsFrom (items : List ContextItem) : ∀ kept : List ContextItem,
    dedupeFrom host (kept.map (strictDedupeKey host)) ((kept.map ContextItem.content).filter (· ≠ [])) items =
      firstsFrom (Duplicates host) kept items := by
  induction items with
  | nil => exact fun _ => rfl
  | cons item items ih =>
    intro kept
    have hnear : (((kept.map ContextItem.content).filter (· ≠ [])).any (isNearDuplicate host item.content) = true) ↔
        ∃ k ∈ kept, isNearDuplicate host item.content k.content = true := by
      simp only [List.any_eq_true, List.mem_filter, List.mem_map, decide_eq_true_eq]
      constructor
      · rintro ⟨_, ⟨⟨k, hk, rfl⟩, -⟩, hdup⟩
        exact ⟨k, hk, hdup⟩
      · rintro ⟨k, hk, hdup⟩
        refine ⟨k.content, ⟨⟨k, hk, rfl⟩, ?_⟩, hdup⟩
        intro hnil
        simp [isNearDuplicate, hnil] at hdup
    have hcopy : (∃ k ∈ kept, Duplicates host item k) ↔
        strictDedupeKey host item ∈ kept.map (strictDedupeKey host) ∨
          ((kept.map ContextItem.content).filter (· ≠ [])).any (isNearDuplicate host item.content) = true := by
      rw [hnear, List.mem_map]
      constructor
      · rintro ⟨k, hk, hkey | hdup⟩
        · exact .inl ⟨k, hk, hkey.symm⟩
        · exact .inr ⟨k, hk, hdup⟩
      · rintro (⟨k, hk, hkey⟩ | ⟨k, hk, hdup⟩)
        · exact ⟨k, hk, .inl hkey.symm⟩
        · exact ⟨k, hk, .inr hdup⟩
    rw [dedupeFrom, firstsFrom]
    by_cases hkey : strictDedupeKey host item ∈ kept.map (strictDedupeKey host)
    · rw [if_pos hkey, if_pos (hcopy.2 (.inl hkey))]
      exact ih kept
    · rw [if_neg hkey]
      by_cases hdup : ((kept.map ContextItem.content).filter (· ≠ [])).any (isNearDuplicate host item.content) = true
      · rw [if_pos hdup, if_pos (hcopy.2 (.inr hdup))]
        exact ih kept
      · rw [if_neg hdup, if_neg fun h => (hcopy.1 h).elim hkey hdup, ← ih (kept ++ [item])]
        have htexts : ((kept ++ [item]).map ContextItem.content).filter (· ≠ []) =
            if item.content = [] then (kept.map ContextItem.content).filter (· ≠ [])
            else (kept.map ContextItem.content).filter (· ≠ []) ++ [item.content] := by
          rw [List.map_append, List.filter_append, List.map_singleton]
          split_ifs with hnil
          · simp [hnil]
          · simp [hnil]
        rw [htexts, List.map_append, List.map_singleton]

/-- Deduplication keeps the first copies. -/
theorem dedupe_eq_firsts (items : List ContextItem) :
    dedupeContextItems host items = firsts (Duplicates host) items := dedupeFrom_eq_firstsFrom items []

/-- An item that says more than another is a duplicate of it where the other says enough. -/
theorem duplicates_of_saysMore {item k : ContextItem} (h : SaysMore host item k) (hitem : item.content ≠ [])
    (hk : k.content ≠ []) (hlong : 20 ≤ (normalizeContentText host k.content).length) :
    Duplicates host item k := by
  obtain ⟨hwithin, hne⟩ := h
  have hlt : (normalizeContentText host k.content).length < (normalizeContentText host item.content).length :=
    lt_of_le_of_ne hwithin.length_le fun heq => hne (hwithin.eq_of_length heq)
  refine Or.inr ?_
  rw [isNearDuplicate, if_neg (not_or.2 ⟨hitem, hk⟩)]
  dsimp only
  rw [if_neg fun heq => hne heq.symm, if_neg (not_le.2 hlt), if_neg (not_le.2 hlt),
    if_pos ⟨hlong, contains_iff.2 hwithin⟩]

/-- FIRST COPY: deduplication gives a sublist, which it leaves alone; an item is removed at its place just where it
    is a duplicate of one that is kept, and stands, before it. -/
theorem dedupe_keeps_first (host : Host) (before : List ContextItem) (item : ContextItem)
    (after : List ContextItem) :
    (dedupeContextItems host (before ++ item :: after)).Sublist (before ++ item :: after) ∧
    dedupeContextItems host (dedupeContextItems host (before ++ item :: after)) =
      dedupeContextItems host (before ++ item :: after) ∧
    ∃ rest : List ContextItem, rest.Sublist after ∧ dedupeContextItems host (before ++ item :: after) =
      dedupeContextItems host before ++
        (if ∃ k ∈ dedupeContextItems host before, Duplicates host item k then [] else [item]) ++ rest := by
  refine ⟨dedupe_sublist host _, ?_, ?_⟩
  · rw [dedupe_eq_firsts, dedupe_eq_firsts]
    exact firstsFrom_firstsFrom _ []
  · simp only [dedupe_eq_firsts]
    exact firsts_cons before item after

/-- Two facts from retrieval; the second says more. -/
def shortFact : ContextItem where
  id := "ctx_4f1d2c3b5a69".toList
  kind := .knowledge
  source := .retrieval
  content := "the build failed in main.cpp".toList

def longFact : ContextItem :=
  { shortFact with id := "ctx_7e8a9b0c1d2e".toList, content := "the build failed in main.cpp at line 12".toList }

/-- It is removed in favour of the first one. -/
theorem longer_copy_removed : ¬ ∀ (host : Host) (before : List ContextItem) (item : ContextItem),
    ∀ k ∈ dedupeContextItems host before, SaysMore host item k → Duplicates host item k →
      item ∈ dedupeContextItems host (before ++ [item]) := by
  intro h
  let host : Host := asciiHost
    [(shortFact.content, "31d04525d30e325008085f5c54484b53057d2dd6db0c28915b1097a57df88340".toList),
      (longFact.content, "fad2a80b1e03407d82134c8c6d6c96450214fd9e63992a2bc854469dc76b882c".toList)]
  have hnorm : normalizeContentText host shortFact.content = shortFact.content := by decide +kernel
  have hmore : SaysMore host longFact shortFact := by
    have hlong : normalizeContentText host longFact.content = longFact.content := by decide +kernel
    rw [SaysMore, hnorm, hlong]
    exact ⟨⟨[], " at line 12".toList, by decide⟩, by decide⟩
  have hcopy : Duplicates host longFact shortFact :=
    duplicates_of_saysMore hmore (by decide) (by decide) (by rw [hnorm]; decide)
  have hshort : dedupeContextItems host [shortFact] = [shortFact] := by simp [dedupe_eq_firsts, firsts, firstsFrom]
  have hkept := h host [shortFact] longFact shortFact (by rw [hshort]; exact List.mem_singleton_self _) hmore hcopy
  have hboth : dedupeContextItems host ([shortFact] ++ [longFact]) = [shortFact] := by
    simp [dedupe_eq_firsts, firsts, firstsFrom, hcopy]
  rw [hboth, List.mem_singleton] at hkept
  exact absurd (congrArg ContextItem.id hkept) (by decide)

end AgentLangraph.Context
