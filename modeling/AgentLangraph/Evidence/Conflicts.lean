import AgentLangraph.Evidence.Pipeline
import AgentLangraph.Lib.Finditer
import Mathlib.Data.List.Dedup

/-! Conflicts between candidates (`evidence_arbitration.py`): the lines "key: value" of their texts, sorted into
    buckets by key, and one conflict for a bucket with two values.

        candidates ──▶ claims ──▶ by key ──▶ by authority ──▶ first against second
                                                                └──▶ packets of the second's source

    Only the second in line is ever reported, whatever it says: a third claim is not, and one that repeats the
    first is. -/

namespace AgentLangraph.Evidence.Conflicts
open PyText PyFloat Regex

/-- The Unicode tables: `str.lower`, `\w`, `\d`, and the letters that are the same without their case. -/
structure CharTables where
  lower : Text → Text
  isWord : Char → Bool
  isDigit : Char → Bool
  sameLetter : Char → Char → Bool

section
variable (u : CharTables)

/-! ### Claims -/

/-- `^([\w.-]+)\s*[:=]\s*(.+)$`, on one line. -/
def claimPattern : Parts where
  opens := Option.isNone
  parts := [.rep (fun c => u.isWord c || c == '.' || c == '-') 1 none, .rep isSpace 0 none,
    .cls (fun c => c == ':' || c == '='), .rep isSpace 0 none, .rep (· != '\n') 1 none]
  closes := Option.isNone
  plain := by simp [Re.Plain]

/-- `_VALUE_CONFLICT_RE`. -/
def valueConflictPattern : Parts where
  opens := fun _ => true
  parts := [.alt (oneOf u.sameLetter "version".toList ["port".toList, "timeout".toList, "enabled".toList,
    "disabled".toList, "true".toList, "false".toList] (.rep (fun _ => false) 0 (some 0)))
    (.seq (.rep u.isDigit 1 none) (.seq (.cls (· == '.')) (.rep u.isDigit 1 none)))]
  closes := fun _ => true
  plain := by simp [oneOf, litWith, Re.Plain]

def search (pat : Parts) (t : Text) : Bool := !(pat.finditer t).isEmpty

/-- What stands in a part of a match at the start of a line. -/
def group (line : Text) (lens : List ℕ) (k : ℕ) : Text := (line.drop (lens.take k).sum).take (lens.getD k 0)

/-- One line; a later one takes the place of an earlier one with its key. -/
def readClaim (claims : PyDict Text Text) (line : Text) : PyDict Text Text :=
  if line.length < 6 then claims
  else
    match (claimPattern u).matchAt ⟨none, line⟩ with
    | none => claims
    | some lens => claims.set (u.lower (group line lens 0)) ((strip (group line lens 4)).take 120)

def extractValueClaims (text : Text) : PyDict Text Text :=
  (((splitlines text).take 20).map strip).foldl (readClaim u) PyDict.empty

/-! ### Conflicts -/

/-- The tuple `(source_id, value, source_type, authority_level)`. -/
structure Entry (α : Type*) where
  source : Text
  value : Text
  sourceType : Text
  authority : α
  deriving DecidableEq

structure EvidenceConflict where
  fieldKey : Text
  valueA : Text
  valueB : Text
  sourceAId : Text
  sourceBId : Text
  sourceAType : Text
  sourceBType : Text
  priorityWinner : Text
  arbitrationReason : Text
  unresolved : Bool
  deriving DecidableEq

variable {α : Type*} [PyFloat α]

def isCompared (claim : Text × Text) : Bool :=
  search (valueConflictPattern u) claim.2 || search (valueConflictPattern u) claim.1

/-- The claims of a candidate that are compared with those of others. -/
def comparedClaims (c : CandidateEvidence α) : List (Text × Text) :=
  (extractValueClaims u c.content).entries.filter (isCompared u)

def entriesOf (c : CandidateEvidence α) : List (Text × Entry α) :=
  (comparedClaims u c).map fun claim => (claim.1, ⟨c.sourceId, claim.2, c.sourceType, c.authorityLevel⟩)

def byKey (cands : List (CandidateEvidence α)) : PyDict Text (List (Text × Entry α)) :=
  PyDict.groupBy Prod.fst (cands.flatMap (entriesOf u))

def conflictBetween (key : Text) (winner loser : Entry α) : EvidenceConflict where
  fieldKey := key
  valueA := winner.value
  valueB := loser.value
  sourceAId := winner.source
  sourceBId := loser.source
  sourceAType := winner.sourceType
  sourceBType := loser.sourceType
  priorityWinner := winner.source
  arbitrationReason := "higher_authority:".toList ++ winner.sourceType ++ ">".toList ++ loser.sourceType
  unresolved := winner.authority == loser.authority

/-- One bucket. Two values make two entries, so that there is a second one. -/
def conflictOf (key : Text) (entries : List (Entry α)) : Option EvidenceConflict :=
  if (entries.map Entry.value).dedup.length < 2 then none
  else
    match sortDesc Entry.authority entries with
    | winner :: loser :: _ => some (conflictBetween key winner loser)
    | _ => none

def detectConflicts (cands : List (CandidateEvidence α)) : List EvidenceConflict :=
  (byKey u cands).entries.filterMap fun bucket => conflictOf bucket.1 (bucket.2.map Prod.snd)

/-- The sources whose packets `apply_conflict_flags` marks. -/
def conflictSources (conflicts : List EvidenceConflict) : List Text :=
  (conflicts.filter fun c => !c.unresolved).map EvidenceConflict.sourceBId

/-! ### Where a claim stands -/

/-- The claims for a key, in the order of the candidates. -/
def claimsFor (cands : List (CandidateEvidence α)) (key : Text) : List (Entry α) :=
  ((cands.flatMap (entriesOf u)).filter fun e => e.1 = key).map Prod.snd

/-- The claims for a key by authority; of equal ones the earlier stands first. -/
def ranking (cands : List (CandidateEvidence α)) (key : Text) : List (Entry α) :=
  sortDesc Entry.authority (claimsFor u cands key)

/-- Two candidates say different things for the key. -/
def Contested (cands : List (CandidateEvidence α)) (key : Text) : Prop :=
  ∃ a ∈ claimsFor u cands key, ∃ b ∈ claimsFor u cands key, a.value ≠ b.value

/-- The first and the second claim for a contested key. -/
def TopTwo (cands : List (CandidateEvidence α)) (key : Text) (first second : Entry α) : Prop :=
  Contested u cands key ∧ ∃ rest, ranking u cands key = first :: second :: rest

/-- A source stands second for a contested key, with less authority than the first. -/
def StandsSecond (cands : List (CandidateEvidence α)) (source : Text) : Prop :=
  ∃ key first second, TopTwo u cands key first second ∧ second.authority < first.authority ∧ second.source = source

end

section
variable {u : CharTables} {α : Type*} {cands : List (CandidateEvidence α)}

theorem mem_claimsFor {key : Text} {e : Entry α} : e ∈ claimsFor u cands key ↔
    ∃ c ∈ cands, (key, e.value) ∈ comparedClaims u c ∧ e = ⟨c.sourceId, e.value, c.sourceType, c.authorityLevel⟩ := by
  simp only [claimsFor, entriesOf, List.mem_map, List.mem_filter, List.mem_flatMap, decide_eq_true_eq]
  constructor
  · rintro ⟨_, ⟨⟨c, hc, claim, hclaim, rfl⟩, rfl⟩, rfl⟩
    exact ⟨c, hc, hclaim, rfl⟩
  · rintro ⟨c, hc, hclaim, he⟩
    exact ⟨(key, e), ⟨⟨c, hc, (key, e.value), hclaim, by rw [← he]⟩, rfl⟩, rfl⟩

theorem mem_byKey {key : Text} {es : List (Text × Entry α)} (h : (key, es) ∈ (byKey u cands).entries) :
    es.map Prod.snd = claimsFor u cands key := by
  rw [byKey, PyDict.mem_groupBy] at h
  rw [h.1, claimsFor]

theorem exists_bucket {key : Text} {e : Entry α} (h : e ∈ claimsFor u cands key) :
    ∃ es, (key, es) ∈ (byKey u cands).entries := by
  obtain ⟨x, hx, rfl⟩ := List.mem_map.1 h
  obtain ⟨hx, hkey⟩ := List.mem_filter.1 hx
  exact ⟨_, PyDict.mem_groupBy.2 ⟨rfl, x, hx, by simpa using hkey⟩⟩

/-- Fewer than two different elements: all are the same. -/
theorem length_dedup_lt_two {β : Type*} [DecidableEq β] {l : List β} :
    l.dedup.length < 2 ↔ ∀ a ∈ l, ∀ b ∈ l, a = b := by
  constructor
  · intro h a ha b hb
    rw [← List.mem_dedup] at ha hb
    match hd : l.dedup with
    | [] => simp [hd] at ha
    | [x] =>
      rw [hd, List.mem_singleton] at ha hb
      rw [ha, hb]
    | x :: y :: rest =>
      rw [hd, List.length_cons, List.length_cons] at h
      omega
  · intro h
    match hd : l.dedup with
    | [] => simp
    | [x] => simp
    | x :: y :: rest =>
      have hmem : ∀ z ∈ l.dedup, z ∈ l := fun z hz => List.mem_dedup.1 hz
      have hnodup := List.nodup_dedup l
      rw [hd] at hmem hnodup
      have hxy : x = y := h x (hmem x (by simp)) y (hmem y (by simp))
      simp [hxy] at hnodup

theorem contested_iff {key : Text} :
    Contested u cands key ↔ ¬ ((claimsFor u cands key).map Entry.value).dedup.length < 2 := by
  rw [length_dedup_lt_two, Contested]
  simp only [List.mem_map]
  push Not
  constructor
  · rintro ⟨a, ha, b, hb, hne⟩
    exact ⟨a.value, ⟨a, ha, rfl⟩, b.value, ⟨b, hb, rfl⟩, hne⟩
  · rintro ⟨_, ⟨a, ha, rfl⟩, _, ⟨b, hb, rfl⟩, hne⟩
    exact ⟨a, ha, b, hb, hne⟩

variable [PyFloat α]

theorem mem_ranking {key : Text} {e : Entry α} : e ∈ ranking u cands key ↔ e ∈ claimsFor u cands key :=
  mem_sortDesc

theorem conflictOf_eq_some {key : Text} {c : EvidenceConflict} :
    conflictOf key (claimsFor u cands key) = some c ↔
      ∃ first second, TopTwo u cands key first second ∧ c = conflictBetween key first second := by
  rw [conflictOf]
  split_ifs with hlen
  · refine ⟨by simp, ?_⟩
    rintro ⟨first, second, ⟨hcont, _⟩, _⟩
    exact absurd hlen (contested_iff.1 hcont)
  · have hcont : Contested u cands key := contested_iff.2 hlen
    constructor
    · intro h
      split at h
      · rename_i first second rest hrank
        exact ⟨first, second, ⟨hcont, rest, hrank⟩, (Option.some.inj h).symm⟩
      · cases h
    · rintro ⟨first, second, ⟨_, rest, hrank⟩, rfl⟩
      rw [ranking] at hrank
      rw [hrank]

/-- A conflict is reported for the first and the second claim for a contested key, and for no others. -/
theorem mem_detectConflicts {c : EvidenceConflict} : c ∈ detectConflicts u cands ↔
    ∃ key first second, TopTwo u cands key first second ∧ c = conflictBetween key first second := by
  simp only [detectConflicts, List.mem_filterMap]
  constructor
  · rintro ⟨⟨key, es⟩, hbucket, hc⟩
    rw [mem_byKey hbucket] at hc
    exact ⟨key, conflictOf_eq_some.1 hc⟩
  · rintro ⟨key, hc⟩
    obtain ⟨first, second, ⟨⟨a, ha, _⟩, _⟩, _⟩ := id hc
    obtain ⟨es, hes⟩ := exists_bucket ha
    refine ⟨(key, es), hes, ?_⟩
    rw [mem_byKey hes]
    exact conflictOf_eq_some.2 hc

theorem TopTwo.authority_le {key : Text} {first second : Entry α} (h : TopTwo u cands key first second) :
    second.authority ≤ first.authority := by
  obtain ⟨_, rest, hrank⟩ := h
  have hsorted := pairwise_sortDesc Entry.authority (claimsFor u cands key)
  rw [← ranking, hrank] at hsorted
  exact List.rel_of_pairwise_cons hsorted (by simp)

theorem TopTwo.mem {key : Text} {first second : Entry α} (h : TopTwo u cands key first second) :
    first ∈ claimsFor u cands key ∧ second ∈ claimsFor u cands key := by
  obtain ⟨_, rest, hrank⟩ := h
  exact ⟨mem_ranking.1 (by simp [hrank]), mem_ranking.1 (by simp [hrank])⟩

/-- The sources that are marked are those that stand second with less authority. -/
theorem mem_conflictSources {source : Text} :
    source ∈ conflictSources (detectConflicts u cands) ↔ StandsSecond u cands source := by
  simp only [conflictSources, List.mem_map, List.mem_filter, Bool.not_eq_true', StandsSecond]
  constructor
  · rintro ⟨c, ⟨hc, hres⟩, rfl⟩
    obtain ⟨key, first, second, htop, rfl⟩ := mem_detectConflicts.1 hc
    have hne : first.authority ≠ second.authority := by simpa [conflictBetween] using hres
    exact ⟨key, first, second, htop, lt_of_le_of_ne htop.authority_le hne.symm, rfl⟩
  · rintro ⟨key, first, second, htop, hlt, rfl⟩
    refine ⟨_, ⟨mem_detectConflicts.2 ⟨key, first, second, htop, rfl⟩, ?_⟩, rfl⟩
    simpa [conflictBetween] using hlt.ne'

/-! ### Packets -/

variable (u cands) in
/-- The packets after both functions. -/
def flagged (packets : List (EvidencePacket α)) : List (EvidencePacket α) :=
  applyConflictFlags (conflictSources (detectConflicts u cands)) packets

variable (u cands) in
/-- Every packet of the source comes out marked. -/
def Marked (source : Text) : Prop :=
  ∀ packets, ∀ p ∈ flagged u cands packets, p.sourceId = source → p.hasConflict = true

variable (u cands) in
/-- The packets of the source come out as they went in. -/
def Untouched (source : Text) : Prop :=
  ∀ packets, (flagged u cands packets).filter (·.sourceId = source) = packets.filter (·.sourceId = source)

/-- A packet of a source, without a mark. -/
def freshPacket (source : Text) : EvidencePacket α where
  packetId := []
  snippetText := []
  sourceId := source
  chunkId := []
  supportType := []
  scoreBreakdown := ⟨0, 0, 0, 0, 0, 0, 0, 0⟩
  sourceTitle := []
  sourceType := []
  authorityLevel := 0

theorem flagged_freshPacket (source : Text) : flagged u cands [freshPacket source] =
    [{ freshPacket source with hasConflict := decide (source ∈ conflictSources (detectConflicts u cands)) }] := by
  by_cases h : source ∈ conflictSources (detectConflicts u cands) <;>
    simp [flagged, applyConflictFlags, freshPacket, h]

theorem flag_sourceId {α : Type*} (losers : List Text) (p : EvidencePacket α) :
    (if p.sourceId ∈ losers then { p with hasConflict := true } else p).sourceId = p.sourceId := by
  split_ifs <;> rfl

theorem marked_iff {source : Text} : Marked u cands source ↔ StandsSecond u cands source := by
  rw [← mem_conflictSources]
  constructor
  · intro h
    have hfresh := h [freshPacket source]
    rw [flagged_freshPacket] at hfresh
    simpa [freshPacket] using hfresh
  · intro h packets p hp hsource
    obtain ⟨q, _, rfl⟩ := List.mem_map.1 hp
    rw [flag_sourceId] at hsource
    rw [if_pos (hsource ▸ h)]

theorem untouched_iff {source : Text} : Untouched u cands source ↔ ¬ StandsSecond u cands source := by
  rw [← mem_conflictSources]
  constructor
  · intro h hmem
    have hfresh := h [freshPacket source]
    rw [flagged_freshPacket] at hfresh
    simp [freshPacket, hmem] at hfresh
  · intro h packets
    rw [flagged, applyConflictFlags]
    induction packets with
    | nil => rfl
    | cons p packets ih =>
      rw [List.map_cons, List.filter_cons, List.filter_cons, flag_sourceId, ih]
      by_cases hp : p.sourceId = source
      · have hnot : p.sourceId ∉ conflictSources (detectConflicts u cands) := hp ▸ h
        rw [if_neg hnot]
      · simp [hp]

end

/-! ### What the conflicts are to say -/

section
variable (u : CharTables) {α : Type*} [PyFloat α] (cands : List (CandidateEvidence α))

/-- A candidate of the source says the value for the key. -/
def Says (source key value : Text) : Prop :=
  ∃ c ∈ cands, c.sourceId = source ∧ (key, value) ∈ (extractValueClaims u c.content).entries

/-- Every conflict names two sources, and what they say for its key, which is not the same. -/
def Sound : Prop :=
  ∀ c ∈ detectConflicts u cands, c.sourceAId ≠ c.sourceBId ∧ c.valueA ≠ c.valueB ∧
    Says u cands c.sourceAId c.fieldKey c.valueA ∧ Says u cands c.sourceBId c.fieldKey c.valueB

/-- A source says something else for a key than a candidate that no other for the key is above and that is above
    it. `claims` are the claims of a candidate. -/
def Overruled (claims : CandidateEvidence α → List (Text × Text)) (source : Text) : Prop :=
  ∃ key, ∃ top ∈ cands, ∃ other ∈ cands, ∃ v w, (key, v) ∈ claims top ∧ (key, w) ∈ claims other ∧ v ≠ w ∧
    other.authorityLevel < top.authorityLevel ∧ other.sourceId = source ∧
    ∀ c ∈ cands, (∃ x, (key, x) ∈ claims c) → c.authorityLevel ≤ top.authorityLevel

/-- Every source that is overruled is marked. -/
def Complete (claims : CandidateEvidence α → List (Text × Text)) : Prop :=
  ∀ source, Overruled cands claims source → Marked u cands source

/-- What a source says for a key is what the first claim for the key says. -/
def AgreesWithWinners (source : Text) : Prop :=
  ∀ key winner, (ranking u cands key).head? = some winner →
    ∀ e ∈ claimsFor u cands key, e.source = source → e.value = winner.value

/-- No source that agrees is marked. -/
def SparesAgreeing : Prop := ∀ source, AgreesWithWinners u cands source → Untouched u cands source

/-- All claims of a candidate, also those that no conflict is looked for among. -/
def allClaims (c : CandidateEvidence α) : List (Text × Text) := (extractValueClaims u c.content).entries

end

section
variable {u : CharTables} {α : Type*} {cands : List (CandidateEvidence α)}

theorem says_of_mem_claimsFor {key : Text} {e : Entry α} (h : e ∈ claimsFor u cands key) :
    Says u cands e.source key e.value := by
  obtain ⟨c, hc, hclaim, he⟩ := mem_claimsFor.1 h
  rw [he]
  exact ⟨c, hc, rfl, List.mem_of_mem_filter hclaim⟩

variable [PyFloat α]

theorem sound_iff_topTwo : Sound u cands ↔ ∀ key first second, TopTwo u cands key first second →
    first.source ≠ second.source ∧ first.value ≠ second.value := by
  constructor
  · intro h key first second htop
    obtain ⟨hsource, hvalue, _⟩ := h _ (mem_detectConflicts.2 ⟨key, first, second, htop, rfl⟩)
    exact ⟨hsource, hvalue⟩
  · intro h c hc
    obtain ⟨key, first, second, htop, rfl⟩ := mem_detectConflicts.1 hc
    obtain ⟨hsource, hvalue⟩ := h key first second htop
    exact ⟨hsource, hvalue, says_of_mem_claimsFor htop.mem.1, says_of_mem_claimsFor htop.mem.2⟩

theorem complete_iff {claims : CandidateEvidence α → List (Text × Text)} : Complete u cands claims ↔
    ∀ source, Overruled cands claims source → StandsSecond u cands source :=
  forall₂_congr fun _ _ => marked_iff

theorem sparesAgreeing_iff : SparesAgreeing u cands ↔
    ∀ source, StandsSecond u cands source → ¬ AgreesWithWinners u cands source := by
  refine forall_congr' fun source => ?_
  rw [untouched_iff]
  tauto

end

/-- The parts of the promise, and just when each is kept: the first two claims for each contested key come
    from two sources and differ; each overruled source stands second for some contested key, with less authority
    than the first; and none that stands second so agrees with all that stand first. -/
theorem detection_iff (u : CharTables) {α : Type*} [PyFloat α] (cands : List (CandidateEvidence α)) :
    (Sound u cands ↔ ∀ key first second, TopTwo u cands key first second →
      first.source ≠ second.source ∧ first.value ≠ second.value) ∧
    (Complete u cands (allClaims u) ↔
      ∀ source, Overruled cands (allClaims u) source → StandsSecond u cands source) ∧
    (Complete u cands (comparedClaims u) ↔
      ∀ source, Overruled cands (comparedClaims u) source → StandsSecond u cands source) ∧
    (SparesAgreeing u cands ↔
      ∀ source, StandsSecond u cands source → ¬ AgreesWithWinners u cands source) :=
  ⟨sound_iff_topTwo, complete_iff, complete_iff, sparesAgreeing_iff⟩

def asciiTables : CharTables where
  lower := fun t => t.map Char.toLower
  isWord := fun c => c.isAlphanum || c == '_'
  isDigit := Char.isDigit
  sameLetter := fun a b => a == b.toLower

def candidateOf (source content : String) (authority : ℚ) : CandidateEvidence ℚ where
  docId := source.toList
  chunkId := source.toList
  sourceId := source.toList
  title := []
  content := content.toList
  sourceType := "knowledge".toList
  authorityLevel := authority
  scoreBreakdown := ⟨0, 0, 0, 0, 0, 0, 0, 0⟩
  relevancePassed := true
  filterReason := []
  retrievalStage := []
  metadata := PyDict.empty

/-- Two that agree and a third, in the order of their authority. -/
def ports : List (CandidateEvidence ℚ) :=
  [candidateOf "a" "port: 1" 1, candidateOf "b" "port: 1" (7 / 10), candidateOf "c" "port: 2" (1 / 2)]

def portEntry (source value : String) (authority : ℚ) : Entry ℚ :=
  ⟨source.toList, value.toList, "knowledge".toList, authority⟩

theorem claimsFor_ports (key : Text) : claimsFor asciiTables ports key =
    if key = "port".toList then [portEntry "a" "1" 1, portEntry "b" "1" (7 / 10), portEntry "c" "2" (1 / 2)]
    else [] := by
  have hentries : ports.flatMap (entriesOf asciiTables) =
      [portEntry "a" "1" 1, portEntry "b" "1" (7 / 10), portEntry "c" "2" (1 / 2)].map fun e =>
        ("port".toList, e) := by
    decide +kernel
  rw [claimsFor, hentries]
  split_ifs with hkey
  · rw [hkey]
    rfl
  · simpa using fun h => hkey h.symm

theorem topTwo_ports : TopTwo asciiTables ports "port".toList (portEntry "a" "1" 1) (portEntry "b" "1" (7 / 10)) := by
  refine ⟨?_, [portEntry "c" "2" (1 / 2)], ?_⟩
  · rw [Contested, claimsFor_ports]
    exact ⟨portEntry "a" "1" 1, by simp, portEntry "c" "2" (1 / 2), by simp, by decide⟩
  · rw [ranking, claimsFor_ports]
    decide +kernel

/-- The second of three agrees with the first: it is reported with the same value, and marked, and the third, which
    differs, is not. -/
theorem ports_missed : ¬ Sound asciiTables ports ∧ ¬ Complete asciiTables ports (comparedClaims asciiTables) ∧
    ¬ SparesAgreeing asciiTables ports := by
  refine ⟨fun h => ?_, fun h => ?_, fun h => ?_⟩
  · exact (sound_iff_topTwo.1 h _ _ _ topTwo_ports).2 rfl
  · have htop : ∀ c ∈ ports, c.authorityLevel ≤ 1 := by decide +kernel
    have hmarked := h "c".toList ⟨"port".toList, candidateOf "a" "port: 1" 1, by simp [ports],
      candidateOf "c" "port: 2" (1 / 2), by simp [ports], "1".toList, "2".toList, by decide +kernel,
      by decide +kernel, by decide, by decide +kernel, rfl, fun c hc _ => htop c hc⟩
    exact absurd (hmarked [freshPacket "c".toList]) (by decide +kernel)
  · refine sparesAgreeing_iff.1 h "b".toList ⟨_, _, _, topTwo_ports, by decide +kernel, rfl⟩ ?_
    intro key winner hwinner e he hsource
    rw [ranking] at hwinner
    rw [claimsFor_ports] at hwinner he
    split_ifs at hwinner he with hkey
    · have hfirst : portEntry "a" "1" 1 = winner := by
        have hhead : (sortDesc Entry.authority
            [portEntry "a" "1" 1, portEntry "b" "1" (7 / 10), portEntry "c" "2" (1 / 2)]).head? =
            some (portEntry "a" "1" 1) := by
          decide +kernel
        rw [hhead] at hwinner
        exact Option.some.inj hwinner
      simp only [List.mem_cons, List.not_mem_nil, or_false] at he
      rcases he with rfl | rfl | rfl
      · rw [← hfirst]
      · rw [← hfirst]
        rfl
      · exact absurd hsource (by decide)
    · cases he

end AgentLangraph.Evidence.Conflicts
