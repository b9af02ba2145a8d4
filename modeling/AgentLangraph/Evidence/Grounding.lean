import AgentLangraph.Evidence.Admission
import AgentLangraph.Lib.Finditer
import AgentLangraph.Lib.Kept
import AgentLangraph.Lib.Occurrences
import AgentLangraph.Lib.PyTree
import Mathlib.Algebra.Order.Round

/-! Checking an answer against its evidence (`grounding_check.py`): the claims of the answer are looked up in the
    text of the evidence, the ids it cites among those of the evidence.

        packets with text ──▶ corpus ◀── hits, if there are none          packets, hits ──▶ ids

    The score is the part of the claims that is supported; an answer without any evidence has one more to answer
    for. A first packet with text takes the place of the hits' text. -/

namespace AgentLangraph.Evidence.Grounding
open PyText PyTree Regex

variable {α : Type*}

/-! ### Patterns -/

/-- The Unicode tables: the lower case of a character (a final sigma apart, which no token has), `\d`, `\w`, and the
    letters that are the same without their case. -/
structure CharTables where
  lowerChar : Char → Text
  isDigit : Char → Bool
  isWord : Char → Bool
  sameLetter : Char → Char → Bool
  lower_newline : lowerChar '\n' = ['\n']
  newline_not_digit : isDigit '\n' = false

def lower (u : CharTables) (t : Text) : Text := t.flatMap u.lowerChar

/-- What stands in a match. -/
def matched (t : Text) (m : Match) : Text := (t.drop m.start).take m.parts.sum

/-- `pattern.findall(t)` without groups. -/
def findall (pat : Parts) (t : Text) : List Text := (pat.finditer t).map (matched t)

/-- `_SENTENCE_RE`. -/
def sentencePattern : Parts where
  opens := fun _ => true
  parts := [.rep (fun c => !(c ∈ ".!?。！？\n".toList : Bool)) 1 none, .opt (.cls fun c => c ∈ ".!?。！？".toList)]
  closes := fun _ => true
  plain := by decide

def isCitationChar (c : Char) : Bool := c.isAlphanum || c == '_' || c == '-'

/-- `_CITATION_RE`. -/
def citationPattern : Parts where
  opens := fun _ => true
  parts := [.cls (· == '['), .rep isCitationChar 4 none, .cls (· == ']')]
  closes := fun _ => true
  plain := by decide

section
variable (u : CharTables)

/-- `\d+(?:\.\d+)?|[a-z_]+|[\u4e00-\u9fff]+`. -/
def token : Re :=
  .alt (.alt (.seq (.rep u.isDigit 1 none) (.opt (.seq (.cls (· == '.')) (.rep u.isDigit 1 none))))
    (.rep (fun c => c.isLower || c == '_') 1 none))
    (.rep (fun c => '一' ≤ c && c ≤ '\u9fff') 1 none)

def tokenPattern : Parts where
  opens := fun _ => true
  parts := [token u]
  closes := fun _ => true
  plain := by simp [token, Re.Plain]

/-- `(?i)\b(therefore|…|steps?)\b`; each of these begins and ends with a word character. -/
def conclusionPattern : Parts where
  opens := fun prev => !isWordAt u.isWord prev
  parts := [.alt (oneOf u.sameLetter "therefore".toList ["thus".toList, "结论".toList, "建议".toList, "应该".toList,
    "修复".toList, "原因是".toList, "答案是".toList] (.rep (fun _ => false) 0 (some 0)))
    (litWith u.sameLetter "step".toList (.opt (.cls (u.sameLetter 's'))))]
  closes := fun next => !isWordAt u.isWord next
  plain := by simp [oneOf, litWith, Re.Plain]

end

/-- `extract_citations`. -/
def extractCitations (t : Text) : List Text :=
  Firsts.firsts (· = ·) ((citationPattern.finditer t).map fun m =>
    (t.drop (m.partStart 1)).take (m.parts.getD 1 0))

/-! ### Claims -/

structure Settings extends CharTables where
  citationCheckStrictness : Text
  faithfulnessThreshold : ℚ
  /-- `str(v)`. -/
  str : PyTree → Text

section
variable (cfg : Settings)

/-- The sentences that are long enough. -/
def sentences (text : Text) : List Text :=
  ((findall sentencePattern text).map strip).filter fun s => 12 < s.length

/-- A sentence that draws a conclusion, or ends. -/
def isConclusion (sentence : Text) : Bool :=
  !((conclusionPattern cfg.toCharTables).finditer (lower cfg.toCharTables sentence)).isEmpty ||
    sentence.getLast?.any fun c => c ∈ "。.!?".toList

def claimOf (p : Text × ℕ) : Text × Text := ("claim_".toList ++ (toString p.2).toList, p.1.take 300)

def highValueClaims (text : Text) : List (Text × Text) :=
  let claims := (((sentences text).take 12).zipIdx.filter fun p => isConclusion cfg p.1).map claimOf
  if claims.isEmpty then ((sentences text).take 1).map fun s => claimOf (s, 0) else claims

def tokens (minTokenLen : ℤ) (claim : Text) : List Text :=
  (findall (tokenPattern cfg.toCharTables) (lower cfg.toCharTables claim)).filter fun t =>
    minTokenLen ≤ t.length || (t.all cfg.isDigit && 2 ≤ t.length)

/-- Whether a claim is supported, and how strongly. -/
def claimSupported (supportRatio : ℚ) (minTokenLen : ℤ) (evidenceText claim : Text) : Bool × String :=
  let ts := tokens cfg minTokenLen claim
  if ts.isEmpty then (true, "trivial")
  else
    let ratio : ℚ := (ts.countP fun t => contains (lower cfg.toCharTables evidenceText) t) / ts.length
    if supportRatio ≤ ratio then (true, if 3 / 4 ≤ ratio then "direct" else "contextual") else (false, "none")

/-! ### Evidence -/

/-- The evidence that was injected. -/
structure Injected (α : Type*) where
  hits : List PyRecord
  packets : List (EvidencePacket α)

/-- `d.get(key)`. -/
def value (d : PyRecord) (key : String) : PyTree := d.getD key.toList nil

/-- The texts of the packets. -/
def packetTexts (packets : List (EvidencePacket α)) : List Text :=
  (packets.map EvidencePacket.snippetText).filter fun t => !t.isEmpty

/-- The texts of the hits. -/
def hitTexts (hits : List PyRecord) : List Text :=
  (hits.filter fun h => (value h "content").truthy).map fun h => cfg.str (value h "content")

def packetsCorpus (e : Injected α) : Text :=
  joinLines (if (packetTexts e.packets).isEmpty then hitTexts cfg e.hits else packetTexts e.packets)

def packetIds (p : EvidencePacket α) : List Text := [p.chunkId, p.sourceId].filter fun t => !t.isEmpty

/-- `doc_id`, and `parent_doc_id` of the metadata. -/
def hitIds (h : PyRecord) : List Text :=
  ([value h "doc_id", (value h "metadata").orEmpty.get "parent_doc_id"].filter fun v => v.truthy).map cfg.str

def injectedIds (e : Injected α) : List Text := e.packets.flatMap packetIds ++ e.hits.flatMap (hitIds cfg)

/-! ### The check -/

structure ClaimBinding where
  claimId : Text
  claimText : Text
  citationId : Text
  supportStrength : String
  supported : Bool

structure GroundingCheckResult where
  grounded : Bool
  score : ℚ
  answerMode : Text
  bindings : List ClaimBinding := []
  unsupportedClaims : List Text := []
  fakeCitations : List Text := []
  failureTags : List Text := []
  citedIds : List Text := []
  injectedCount : ℕ := 0

/-- `round(score, 3)`. The score is a quotient of two numbers up to 13, so it stands nowhere in the middle. -/
def roundScore (score : ℚ) : ℚ := (round (score * 1000) : ℤ) / 1000

/-- The parameters of `check_grounding`. -/
structure Check where
  answer : Text
  answerMode : Text
  supportRatio : ℚ
  minTokenLen : ℤ

variable (q : Check)

/-- The answer is not looked at. -/
def unchecked : Bool := lower cfg.toCharTables cfg.citationCheckStrictness = "off".toList || strip q.answer = []

def bindingOf (corpus : Text) (claim : Text × Text) : ClaimBinding :=
  let support := claimSupported cfg q.supportRatio q.minTokenLen corpus claim.2
  ⟨claim.1, claim.2, ((extractCitations claim.2).head?).getD [], support.2, support.1⟩

def bindingsOf (corpus : Text) : List ClaimBinding :=
  (highValueClaims cfg q.answer).map (bindingOf cfg q corpus)

/-- There is no evidence at all. -/
def bare (e : Injected α) : Bool := (packetsCorpus cfg e).isEmpty && e.hits.isEmpty && e.packets.isEmpty

def unsupportedOf (e : Injected α) : List Text :=
  ((bindingsOf cfg q (packetsCorpus cfg e)).filter fun b => !b.supported).map ClaimBinding.claimText ++
    if bare cfg e then ["no injected evidence".toList] else []

def fakeCitationsOf (e : Injected α) : List Text :=
  (extractCitations q.answer).filter fun c => !(c ∈ injectedIds cfg e : Bool)

/-- The score before it is rounded. -/
def rawScore (e : Injected α) : ℚ :=
  1 - ((unsupportedOf cfg q e).length : ℚ) / (max (bindingsOf cfg q (packetsCorpus cfg e)).length 1 : ℕ)

def isGrounded (e : Injected α) : Bool :=
  cfg.faithfulnessThreshold ≤ rawScore cfg q e &&
    !(q.answerMode = "strict_grounded".toList && !(unsupportedOf cfg q e).isEmpty) &&
    !(q.answerMode = "refuse_if_insufficient".toList &&
      (!(unsupportedOf cfg q e).isEmpty || !(fakeCitationsOf cfg q e).isEmpty))

def failureTagsOf (e : Injected α) : List Text :=
  Firsts.firsts (· = ·) ((fakeCitationsOf cfg q e).map (fun _ => "fake_citation".toList) ++
    if (unsupportedOf cfg q e).isEmpty then [] else ["unsupported_generation".toList])

def checkGrounding (e : Injected α) : GroundingCheckResult :=
  if unchecked cfg q then { grounded := true, score := 1, answerMode := q.answerMode }
  else
    { grounded := isGrounded cfg q e
      score := roundScore (rawScore cfg q e)
      answerMode := q.answerMode
      bindings := bindingsOf cfg q (packetsCorpus cfg e)
      unsupportedClaims := (unsupportedOf cfg q e).take 8
      fakeCitations := fakeCitationsOf cfg q e
      failureTags := failureTagsOf cfg q e
      citedIds := extractCitations q.answer
      injectedCount := (Firsts.firsts (· = ·) (injectedIds cfg e)).length }

end

/-! ### What is asked of the check -/

/-- All of it is there in the other one. -/
structure Injected.Within (e e' : Injected α) : Prop where
  hits : e.hits ⊆ e'.hits
  packets : e.packets ⊆ e'.packets

/-- No result is worse afterwards. -/
structure NeverWorse (before after : GroundingCheckResult) : Prop where
  score : before.score ≤ after.score
  claims : ∀ b ∈ after.bindings, b.supported = false →
    ∃ b' ∈ before.bindings, b'.claimId = b.claimId ∧ b'.claimText = b.claimText ∧ b'.supported = false
  citations : ∀ c ∈ after.fakeCitations, c ∈ before.fakeCitations
  grounded : before.grounded = true → after.grounded = true

section
variable (cfg : Settings) (q : Check)

def Supported (corpus claim : Text) : Prop := (claimSupported cfg q.supportRatio q.minTokenLen corpus claim).1 = true

/-- There is no evidence, and no claim is supported without any. -/
def NothingHolds (e : Injected α) : Prop :=
  unchecked cfg q = false ∧ e.hits = [] ∧ e.packets = [] ∧ highValueClaims cfg q.answer ≠ [] ∧
    ∀ claim ∈ highValueClaims cfg q.answer, ¬ Supported cfg q [] claim.2

/-- Where packets with text take the place of the hits, they support what the hits supported. -/
def KeepsSupport (e e' : Injected α) : Prop :=
  unchecked cfg q = true ∨ packetTexts e.packets ≠ [] ∨ packetTexts e'.packets = [] ∨
    ∀ claim ∈ highValueClaims cfg q.answer, Supported cfg q (joinLines (hitTexts cfg e.hits)) claim.2 →
      Supported cfg q (joinLines (packetTexts e'.packets)) claim.2

end

/-! ### Texts of several lines -/

theorem joinLines_cons_cons (l m : Text) (ls : List Text) :
    joinLines (l :: m :: ls) = l ++ '\n' :: joinLines (m :: ls) := by
  rw [joinLines, List.intercalate_cons_cons, joinLines]
  simp

/-- What has no line break stands in one of the lines. -/
theorem infix_joinLines_iff {t : Text} (hne : t ≠ []) (ht : '\n' ∉ t) : ∀ {ls : List Text},
    t <:+: joinLines ls ↔ ∃ l ∈ ls, t <:+: l
  | [] => by simp [joinLines, hne]
  | [l] => by simp [joinLines]
  | l :: m :: ls => by
      rw [joinLines_cons_cons, List.exists_mem_cons_iff, ← infix_joinLines_iff hne ht]
      constructor
      · exact infix_append_cons ht
      · rintro (h | h)
        · exact h.trans (List.prefix_append _ _).isInfix
        · exact h.trans ((List.suffix_cons _ _).trans (List.suffix_append _ _)).isInfix

theorem infix_joinLines_of_subset {t : Text} (ht : '\n' ∉ t) {ls ms : List Text} (h : ls ⊆ ms)
    (hin : t <:+: joinLines ls) : t <:+: joinLines ms := by
  by_cases hne : t = []
  · rw [hne]
    exact List.nil_infix
  · obtain ⟨l, hl, hline⟩ := (infix_joinLines_iff hne ht).1 hin
    exact (infix_joinLines_iff hne ht).2 ⟨l, h hl, hline⟩

theorem lower_joinLines (u : CharTables) : ∀ ls : List Text, lower u (joinLines ls) = joinLines (ls.map (lower u))
  | [] => rfl
  | [l] => by simp [joinLines]
  | l :: m :: ls => by
      rw [joinLines_cons_cons, List.map_cons, List.map_cons, joinLines_cons_cons, ← List.map_cons,
        ← lower_joinLines u (m :: ls), lower, List.flatMap_append, List.flatMap_cons, u.lower_newline]
      rfl

/-! ### Tokens -/

theorem newline_not_mem_token {u : CharTables} {m : Text} (h : Lang (token u) m) : '\n' ∉ m := by
  rcases h with (⟨m₁, m₂, rfl, hm₁, hm₂⟩ | hm) | hm
  · have hdigits {d : Text} (hd : Lang (.rep u.isDigit 1 none) d) : '\n' ∉ d := fun hmem => by
      have hnewline := hd.1 _ hmem
      rw [u.newline_not_digit] at hnewline
      cases hnewline
    rw [List.mem_append, not_or]
    refine ⟨hdigits hm₁, ?_⟩
    rcases hm₂ with ⟨point, d, rfl, ⟨c, rfl, hc⟩, hd⟩ | rfl
    · rw [List.singleton_append, List.mem_cons, not_or]
      refine ⟨?_, hdigits hd⟩
      rw [beq_iff_eq.1 hc]
      decide
    · exact List.not_mem_nil
  · exact fun hmem => absurd (hm.1 _ hmem) (by decide)
  · exact fun hmem => absurd (hm.1 _ hmem) (by decide)

/-- A match of a pattern of one part. -/
theorem lang_of_findall {r : Re} {pat : Parts} (hpat : pat.parts = [r]) {t s : Text} (h : s ∈ findall pat t) :
    Lang r s := by
  obtain ⟨m, hm, rfl⟩ := List.mem_map.1 h
  have hall : ∀ {ms : List Match} {i : ℕ}, Stand pat t i ms → ∀ m ∈ ms, Lang r (matched t m) := by
    intro ms
    induction ms with
    | nil => exact fun _ _ hm => nomatch hm
    | cons m ms ih =>
      intro i hstand m' hm'
      cases hstand with
      | cons texts hi hlang hparts hpre hrest =>
        rcases List.mem_cons.1 hm' with rfl | hm'
        · obtain ⟨rest, hrest⟩ := hpre
          have hsum : m'.parts.sum = texts.flatten.length := by rw [hparts, sum_map_length]
          rw [matched, ← hrest, hsum, List.take_left']
          · rw [hpat] at hlang
            obtain ⟨text, rfl, htext⟩ : ∃ text, texts = [text] ∧ Lang r text := by
              rcases hlang with _ | ⟨htext, _ | _⟩
              exact ⟨_, rfl, htext⟩
            rwa [List.flatten_singleton]
          · rfl
        · exact ih hrest m' hm'
  exact hall (pat.stand_finditer t) m hm

section
variable {cfg : Settings} {q : Check}

theorem newline_not_mem_tokens {minTokenLen : ℤ} {claim t : Text} (h : t ∈ tokens cfg minTokenLen claim) : '\n' ∉ t :=
  newline_not_mem_token (lang_of_findall rfl (List.mem_of_mem_filter h))

/-- More lines support what fewer of them do. -/
theorem Supported.mono {ls ms : List Text} (h : ls ⊆ ms) {claim : Text} (hs : Supported cfg q (joinLines ls) claim) :
    Supported cfg q (joinLines ms) claim := by
  rw [Supported, claimSupported] at hs ⊢
  dsimp only at hs ⊢
  by_cases hnone : (tokens cfg q.minTokenLen claim).isEmpty
  · rw [if_pos hnone]
  rw [if_neg hnone] at hs ⊢
  have hcount : (tokens cfg q.minTokenLen claim).countP
        (fun t => contains (lower cfg.toCharTables (joinLines ls)) t) ≤
      (tokens cfg q.minTokenLen claim).countP fun t => contains (lower cfg.toCharTables (joinLines ms)) t := by
    refine List.countP_mono_left fun t ht hin => ?_
    rw [contains_iff, lower_joinLines] at hin ⊢
    exact infix_joinLines_of_subset (newline_not_mem_tokens ht) (List.map_subset _ h) hin
  have hratio : q.supportRatio ≤ ((tokens cfg q.minTokenLen claim).countP
      (fun t => contains (lower cfg.toCharTables (joinLines ls)) t) : ℚ) / (tokens cfg q.minTokenLen claim).length := by
    by_contra hlow
    rw [if_neg hlow] at hs
    cases hs
  rw [if_pos (hratio.trans _)]
  gcongr

variable {e e' : Injected α}

theorem packetTexts_subset {l m : List (EvidencePacket α)} (h : l ⊆ m) : packetTexts l ⊆ packetTexts m :=
  List.filter_subset _ (List.map_subset _ h)

theorem hitTexts_subset {l m : List PyRecord} (h : l ⊆ m) : hitTexts cfg l ⊆ hitTexts cfg m :=
  List.map_subset _ (List.filter_subset _ h)

/-- Every claim stays supported just where no packet with text takes from it what the hits had. -/
theorem supported_kept_iff (h : e.Within e') (hchecked : unchecked cfg q = false) :
    (∀ claim ∈ highValueClaims cfg q.answer, Supported cfg q (packetsCorpus cfg e) claim.2 →
      Supported cfg q (packetsCorpus cfg e') claim.2) ↔ KeepsSupport cfg q e e' := by
  rw [KeepsSupport, hchecked, packetsCorpus, packetsCorpus]
  have hpackets := packetTexts_subset h.packets
  by_cases hbefore : packetTexts e.packets = []
  · rw [hbefore, if_pos List.isEmpty_nil]
    by_cases hafter : packetTexts e'.packets = []
    · rw [hafter, if_pos List.isEmpty_nil]
      exact iff_of_true (fun claim _ => Supported.mono (hitTexts_subset h.hits)) (Or.inr (Or.inr (Or.inl rfl)))
    · rw [if_neg fun hempty => hafter (List.isEmpty_iff.1 hempty)]
      simp [hafter]
  · have hafter : packetTexts e'.packets ≠ [] := fun hnil => hbefore (List.subset_nil.1 (hnil ▸ hpackets))
    rw [if_neg fun hempty => hbefore (List.isEmpty_iff.1 hempty),
      if_neg fun hempty => hafter (List.isEmpty_iff.1 hempty)]
    exact iff_of_true (fun claim _ => Supported.mono hpackets) (Or.inr (Or.inl hbefore))

/-! ### Bindings -/

theorem length_bindingsOf (corpus : Text) : (bindingsOf cfg q corpus).length = (highValueClaims cfg q.answer).length :=
  List.length_map _

theorem length_highValueClaims_le (text : Text) : (highValueClaims cfg text).length ≤ 12 := by
  rw [highValueClaims]
  split_ifs
  · rw [List.length_map, List.length_take]
    omega
  · rw [List.length_map]
    refine (List.length_filter_le _ _).trans ?_
    rw [List.length_zipIdx, List.length_take]
    omega

/-- How many claims a text does not support. -/
def misses (cfg : Settings) (q : Check) (corpus : Text) : ℕ :=
  (highValueClaims cfg q.answer).countP fun claim => !(claimSupported cfg q.supportRatio q.minTokenLen corpus claim.2).1

theorem supported_bindingOf (corpus : Text) (claim : Text × Text) : (bindingOf cfg q corpus claim).supported =
    (claimSupported cfg q.supportRatio q.minTokenLen corpus claim.2).1 := by
  rw [bindingOf]

theorem text_bindingOf (corpus : Text) (claim : Text × Text) : (bindingOf cfg q corpus claim).claimText = claim.2 := by
  rw [bindingOf]

theorem bindingOf_supported_iff {corpus : Text} {claim : Text × Text} :
    (bindingOf cfg q corpus claim).supported = true ↔ Supported cfg q corpus claim.2 := by
  rw [supported_bindingOf, Supported]

theorem length_unsupportedOf (e : Injected α) : (unsupportedOf cfg q e).length =
    misses cfg q (packetsCorpus cfg e) + if bare cfg e then 1 else 0 := by
  rw [unsupportedOf, List.length_append, List.length_map, ← List.countP_eq_length_filter, bindingsOf, List.countP_map,
    misses]
  refine congrArg₂ _ (List.countP_congr fun claim _ => ?_) ?_
  · rw [Function.comp_apply, supported_bindingOf]
  · split_ifs
    · rfl
    · rfl

theorem bare_iff : bare cfg e = true ↔ e.hits = [] ∧ e.packets = [] := by
  rw [bare, Bool.and_eq_true, Bool.and_eq_true, List.isEmpty_iff, List.isEmpty_iff, List.isEmpty_iff, and_assoc]
  refine and_iff_right_of_imp fun h => ?_
  rw [packetsCorpus, h.1, h.2]
  rfl

theorem misses_le (h : ∀ claim ∈ highValueClaims cfg q.answer, Supported cfg q (packetsCorpus cfg e) claim.2 →
    Supported cfg q (packetsCorpus cfg e') claim.2) :
    misses cfg q (packetsCorpus cfg e') ≤ misses cfg q (packetsCorpus cfg e) := by
  refine List.countP_mono_left fun claim hclaim hmiss => ?_
  rw [Bool.not_eq_true'] at hmiss ⊢
  refine Bool.eq_false_iff.2 fun hsupported => ?_
  exact absurd (h claim hclaim hsupported) (Bool.eq_false_iff.1 hmiss)

theorem length_unsupportedOf_le (h : e.Within e') (hkept : ∀ claim ∈ highValueClaims cfg q.answer,
    Supported cfg q (packetsCorpus cfg e) claim.2 → Supported cfg q (packetsCorpus cfg e') claim.2) :
    (unsupportedOf cfg q e').length ≤ (unsupportedOf cfg q e).length := by
  rw [length_unsupportedOf, length_unsupportedOf]
  refine Nat.add_le_add (misses_le hkept) ?_
  by_cases hbare : bare cfg e'
  · obtain ⟨hhits, hpackets⟩ := bare_iff.1 hbare
    have hbefore : bare cfg e = true :=
      bare_iff.2 ⟨List.subset_nil.1 (hhits ▸ h.hits), List.subset_nil.1 (hpackets ▸ h.packets)⟩
    rw [if_pos hbefore, if_pos hbare]
  · rw [if_neg hbare]
    exact Nat.zero_le _

theorem fakeCitationsOf_subset (h : e.Within e') : fakeCitationsOf cfg q e' ⊆ fakeCitationsOf cfg q e := by
  intro c hc
  rw [fakeCitationsOf, List.mem_filter, Bool.not_eq_true', decide_eq_false_iff_not] at hc ⊢
  refine ⟨hc.1, fun hin => hc.2 ?_⟩
  rw [injectedIds, List.mem_append] at hin ⊢
  refine hin.imp (fun hin => ?_) fun hin => ?_
  · obtain ⟨p, hp, hc⟩ := List.mem_flatMap.1 hin
    exact List.mem_flatMap.2 ⟨p, h.packets hp, hc⟩
  · obtain ⟨hit, hhit, hc⟩ := List.mem_flatMap.1 hin
    exact List.mem_flatMap.2 ⟨hit, h.hits hhit, hc⟩

/-! ### The score -/

theorem roundScore_mono {a b : ℚ} (h : a ≤ b) : roundScore a ≤ roundScore b := by
  rw [roundScore, roundScore, round_eq, round_eq]
  have hfloor : ⌊a * 1000 + 1 / 2⌋ ≤ ⌊b * 1000 + 1 / 2⌋ := Int.floor_le_floor (by linarith)
  gcongr

theorem roundScore_le_one {a : ℚ} (h : a ≤ 1) : roundScore a ≤ 1 := by
  have hone : roundScore 1 = 1 := by
    rw [roundScore, round_eq]
    norm_num
  exact hone ▸ roundScore_mono h

theorem roundScore_nonneg_iff {a : ℚ} : 0 ≤ roundScore a ↔ 0 ≤ a * 1000 + 1 / 2 := by
  have hpos : (0 : ℚ) < 1000 := by norm_num
  have hcast : (0 : ℚ) ≤ (⌊a * 1000 + 1 / 2⌋ : ℤ) ↔ 0 ≤ ⌊a * 1000 + 1 / 2⌋ := by exact_mod_cast Iff.rfl
  rw [roundScore, round_eq, le_div_iff₀ hpos, zero_mul, hcast, Int.floor_nonneg]

theorem rawScore_le (h : e.Within e') (hkept : ∀ claim ∈ highValueClaims cfg q.answer,
    Supported cfg q (packetsCorpus cfg e) claim.2 → Supported cfg q (packetsCorpus cfg e') claim.2) :
    rawScore cfg q e ≤ rawScore cfg q e' := by
  rw [rawScore, rawScore, length_bindingsOf, length_bindingsOf]
  have hlen : ((unsupportedOf cfg q e').length : ℚ) ≤ (unsupportedOf cfg q e).length :=
    Nat.cast_le.2 (length_unsupportedOf_le h hkept)
  exact sub_le_sub_left (div_le_div_of_nonneg_right hlen (Nat.cast_nonneg _)) 1

theorem rawScore_le_one (e : Injected α) : rawScore cfg q e ≤ 1 := by
  rw [rawScore]
  exact sub_le_self _ (by positivity)

/-- The score is not negative just where there is evidence, or a claim that needs none, or no claim. -/
theorem roundScore_rawScore_nonneg_iff (hchecked : unchecked cfg q = false) :
    0 ≤ roundScore (rawScore cfg q e) ↔ ¬ NothingHolds cfg q e := by
  have hmost := @length_highValueClaims_le cfg q.answer
  have hmisses : misses cfg q (packetsCorpus cfg e) ≤ (highValueClaims cfg q.answer).length := List.countP_le_length
  rw [roundScore_nonneg_iff, rawScore, length_bindingsOf, length_unsupportedOf]
  generalize hn : (highValueClaims cfg q.answer).length = n at hmost hmisses
  have hnothing : NothingHolds cfg q e ↔
      bare cfg e = true ∧ 0 < n ∧ misses cfg q (packetsCorpus cfg e) = n := by
    have hcorpus (h : e.hits = [] ∧ e.packets = []) : packetsCorpus cfg e = [] := by
      rw [packetsCorpus, h.1, h.2]
      rfl
    rw [NothingHolds, bare_iff, ← hn, List.length_pos_iff]
    constructor
    · rintro ⟨-, hhits, hpackets, hne, hall⟩
      refine ⟨⟨hhits, hpackets⟩, hne, ?_⟩
      rw [hcorpus ⟨hhits, hpackets⟩, misses, List.countP_eq_length]
      exact fun claim hclaim => Bool.not_eq_true' _ ▸ Bool.eq_false_iff.2 (hall claim hclaim)
    · rintro ⟨hnone, hne, hall⟩
      rw [hcorpus hnone, misses, List.countP_eq_length] at hall
      refine ⟨hchecked, hnone.1, hnone.2, hne, fun claim hclaim => ?_⟩
      exact Bool.eq_false_iff.1 (Bool.not_eq_true' _ ▸ hall claim hclaim)
  rw [hnothing]
  generalize misses cfg q (packetsCorpus cfg e) = k at hmisses
  by_cases hmore : bare cfg e = true ∧ 0 < n ∧ k = n
  · obtain ⟨hbare, hpos, rfl⟩ := hmore
    refine iff_of_false (not_le.2 ?_) (not_not_intro ⟨hbare, hpos, rfl⟩)
    have hk : (0 : ℚ) < k := Nat.cast_pos.2 hpos
    have hk' : (k : ℚ) ≤ 12 := by exact_mod_cast hmost
    have hquotient : (1 : ℚ) / 12 ≤ 1 / k := one_div_le_one_div_of_le hk hk'
    have hsplit : 1 - ((k + 1 : ℕ) : ℚ) / k = -(1 / k) := by
      push_cast
      field_simp
      ring
    rw [if_pos hbare, max_eq_left hpos, hsplit]
    linarith
  · refine iff_of_true ?_ hmore
    have hle : k + (if bare cfg e then 1 else 0) ≤ max n 1 := by
      split_ifs with hbare
      · by_cases hpos : 0 < n
        · have hne : k ≠ n := fun heq => hmore ⟨hbare, hpos, heq⟩
          omega
        · omega
      · omega
    have hone : ((k + if bare cfg e then 1 else 0 : ℕ) : ℚ) / (max n 1 : ℕ) ≤ 1 :=
      div_le_one_of_le₀ (Nat.cast_le.2 hle) (Nat.cast_nonneg _)
    linarith

/-! ### The check as a whole -/

theorem checkGrounding_of_checked (h : unchecked cfg q = false) (e : Injected α) : checkGrounding cfg q e =
    ⟨isGrounded cfg q e, roundScore (rawScore cfg q e), q.answerMode, bindingsOf cfg q (packetsCorpus cfg e),
      (unsupportedOf cfg q e).take 8, fakeCitationsOf cfg q e, failureTagsOf cfg q e, extractCitations q.answer,
      (Firsts.firsts (· = ·) (injectedIds cfg e)).length⟩ := if_neg (Bool.eq_false_iff.1 h)

theorem checkGrounding_of_unchecked (h : unchecked cfg q = true) (e : Injected α) :
    checkGrounding cfg q e = { grounded := true, score := 1, answerMode := q.answerMode } := if_pos h

theorem isGrounded_mono (hscore : rawScore cfg q e ≤ rawScore cfg q e')
    (hunsupported : (unsupportedOf cfg q e').length ≤ (unsupportedOf cfg q e).length)
    (hfakes : fakeCitationsOf cfg q e' ⊆ fakeCitationsOf cfg q e) (h : isGrounded cfg q e = true) :
    isGrounded cfg q e' = true := by
  have hnone : (unsupportedOf cfg q e).isEmpty = true → (unsupportedOf cfg q e').isEmpty = true := by
    rw [List.isEmpty_iff_length_eq_zero, List.isEmpty_iff_length_eq_zero]
    omega
  have hreal : (fakeCitationsOf cfg q e).isEmpty = true → (fakeCitationsOf cfg q e').isEmpty = true := by
    rw [List.isEmpty_iff, List.isEmpty_iff]
    exact fun hnil => List.subset_nil.1 (hnil ▸ hfakes)
  rw [isGrounded] at h ⊢
  simp only [Bool.and_eq_true, decide_eq_true_eq] at h ⊢
  obtain ⟨⟨hthreshold, hstrict⟩, hrefuse⟩ := h
  refine ⟨⟨hthreshold.trans hscore, ?_⟩, ?_⟩
  · grind
  · grind

theorem neverWorse_of_kept (h : e.Within e') (hchecked : unchecked cfg q = false)
    (hkept : ∀ claim ∈ highValueClaims cfg q.answer, Supported cfg q (packetsCorpus cfg e) claim.2 →
      Supported cfg q (packetsCorpus cfg e') claim.2) :
    NeverWorse (checkGrounding cfg q e) (checkGrounding cfg q e') := by
  have hunsupported := length_unsupportedOf_le h hkept
  have hfakes := @fakeCitationsOf_subset _ cfg q e e' h
  have hscore := rawScore_le h hkept
  rw [checkGrounding_of_checked hchecked, checkGrounding_of_checked hchecked]
  constructor
  · exact roundScore_mono hscore
  · intro b hb hsupport
    dsimp only at hb ⊢
    rw [bindingsOf] at hb
    obtain ⟨claim, hclaim, rfl⟩ := List.mem_map.1 hb
    refine ⟨bindingOf cfg q (packetsCorpus cfg e) claim, List.mem_map_of_mem hclaim, ?_, ?_, ?_⟩
    · rw [bindingOf, bindingOf]
    · rw [text_bindingOf, text_bindingOf]
    refine Bool.eq_false_iff.2 fun hbefore => Bool.eq_false_iff.1 hsupport ?_
    exact bindingOf_supported_iff.2 (hkept claim hclaim (bindingOf_supported_iff.1 hbefore))
  · exact fun c hc => hfakes hc
  · exact isGrounded_mono hscore hunsupported hfakes

theorem kept_of_neverWorse (hchecked : unchecked cfg q = false)
    (h : NeverWorse (checkGrounding cfg q e) (checkGrounding cfg q e')) :
    ∀ claim ∈ highValueClaims cfg q.answer, Supported cfg q (packetsCorpus cfg e) claim.2 →
      Supported cfg q (packetsCorpus cfg e') claim.2 := by
  have hclaims := h.claims
  rw [checkGrounding_of_checked hchecked, checkGrounding_of_checked hchecked] at hclaims
  intro claim hclaim hbefore
  by_contra hafter
  obtain ⟨b, hb, -, htext, hsupport⟩ := hclaims (bindingOf cfg q (packetsCorpus cfg e') claim)
    (List.mem_map_of_mem hclaim) (Bool.eq_false_iff.2 fun h => hafter (bindingOf_supported_iff.1 h))
  obtain ⟨claim', -, rfl⟩ := List.mem_map.1 hb
  rw [text_bindingOf, text_bindingOf] at htext
  rw [Bool.eq_false_iff, ne_eq, bindingOf_supported_iff, htext] at hsupport
  exact hsupport hbefore

end

/-- The score lies between 0 and 1 unless there is no evidence and no claim holds without any; more evidence makes
    nothing worse unless packets with text take the place of hits that supported more. -/
theorem grounding_iff (cfg : Settings) (q : Check) (e : Injected α) :
    (0 ≤ (checkGrounding cfg q e).score ∧ (checkGrounding cfg q e).score ≤ 1 ↔ ¬ NothingHolds cfg q e) ∧
    ∀ e', e.Within e' →
      (NeverWorse (checkGrounding cfg q e) (checkGrounding cfg q e') ↔ KeepsSupport cfg q e e') := by
  cases hchecked : unchecked cfg q with
  | true =>
    refine ⟨?_, fun e' _ => ?_⟩
    · rw [checkGrounding_of_unchecked hchecked]
      refine iff_of_true ⟨zero_le_one, le_rfl⟩ fun h => ?_
      rw [h.1] at hchecked
      cases hchecked
    · rw [checkGrounding_of_unchecked hchecked, checkGrounding_of_unchecked hchecked]
      refine iff_of_true ⟨le_rfl, ?_, fun _ hc => hc, fun hg => hg⟩ (Or.inl hchecked)
      exact fun b hb => nomatch hb
  | false =>
    refine ⟨?_, fun e' h => ?_⟩
    · rw [← roundScore_rawScore_nonneg_iff hchecked, checkGrounding_of_checked hchecked]
      exact and_iff_left (roundScore_le_one (rawScore_le_one e))
    · rw [← supported_kept_iff h hchecked]
      exact ⟨kept_of_neverWorse hchecked, neverWorse_of_kept h hchecked⟩

def asciiTables : CharTables where
  lowerChar := fun c => [c.toLower]
  isDigit := Char.isDigit
  isWord := fun c => c.isAlphanum || c == '_'
  sameLetter := (· == ·)
  lower_newline := rfl
  newline_not_digit := rfl

def basicSettings : Settings where
  toCharTables := asciiTables
  citationCheckStrictness := "basic".toList
  faithfulnessThreshold := 7 / 10
  str := fun v =>
    match v with
    | leaf v => v.toText
    | _ => []

def capital : Check := ⟨"Paris is the capital of France.".toList, "best_effort_grounded".toList, 1 / 2, 4⟩

/-- A hit that says what the answer says. -/
def capitalHit : PyRecord := .ofList [entry "content" (leaf (.str "Paris is the capital of France".toList))]

/-- A packet that says something else. -/
def otherPacket : EvidencePacket ℚ where
  packetId := "p".toList
  snippetText := "Other text".toList
  sourceId := "s".toList
  chunkId := "c".toList
  supportType := "direct".toList
  scoreBreakdown := ⟨0, 0, 0, 0, 0, 0, 0, 0⟩
  sourceTitle := []
  sourceType := "knowledge".toList
  authorityLevel := 1 / 2

/-- No evidence: the score is -1. A packet beside the hit that supports the answer: from 1 to 0. -/
theorem grounding_gaps :
    (¬ ∀ (cfg : Settings) (q : Check) (e : Injected ℚ), 0 ≤ (checkGrounding cfg q e).score) ∧
    ¬ ∀ (cfg : Settings) (q : Check) (e e' : Injected ℚ), e.Within e' →
      NeverWorse (checkGrounding cfg q e) (checkGrounding cfg q e') := by
  refine ⟨fun h => ?_, fun h => ?_⟩
  · exact absurd (h basicSettings capital ⟨[], []⟩) (by decide +kernel)
  · have hworse := h basicSettings capital ⟨[capitalHit], []⟩ ⟨[capitalHit], [otherPacket]⟩
      ⟨List.Subset.refl _, List.nil_subset _⟩
    exact absurd hworse.score (by decide +kernel)

end AgentLangraph.Evidence.Grounding
