import AgentLangraph.Evidence.Grounding
import AgentLangraph.Lib.Substitute

/-! Snippets and their places (`snippet_extractor.py`, `evidence_assembly.py`): what is cut out of a candidate for a
    packet, and the `char_range` that says where it stands.

        content ──▶ blocks │ sentences │ all of it ──▶ title, summary ──▶ neighbours ──▶ cut
                              (0, length of the snippet)                 (numbers of sentences)

    A snippet is kept as its parts, so that what is prose and what is not can be told apart when it is cut. -/

namespace AgentLangraph.Evidence.Spans
open PyText PyFloat Regex
open AgentLangraph.Evidence.Grounding (findall sentencePattern)

/-! ### Snippets -/

inductive Kind where
  | title
  | gap
  | block
  | sentence
  | prose
  | summary
  deriving DecidableEq

/-- A part of a snippet. -/
structure Segment where
  kind : Kind
  text : Text
  deriving DecidableEq

abbrev Snippet := List Segment

/-- The snippet itself. -/
def textOf (s : Snippet) : Text := s.flatMap Segment.text

/-- `snippet[:n]`. -/
def cut : ℕ → Snippet → Snippet
  | _, [] => []
  | n, seg :: s => { seg with text := seg.text.take n } :: cut (n - seg.text.length) s

/-- `snippet[n:]`. -/
def dropFront : ℕ → Snippet → Snippet
  | _, [] => []
  | n, seg :: s => { seg with text := seg.text.drop n } :: dropFront (n - seg.text.length) s

/-- `snippet.strip()`. -/
def trim (s : Snippet) : Snippet :=
  cut (strip (textOf s)).length (dropFront ((textOf s).length - (lstrip (textOf s)).length) s)

/-- `snippet[:k]` for an `int`. -/
def cutTo (k : ℤ) (s : Snippet) : Snippet :=
  cut (if 0 ≤ k then k.toNat else (textOf s).length - (-k).toNat) s

/-- `sep.join(texts)`. -/
def joined (kind : Kind) (sep : Text) : List Text → Snippet
  | [] => []
  | [t] => [⟨kind, t⟩]
  | t :: u :: ts => ⟨kind, t⟩ :: ⟨.gap, sep⟩ :: joined kind sep (u :: ts)

theorem textOf_cut : ∀ (n : ℕ) (s : Snippet), textOf (cut n s) = (textOf s).take n
  | n, [] => by simp [cut, textOf]
  | n, seg :: s => by
    have h := textOf_cut (n - seg.text.length) s
    rw [textOf] at h
    rw [cut, textOf, textOf, List.flatMap_cons, List.flatMap_cons, h, List.take_append]
    rfl

theorem textOf_cutTo (k : ℤ) (s : Snippet) : textOf (cutTo k s) = sliceTo k (textOf s) := by
  rw [cutTo, textOf_cut, sliceTo]
  split_ifs <;> rfl

/-! ### Extraction -/

/-- The settings, `str.lower` and `\w`. -/
structure Settings where
  lower : Text → Text
  isWord : Char → Bool
  snippetFirst : Bool
  snippetMaxChars : ℤ
  expandRadius : ℤ
  dualTrack : Bool
  maxSentences : ℤ

section
variable (cfg : Settings)

/-- `_TOKEN_RE`. -/
def tokenPattern : Parts where
  opens := fun _ => true
  parts := [.rep (fun c => cfg.isWord c || ('一' ≤ c && c ≤ '\u9fff')) 1 none]
  closes := fun _ => true
  plain := by simp [Re.Plain]

/-- `_tokenize`: a set. -/
def tokenize (text : Text) : List Text :=
  (((findall (tokenPattern cfg) text).filter fun t => 1 < t.length).map cfg.lower).dedup

/-- The opening of `_CODE_FENCE_RE`. -/
def fenceOpening : Re := litWith (· == ·) "```".toList (.seq (.rep cfg.isWord 0 none) (.cls (· == '\n')))

def fenceClosing : Re := lit (· == ·) "```".toList

/-- The match of `_CODE_FENCE_RE` at the front of a text: its group, and what is left. -/
def fenceMatch (t : Text) : Option (Text × Text) :=
  (rests (fenceOpening cfg) t).findSome? fun body =>
    (lazyTo fenceClosing body).map fun rest => (body.take (body.length - rest.length - 3), rest)

/-- `_CODE_FENCE_RE.findall`. The fuel bounds the number of places that are looked at. -/
def fencesFrom : ℕ → Text → List Text
  | 0, _ => []
  | fuel + 1, t =>
    match fenceMatch cfg t with
    | some (block, rest) => block :: fencesFrom fuel rest
    | none =>
      match t with
      | [] => []
      | _ :: cs => fencesFrom fuel cs

def fences (t : Text) : List Text := fencesFrom cfg (t.length + 1) t

/-- The sentences that are long enough. -/
def sentencesOf (text : Text) : List Text :=
  ((findall sentencePattern text).map strip).filter fun s => 8 < s.length

variable (α : Type*) [PyFloat α]

def sentenceScore (sentence : Text) (queryTokens : List Text) : α :=
  if queryTokens = [] then 0
  else ((queryTokens.countP fun t => contains (cfg.lower sentence) t : ℕ) : α) / ((queryTokens.length : ℕ) : α)

/-- The blocks that fit the query best. -/
def topBlocks (text query : Text) : List Text :=
  let scored := ((fences cfg text).filter fun b => strip b ≠ []).map fun b =>
    (sentenceScore cfg α b (tokenize cfg query), strip b)
  ((sortDesc Prod.fst scored).take 2).map Prod.snd

def extractCodeBlocks (text query : Text) : Snippet :=
  cut 3000 (joined .block "\n\n".toList (topBlocks cfg α text query))

/-- The sentences that fit the query best, in the order of the text. -/
def topSentences (text query : Text) : List Text :=
  let scored := (sentencesOf text).zipIdx.map fun p => (p.2, sentenceScore cfg α p.1 (tokenize cfg query), p.1)
  ((sliceTo cfg.maxSentences (sortDesc (fun p => p.2.1) scored)).insertionSort fun p q => p.1 ≤ q.1).map
    fun p => p.2.2

def titlePart (title : Text) : Snippet := if title = [] then [] else [⟨.title, "[".toList ++ title ++ "] ".toList⟩]

def summaryPart (text : Text) : Segment :=
  ⟨.summary, "\n[chunk_summary] ".toList ++ (text.take 120).map (fun c => if c = '\n' then ' ' else c) ++ "...".toList⟩

/-- The text, or the sentences of it that fit best. -/
def bodyOf (text query : Text) : Snippet :=
  if ((sentencesOf text).length : ℤ) ≤ cfg.maxSentences then [⟨.prose, text.take 3000⟩]
  else joined .sentence " ".toList (topSentences cfg α text query)

/-- The snippet before it is cut: its length is the end of the range. -/
def uncutSnippet (text query title purpose : Text) : Snippet :=
  let code := extractCodeBlocks cfg α text query
  if (purpose = "code_fix".toList ∨ contains text "```".toList = true) ∧ textOf code ≠ [] then
    if title = [] then code else trim (titlePart title ++ code)
  else
    let snippet := trim (titlePart title ++ bodyOf cfg α text query)
    if cfg.dualTrack ∧ (textOf snippet).length + 100 < text.length then snippet ++ [summaryPart text] else snippet

/-- `extract_snippet`. -/
def extractSnippet (text query title purpose : Text) : Snippet × ℕ × ℕ :=
  let snippet := uncutSnippet cfg α text query title purpose
  (cut 3000 snippet, 0, (textOf snippet).length)

/-! ### Neighbours -/

/-- The part of the words of a sentence that the snippet has; `none` for a sentence without words. -/
def overlapOf (snippetTokens : List Text) (sentence : Text) : Option α :=
  match findall (tokenPattern cfg) (cfg.lower sentence) with
  | [] => none
  | tokens => some (((tokens.dedup.countP (· ∈ snippetTokens) : ℕ) : α) / ((max tokens.length 1 : ℕ) : α))

def betterIndex (snippetTokens : List Text) (best : ℕ × α) (p : Text × ℕ) : ℕ × α :=
  match overlapOf cfg α snippetTokens p.1 with
  | none => best
  | some overlap => if best.2 < overlap then (p.2, overlap) else best

/-- The number of the sentence that has most in common with the snippet. -/
def bestIndex (sentences : List Text) (snippet : Text) : ℕ :=
  (sentences.zipIdx.foldl (betterIndex cfg α (findall (tokenPattern cfg) (cfg.lower snippet))) (0, 0)).1

/-- The sentences from one number to another. -/
def neighbours (content : Text) (span : ℕ × ℕ) : Snippet :=
  joined .sentence " ".toList (((sentencesOf content).take span.2).drop span.1)

/-- The numbers of the neighbours, where the snippet is short enough, there is more than one sentence, and they are
    not too much of the content. -/
def expansion (content snippet : Text) : Option (ℕ × ℕ) :=
  let sentences := sentencesOf content
  if 80 ≤ snippet.length ∨ cfg.expandRadius ≤ 0 ∨ sentences.length ≤ 1 then none
  else
    let best := bestIndex cfg α sentences snippet
    let span := (best - cfg.expandRadius.toNat, min sentences.length (best + cfg.expandRadius.toNat + 1))
    if ((content.length : ℕ) : α) * 0.6 < (((textOf (neighbours content span)).length : ℕ) : α) then none
    else some span

/-- `_expand_snippet_neighborhood`. -/
def expandSnippetNeighborhood (content : Text) (snippet : Snippet) : Snippet × Option (ℕ × ℕ) :=
  match expansion cfg α content (textOf snippet) with
  | some span => (neighbours content span, some span)
  | none => (snippet, if textOf snippet = [] then none else some (0, (textOf snippet).length))

/-! ### Packets -/

/-- A packet, as far as its place goes. -/
structure Packet where
  sourceId : Text
  chunkId : Text
  snippet : Snippet
  charRange : Option (ℕ × ℕ)

variable {α}

def packetOf (query : QueryObject) (decision : RetrievalDecision) (c : CandidateEvidence α) : Packet :=
  let (snippet, span) := extractSnippet cfg α c.content query.standaloneQuery c.title decision.purpose
  let (snippet, span) :=
    if 0 < cfg.expandRadius ∧ (textOf snippet).length < 80 then expandSnippetNeighborhood cfg α c.content snippet
    else (snippet, some span)
  ⟨c.sourceId, c.chunkId, cutTo cfg.snippetMaxChars snippet, span⟩

/-- `_packets_from_full_chunks`, for one candidate. -/
def fullPacketOf (c : CandidateEvidence α) : Packet :=
  ⟨c.sourceId, c.chunkId, cutTo cfg.snippetMaxChars [⟨.prose, c.content⟩], none⟩

def assembleEvidencePackets (cands : List (CandidateEvidence α)) (query : QueryObject) (decision : RetrievalDecision) :
    List Packet :=
  if cfg.snippetFirst then cands.map (packetOf cfg query decision) else cands.map (fullPacketOf cfg)

/-! ### What the range is to say -/

/-- The sentences and blocks of a part. -/
def Segment.pieces (seg : Segment) : List Text :=
  match seg.kind with
  | .block | .sentence => if seg.text = [] then [] else [seg.text]
  | .prose => ((findall sentencePattern seg.text).map strip).filter (· ≠ [])
  | .title | .gap | .summary => []

def pieces (s : Snippet) : List Text := s.flatMap Segment.pieces

/-- There is no range, or it is one of the content in which every sentence and block of the snippet occurs. -/
def PointsInto (content : Text) (p : Packet) : Prop :=
  ∀ a b, p.charRange = some (a, b) → a ≤ b ∧ b ≤ content.length ∧
    ∀ piece ∈ pieces p.snippet, piece <:+: (content.drop a).take (b - a)

/-- A piece stands in the content between two places. -/
def StandsBetween (content : Text) (a b : ℕ) (piece : Text) : Prop :=
  ∃ i, a ≤ i ∧ i + piece.length ≤ b ∧ piece <+: content.drop i

/-- The neighbours that take the place of a short snippet. -/
def neighboursOf (query : QueryObject) (decision : RetrievalDecision) (c : CandidateEvidence α) : Option (ℕ × ℕ) :=
  let snippet := textOf (extractSnippet cfg α c.content query.standaloneQuery c.title decision.purpose).1
  if 0 < cfg.expandRadius ∧ snippet.length < 80 then expansion cfg α c.content snippet else none

/-- Where what is left of the snippet has to stand: the neighbours between the places that have their numbers, and
    anything else within as many characters as the whole snippet has, which are not more than there are. -/
def Placed (query : QueryObject) (decision : RetrievalDecision) (c : CandidateEvidence α) : Prop :=
  match neighboursOf cfg query decision c with
  | some (first, last) =>
    ∀ piece ∈ pieces (cutTo cfg.snippetMaxChars (neighbours c.content (first, last))),
      StandsBetween c.content first last piece
  | none =>
    let uncut := uncutSnippet cfg α c.content query.standaloneQuery c.title decision.purpose
    (textOf uncut).length ≤ c.content.length ∧
      ∀ piece ∈ pieces (cutTo cfg.snippetMaxChars (cut 3000 uncut)),
        StandsBetween c.content 0 (textOf uncut).length piece

end

/-! ### Windows -/

theorem infix_window_iff {content piece : Text} {a b : ℕ} (hab : a ≤ b) :
    piece <:+: (content.drop a).take (b - a) ↔ StandsBetween content a b piece := by
  constructor
  · rintro ⟨x, y, h⟩
    have hlen := congrArg List.length h
    rw [List.length_append, List.length_append, List.length_take] at hlen
    refine ⟨a + x.length, Nat.le_add_right .., by omega, ?_⟩
    have hdrop : content.drop a = x ++ piece ++ y ++ (content.drop a).drop (b - a) := by
      rw [h, List.take_append_drop]
    rw [← List.drop_drop, hdrop, List.append_assoc, List.append_assoc, List.drop_left]
    exact List.prefix_append ..
  · rintro ⟨i, hai, hib, hpre⟩
    have hwindow : ((content.drop a).take (b - a)).drop (i - a) = (content.drop i).take (b - i) := by
      have hstart : a + (i - a) = i := by omega
      have hsize : b - a - (i - a) = b - i := by omega
      rw [List.drop_take, List.drop_drop, hstart, hsize]
    have hin : piece <+: (content.drop i).take (b - i) := List.prefix_take_iff.2 ⟨hpre, by omega⟩
    rw [← hwindow] at hin
    exact hin.isInfix.trans (List.drop_suffix ..).isInfix

/-! ### Numbers of sentences -/

theorem stand_sentences {t : Text} {ms : List Match} : ∀ {i : ℕ}, Stand sentencePattern t i ms →
    i + ms.length ≤ t.length := by
  induction ms with
  | nil =>
    intro i h
    exact h.le_length
  | cons m ms ih =>
    intro i h
    cases h with
    | cons texts hi hlang hparts hpre hrest =>
      have hpos : 1 ≤ m.parts.sum := by
        rw [hparts]
        cases hlang with
        | cons hsentence _ =>
          rw [List.map_cons, List.sum_cons]
          exact hsentence.2.1.trans (Nat.le_add_right ..)
      have hnext := ih hrest
      rw [Match.stop] at hnext
      rw [List.length_cons]
      omega

/-- There are not more sentences than characters. -/
theorem length_sentencesOf_le (t : Text) : (sentencesOf t).length ≤ t.length := by
  have hstand := stand_sentences (sentencePattern.stand_finditer t)
  refine (List.length_filter_le _ _).trans ?_
  rw [List.length_map, findall, List.length_map]
  omega

section
variable {cfg : Settings} {α : Type*} [PyFloat α]

theorem betterIndex_lt {n : ℕ} {tokens : List Text} : ∀ {l : List (Text × ℕ)} {best : ℕ × α}, (∀ p ∈ l, p.2 < n) →
    best.1 < n → (l.foldl (betterIndex cfg α tokens) best).1 < n
  | [], _, _, hbest => hbest
  | p :: l, best, hl, hbest => by
    refine betterIndex_lt (l := l) (fun q hq => hl q (List.mem_cons_of_mem _ hq)) ?_
    rw [betterIndex]
    split
    · exact hbest
    · split_ifs
      · exact hl p List.mem_cons_self
      · exact hbest

variable (cfg α) in
theorem bestIndex_lt {sentences : List Text} (hne : sentences ≠ []) (snippet : Text) :
    bestIndex cfg α sentences snippet < sentences.length := by
  refine betterIndex_lt (fun p hp => ?_) (List.length_pos_of_ne_nil hne)
  simpa using List.snd_lt_of_mem_zipIdx hp

theorem expansion_le {content snippet : Text} {first last : ℕ}
    (h : expansion cfg α content snippet = some (first, last)) :
    first < last ∧ last ≤ (sentencesOf content).length ∧ last ≤ first + 2 * cfg.expandRadius.toNat + 1 := by
  rw [expansion] at h
  split_ifs at h with hshort
  have hne : sentencesOf content ≠ [] := by
    intro hnil
    rw [hnil] at hshort
    simp at hshort
  have hbest := bestIndex_lt cfg α hne snippet
  dsimp only at h
  split_ifs at h
  obtain ⟨rfl, rfl⟩ := Prod.mk.inj (Option.some.inj h)
  omega

/-! ### Packets -/

theorem packetOf_of_neighbours {query : QueryObject} {decision : RetrievalDecision} {c : CandidateEvidence α}
    {span : ℕ × ℕ} (h : neighboursOf cfg query decision c = some span) : packetOf cfg query decision c =
      ⟨c.sourceId, c.chunkId, cutTo cfg.snippetMaxChars (neighbours c.content span), some span⟩ := by
  rw [neighboursOf] at h
  split_ifs at h with hshort
  simp only [packetOf, if_pos hshort, expandSnippetNeighborhood, h]

/-- Without neighbours the range goes from the start to the length of the snippet; none is given for an empty one. -/
theorem packetOf_of_none {query : QueryObject} {decision : RetrievalDecision} {c : CandidateEvidence α}
    {uncut : Snippet}
    (huncut : uncutSnippet cfg α c.content query.standaloneQuery c.title decision.purpose = uncut)
    (h : neighboursOf cfg query decision c = none) :
    ∃ range, packetOf cfg query decision c =
        ⟨c.sourceId, c.chunkId, cutTo cfg.snippetMaxChars (cut 3000 uncut), range⟩ ∧
      (range = some (0, (textOf uncut).length) ∨ range = none ∧ textOf uncut = []) := by
  rw [neighboursOf] at h
  simp only [extractSnippet, huncut] at h
  split_ifs at h with hshort
  · have hrange : packetOf cfg query decision c =
        ⟨c.sourceId, c.chunkId, cutTo cfg.snippetMaxChars (cut 3000 uncut),
          if textOf (cut 3000 uncut) = [] then none else some (0, (textOf (cut 3000 uncut)).length)⟩ := by
      simp only [packetOf, extractSnippet, huncut, if_pos hshort, expandSnippetNeighborhood, h]
    refine ⟨_, hrange, ?_⟩
    rw [textOf_cut, List.length_take] at hshort
    have hwhole : textOf (cut 3000 uncut) = textOf uncut := by
      rw [textOf_cut]
      exact List.take_of_length_le (by omega)
    rw [hwhole]
    split_ifs with hnil
    · exact Or.inr ⟨rfl, hnil⟩
    · exact Or.inl rfl
  · have hrange : packetOf cfg query decision c =
        ⟨c.sourceId, c.chunkId, cutTo cfg.snippetMaxChars (cut 3000 uncut), some (0, (textOf uncut).length)⟩ := by
      simp only [packetOf, extractSnippet, huncut, if_neg hshort]
    exact ⟨_, hrange, Or.inl rfl⟩

theorem pieces_of_textOf_nil : ∀ {s : Snippet}, textOf s = [] → pieces s = []
  | [], _ => rfl
  | seg :: s, h => by
    obtain ⟨hseg, hs⟩ := List.append_eq_nil_iff.1 (h : seg.text ++ textOf s = [])
    have hnone : seg.pieces = [] := by
      rw [Segment.pieces, hseg]
      cases seg.kind with
      | prose => decide
      | title | gap | block | sentence | summary => simp
    rw [pieces, List.flatMap_cons, hnone]
    exact pieces_of_textOf_nil hs

theorem pointsInto_of_range {content : Text} {p : Packet} {a b : ℕ} (hrange : p.charRange = some (a, b)) (hab : a ≤ b) :
    PointsInto content p ↔ b ≤ content.length ∧ ∀ piece ∈ pieces p.snippet, StandsBetween content a b piece := by
  have hwindow : (∀ piece ∈ pieces p.snippet, piece <:+: (content.drop a).take (b - a)) ↔
      ∀ piece ∈ pieces p.snippet, StandsBetween content a b piece :=
    forall₂_congr fun _ _ => infix_window_iff hab
  rw [← hwindow]
  constructor
  · intro h
    exact (h a b hrange).2
  · rintro h a' b' heq
    rw [hrange] at heq
    obtain ⟨rfl, rfl⟩ := Prod.mk.inj (Option.some.inj heq)
    exact ⟨hab, h⟩

/-- The range of a packet of a snippet is right just where what is left of it stands where the range says. -/
theorem pointsInto_packetOf (query : QueryObject) (decision : RetrievalDecision) (c : CandidateEvidence α) :
    PointsInto c.content (packetOf cfg query decision c) ↔ Placed cfg query decision c := by
  rw [Placed]
  cases hspan : neighboursOf cfg query decision c with
  | some span =>
    obtain ⟨first, last⟩ := span
    have hle : first ≤ last ∧ last ≤ c.content.length := by
      rw [neighboursOf] at hspan
      split_ifs at hspan
      obtain ⟨hfirst, hlast, -⟩ := expansion_le hspan
      exact ⟨hfirst.le, hlast.trans (length_sentencesOf_le _)⟩
    rw [packetOf_of_neighbours hspan, pointsInto_of_range rfl hle.1]
    exact and_iff_right hle.2
  | none =>
    generalize huncut : uncutSnippet cfg α c.content query.standaloneQuery c.title decision.purpose = uncut
    obtain ⟨range, hpacket, hrange⟩ := packetOf_of_none huncut hspan
    rw [hpacket]
    rcases hrange with rfl | ⟨rfl, hnil⟩
    · exact pointsInto_of_range rfl (Nat.zero_le _)
    · have hcut : textOf (cutTo cfg.snippetMaxChars (cut 3000 uncut)) = [] := by
        rw [textOf_cutTo, textOf_cut, hnil, List.take_nil, sliceTo]
        split_ifs <;> exact List.take_nil
      simp [PointsInto, hnil, pieces_of_textOf_nil hcut]

end

/-- The usual settings. -/
def usualSettings : Settings where
  lower := fun t => t.map Char.toLower
  isWord := fun c => c.isAlphanum || c == '_'
  snippetFirst := true
  snippetMaxChars := 2000
  expandRadius := 1
  dualTrack := false
  maxSentences := 5

def threeSentences : CandidateEvidence ℚ where
  docId := []
  chunkId := []
  sourceId := []
  title := []
  content := "Alpha beta. Gamma delta. The third one is a good deal longer.".toList
  sourceType := []
  authorityLevel := 0
  scoreBreakdown := ⟨0, 0, 0, 0, 0, 0, 0, 0⟩
  relevancePassed := true
  filterReason := []
  retrievalStage := []
  metadata := PyDict.empty

end AgentLangraph.Evidence.Spans
