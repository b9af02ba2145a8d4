import AgentLangraph.Context.Item
import AgentLangraph.Lib.Ranked
import Mathlib.Algebra.Order.BigOperators.Group.List
import Mathlib.Data.Finset.Card

/-! Extractive compression (`compression_receipt.py`): the sentences of a text are scored by how many
    query terms they share, the best ones that fit are picked, and the picked ones are returned in
    their original order. The receipts only go to the trace and are left out.

    A result is one of three things: the clipped text when there is no sentence at all, the picked
    sentences when they fit, or one clipped sentence. A clipped sentence is its own extract. -/

namespace AgentLangraph.Context
open PyText

/-- `…`. -/
def ellipsis : Char := '…'

/-- `[\w\u4e00-\u9fff]`. -/
def isEntityChar (host : Host) (c : Char) : Bool :=
  host.isAlnum c || c == '_' || (0x4e00 ≤ c.val && c.val ≤ 0x9fff)

/-- The maximal runs of a class; `cur` is the run read so far. -/
def classRunsFrom (p : Char → Bool) : Text → Text → List Text
  | cur, [] => [cur]
  | cur, c :: cs => if p c then classRunsFrom p (cur ++ [c]) cs else cur :: classRunsFrom p [] cs

/-- `_ENTITY_RE.findall`: the runs of at least three entity characters. -/
def entities (host : Host) (text : Text) : List Text :=
  (classRunsFrom (isEntityChar host) [] text).filter fun t => 3 ≤ t.length

def tokenizeForScoring (host : Host) (text : Text) : Finset Text :=
  (((entities host text).filter fun t => 1 < t.length).map host.lower).toFinset

/-- `[.!?。！？\n]`. -/
def isStop (c : Char) : Bool := c ∈ ['.', '!', '?', '。', '！', '？', '\n']

/-- `_SENTENCE_RE.findall`: runs without a stop, each with the terminator right after it. -/
def sentenceRunsFrom : Text → Text → List Text
  | cur, [] => if cur = [] then [] else [cur]
  | cur, c :: cs =>
    if isStop c then
      if cur = [] then sentenceRunsFrom [] cs
      else if c = '\n' then cur :: sentenceRunsFrom [] cs
      else (cur ++ [c]) :: sentenceRunsFrom [] cs
    else sentenceRunsFrom (cur ++ [c]) cs

def sentencesFrom (cur text : Text) : List Text :=
  ((sentenceRunsFrom cur text).map strip).filter (· ≠ [])

def sentences (text : Text) : List Text := sentencesFrom [] text

/-- A sentence with its position and score. -/
structure Scored where
  idx : ℕ
  score : ℚ
  sent : Text
  deriving DecidableEq

def headings : List Text :=
  ["conclusion".toList, "summary".toList, "result".toList, "finding".toList]

def scoreOf (host : Host) (queryTerms : Finset Text) (sent : Text) : ℚ :=
  let overlap := (tokenizeForScoring host sent ∩ queryTerms).card
  let score := if queryTerms = ∅ then 0 else host.round (overlap / max queryTerms.card 1)
  if startswithAny (host.lower sent) headings then host.round (score + 1 / 2) else score

def scoredFrom (host : Host) (queryTerms : Finset Text) : ℕ → List Text → List Scored
  | _, [] => []
  | n, s :: ss => ⟨n, scoreOf host queryTerms s, s⟩ :: scoredFrom host queryTerms (n + 1) ss

/-- The greedy choice: `total` is the length of what is picked, one separator per sentence after
    the first. The first sentence is taken whatever its length. -/
def pickFrom (maxChars maxSentences : ℕ) : List Scored → ℕ → List Scored → List Scored
  | picked, _, [] => picked
  | picked, total, s :: ss =>
    if maxSentences ≤ picked.length then picked
    else
      let addLen := s.sent.length + (if picked = [] then 0 else 1)
      if maxChars < total + addLen ∧ picked ≠ [] then pickFrom maxChars maxSentences picked total ss
      else pickFrom maxChars maxSentences (picked ++ [s]) (total + addLen) ss

/-- `text[:n] + "…"` when that is shorter than the text. -/
def clipTo (n : ℕ) (text : Text) : Text :=
  if n < text.length then text.take n ++ [ellipsis] else text

def extractiveSentences (host : Host) (text query : Text) (maxChars : ℕ) (maxSentences : ℕ := 8) :
    Text :=
  if text = [] then []
  else
    let sents := sentences text
    if sents = [] then clipTo maxChars text
    else
      let scored := scoredFrom host (tokenizeForScoring host query) 0 sents
      let ranked := scored.insertionSort fun a b => b.score ≤ a.score
      let picked := pickFrom maxChars maxSentences [] 0 ranked
      if picked = [] then clipTo maxChars (sents.headD [])
      else
        let ordered := picked.insertionSort fun a b => a.idx ≤ b.idx
        clipTo maxChars (joinLines (ordered.map (·.sent)))

/-- The sentences of a text with their scores for a query, in the order of the text. -/
def scoredSentences (host : Host) (text query : Text) : List Scored :=
  scoredFrom host (tokenizeForScoring host query) 0 (sentences text)

/-- The first in the order of the text among the sentences with the highest score. -/
def IsBest (scored : List Scored) (best : Scored) : Prop :=
  best ∈ scored ∧
    ∀ s ∈ scored, s ≠ best → s.score < best.score ∨ s.score = best.score ∧ best.idx < s.idx

/-! ### Clipping -/

theorem length_clipTo_le (n : ℕ) (text : Text) : (clipTo n text).length ≤ n + 1 := by
  rw [clipTo]
  split
  · simp only [List.length_append, List.length_take, List.length_singleton]; omega
  · omega

theorem clipTo_of_le {n : ℕ} {text : Text} (h : text.length ≤ n) : clipTo n text = text := by
  rw [clipTo, if_neg (by omega)]

theorem clipTo_of_lt {n : ℕ} {text : Text} (h : n < text.length) :
    clipTo n text = text.take n ++ [ellipsis] := by
  rw [clipTo, if_pos h]

/-- Clipping what was just clipped to the same length changes nothing. -/
theorem clipTo_take_concat {n : ℕ} {text : Text} (h : n < text.length) :
    clipTo n (text.take n ++ [ellipsis]) = text.take n ++ [ellipsis] := by
  have hlen : (text.take n).length = n := by rw [List.length_take]; omega
  have hlt : n < (text.take n ++ [ellipsis]).length := by
    rw [List.length_append, hlen, List.length_singleton]; omega
  rw [clipTo_of_lt hlt, List.take_left' hlen]

theorem isSpace_ellipsis : isSpace ellipsis = false := by decide

theorem isStop_ellipsis : isStop ellipsis = false := by decide

/-- A clipped tight text is tight. -/
theorem tight_take_concat {n : ℕ} {text : Text} (hn : 0 < n) (hne : text ≠ []) (h : Tight text) :
    Tight (text.take n ++ [ellipsis]) := by
  cases text with
  | nil => exact absurd rfl hne
  | cons c cs =>
    obtain ⟨m, rfl⟩ := Nat.exists_eq_succ_of_ne_zero (by omega : n ≠ 0)
    exact tight_of_head_of_last (h.head c rfl) isSpace_ellipsis

/-! ### Sentences -/

/-- Without a stop in it, a text is one run. -/
theorem sentenceRunsFrom_of_no_stop : ∀ {text : Text} (cur : Text),
    (∀ c ∈ text, isStop c = false) → cur ++ text ≠ [] → sentenceRunsFrom cur text = [cur ++ text]
  | [], cur, _, hne => by
      rw [List.append_nil] at hne ⊢
      rw [sentenceRunsFrom, if_neg hne]
  | c :: cs, cur, h, _ => by
      have hc : isStop c = false := h c List.mem_cons_self
      rw [sentenceRunsFrom, if_neg (by simp [hc]),
        sentenceRunsFrom_of_no_stop (cur ++ [c]) (fun d hd => h d (List.mem_cons_of_mem _ hd))
          (by simp)]
      simp

/-- A stop can only be the last code point of a run. -/
theorem no_stop_before_last : ∀ {text cur : Text}, (∀ c ∈ cur, isStop c = false) →
    ∀ r ∈ sentenceRunsFrom cur text, ∀ c ∈ r.dropLast, isStop c = false
  | [], cur, hcur, r, hr, c, hc => by
      rw [sentenceRunsFrom] at hr
      split at hr
      · simp at hr
      · rw [List.mem_singleton] at hr
        subst hr
        exact hcur c (List.mem_of_mem_dropLast hc)
  | d :: cs, cur, hcur, r, hr, c, hc => by
      rw [sentenceRunsFrom] at hr
      have hnil : ∀ e ∈ ([] : Text), isStop e = false := by simp
      split at hr
      · split at hr
        · exact no_stop_before_last hnil r hr c hc
        · split at hr
          · rcases List.mem_cons.1 hr with rfl | hr
            · exact hcur c (List.mem_of_mem_dropLast hc)
            · exact no_stop_before_last hnil r hr c hc
          · rcases List.mem_cons.1 hr with rfl | hr
            · rw [List.dropLast_concat] at hc
              exact hcur c hc
            · exact no_stop_before_last hnil r hr c hc
      · rename_i hd
        refine no_stop_before_last (fun e he => ?_) r hr c hc
        rcases List.mem_append.1 he with he | he
        · exact hcur e he
        · rw [List.mem_singleton] at he
          subst he
          simpa using hd

/-- `strip` cuts at both ends, so it keeps a stop-free start stop-free. -/
theorem no_stop_strip {r : Text} (h : ∀ c ∈ r.dropLast, isStop c = false) :
    ∀ c ∈ (strip r).dropLast, isStop c = false := by
  intro c hc
  obtain ⟨s, hs⟩ : strip r <+: lstrip r := List.rdropWhile_prefix isSpace (lstrip r)
  have hsuf : lstrip r <:+ r := List.dropWhile_suffix isSpace
  have hpre : (strip r).dropLast <+: (lstrip r).dropLast := by
    cases s using List.reverseRec with
    | nil => rw [← hs, List.append_nil]
    | append_singleton s d _ =>
      rw [← hs, ← List.append_assoc, List.dropLast_concat]
      exact (List.dropLast_prefix _).trans (List.prefix_append _ _)
  have hsub : c ∈ (lstrip r).dropLast := hpre.subset hc
  obtain ⟨p, hp⟩ := hsuf
  refine h c ?_
  by_cases hnil : lstrip r = []
  · rw [hnil] at hsub; simp at hsub
  · rw [← hp, List.dropLast_append_of_ne_nil hnil]
    exact List.mem_append_right _ hsub

theorem mem_sentences {text s : Text} (h : s ∈ sentences text) :
    s ≠ [] ∧ Tight s ∧ ∀ c ∈ s.dropLast, isStop c = false := by
  rw [sentences, sentencesFrom, List.mem_filter, List.mem_map] at h
  obtain ⟨⟨r, hr, rfl⟩, hne⟩ := h
  exact ⟨by simpa using hne, tight_strip r, no_stop_strip (no_stop_before_last (by simp) r hr)⟩

/-- Once the text read so far is not blank, some sentence will come of it. -/
theorem blank_of_sentencesFrom_nil : ∀ {text cur : Text}, sentencesFrom cur text = [] →
    strip cur = []
  | [], cur, h => by
      by_cases hcur : cur = []
      · rw [hcur]; rfl
      · rw [sentencesFrom, sentenceRunsFrom, if_neg hcur] at h
        simpa using h
  | c :: cs, cur, h => by
      by_cases hcur : cur = []
      · rw [hcur]; rfl
      · have hsub : strip (cur ++ [c]) = [] → strip cur = [] := fun hb =>
          strip_eq_nil_iff.2 fun d hd => strip_eq_nil_iff.1 hb d (List.mem_append_left _ hd)
        rw [sentencesFrom, sentenceRunsFrom, if_neg hcur] at h
        split at h
        · by_contra hne
          split at h
          · simp [hne] at h
          · have hne' : strip (cur ++ [c]) ≠ [] := fun hb => hne (hsub hb)
            simp [hne'] at h
        · exact hsub (blank_of_sentencesFrom_nil h)

theorem sentencesFrom_ellipsis {cur : Text} (h : strip cur = []) :
    sentencesFrom cur [ellipsis] = [[ellipsis]] := by
  rw [sentencesFrom, sentenceRunsFrom_of_no_stop cur (by simp [isStop_ellipsis]) (by simp),
    List.map_singleton, strip_space_append h]
  decide

/-- Clipping a text without sentences leaves the ellipsis as its only sentence. -/
theorem sentencesFrom_take_concat : ∀ {text cur : Text} (n : ℕ), sentencesFrom cur text = [] →
    sentencesFrom cur (text.take n ++ [ellipsis]) = [[ellipsis]]
  | [], cur, n, h => by
      rw [List.take_nil, List.nil_append, sentencesFrom_ellipsis (blank_of_sentencesFrom_nil h)]
  | c :: cs, cur, 0, h => by
      rw [List.take_zero, List.nil_append, sentencesFrom_ellipsis (blank_of_sentencesFrom_nil h)]
  | c :: cs, cur, n + 1, h => by
      have hblank := blank_of_sentencesFrom_nil h
      rw [List.take_succ_cons, List.cons_append]
      rw [sentencesFrom, sentenceRunsFrom] at h ⊢
      split at h
      · rename_i hc
        rw [if_pos hc]
        split at h
        · rename_i hcur
          rw [if_pos hcur]
          exact sentencesFrom_take_concat n h
        · rename_i hcur
          rw [if_neg hcur]
          split at h
          · rename_i hnl
            rw [if_pos hnl]
            simp only [List.map_cons, hblank, ne_eq, not_true_eq_false, decide_false,
              Bool.false_eq_true, not_false_eq_true, List.filter_cons_of_neg] at h ⊢
            exact sentencesFrom_take_concat n h
          · -- a terminator after the run would have made a sentence
            rename_i hnl
            exfalso
            have hall : strip (cur ++ [c]) = [] := by
              by_contra hne
              simp [hne] at h
            have hsp := strip_eq_nil_iff.1 hall c (by simp)
            simp only [isStop, List.mem_cons, List.not_mem_nil, or_false, decide_eq_true_eq] at hc
            rcases hc with rfl | rfl | rfl | rfl | rfl | rfl | rfl
            all_goals first | exact absurd rfl hnl | exact absurd hsp (by decide)
      · rename_i hc
        rw [if_neg hc]
        exact sentencesFrom_take_concat n h

theorem sentences_take_concat {text : Text} (n : ℕ) (h : sentences text = []) :
    sentences (text.take n ++ [ellipsis]) = [[ellipsis]] := sentencesFrom_take_concat n h

/-- A tight text without stops is its own only sentence. -/
theorem sentences_of_no_stop {text : Text} (hne : text ≠ []) (ht : Tight text)
    (h : ∀ c ∈ text, isStop c = false) : sentences text = [text] := by
  rw [sentences, sentencesFrom, sentenceRunsFrom_of_no_stop [] h (by simpa using hne)]
  simp [ht.strip_eq, hne]

/-! ### Picking -/

/-- What the greedy choice guarantees: the running total is the joined length of the picks, and it is
    over the limit only for a single pick. -/
structure Picked (maxChars : ℕ) (picked : List Scored) (total : ℕ) : Prop where
  total_eq : picked ≠ [] → total + 1 = (picked.map fun s => s.sent.length + 1).sum
  fits : total ≤ maxChars ∨ ∃ s, picked = [s]

theorem pickFrom_inv (maxChars maxSentences : ℕ) : ∀ (ss picked : List Scored) (total : ℕ),
    (picked = [] → total = 0) → Picked maxChars picked total →
    ∃ total', Picked maxChars (pickFrom maxChars maxSentences picked total ss) total'
  | [], picked, total, _, h => ⟨total, h⟩
  | s :: ss, picked, total, h0, h => by
      rw [pickFrom]
      by_cases hlim : maxSentences ≤ picked.length
      · rw [if_pos hlim]
        exact ⟨total, h⟩
      · rw [if_neg hlim]
        dsimp only
        by_cases hfit : maxChars < total + (s.sent.length + if picked = [] then 0 else 1) ∧
            picked ≠ []
        · rw [if_pos hfit]
          exact pickFrom_inv maxChars maxSentences ss picked total h0 h
        · rw [if_neg hfit]
          have hnext : Picked maxChars (picked ++ [s])
              (total + (s.sent.length + if picked = [] then 0 else 1)) := by
            by_cases hp : picked = []
            · subst hp
              exact ⟨fun _ => by simp [h0 rfl], Or.inr ⟨s, rfl⟩⟩
            · have htot := h.total_eq hp
              refine ⟨fun _ => ?_, Or.inl (by by_contra hlt; exact hfit ⟨by omega, hp⟩)⟩
              simp only [if_neg hp, List.map_append, List.sum_append, List.map_singleton,
                List.sum_singleton]
              omega
          exact pickFrom_inv maxChars maxSentences ss _ _ (fun h => by simp at h) hnext

/-- A sentence ends the choice, is passed over, or is picked while there is room for one. -/
theorem pickFrom_cons_cases (maxChars maxSentences : ℕ) (picked : List Scored) (total : ℕ) (s : Scored)
    (ss : List Scored) : pickFrom maxChars maxSentences picked total (s :: ss) = picked ∨
      pickFrom maxChars maxSentences picked total (s :: ss) = pickFrom maxChars maxSentences picked total ss ∨
      picked.length < maxSentences ∧ ∃ total', pickFrom maxChars maxSentences picked total (s :: ss) =
        pickFrom maxChars maxSentences (picked ++ [s]) total' ss := by
  rw [pickFrom]
  by_cases hfull : maxSentences ≤ picked.length
  · exact Or.inl (if_pos hfull)
  · rw [if_neg hfull]
    dsimp only
    by_cases hfit : maxChars < total + (s.sent.length + if picked = [] then 0 else 1) ∧ picked ≠ []
    · exact Or.inr (Or.inl (if_pos hfit))
    · exact Or.inr (Or.inr ⟨Nat.lt_of_not_le hfull, _, if_neg hfit⟩)

/-- The picks are added in the order in which they are tried. -/
theorem pickFrom_eq_append (maxChars maxSentences : ℕ) : ∀ (ss picked : List Scored) (total : ℕ),
    ∃ more, more.Sublist ss ∧ pickFrom maxChars maxSentences picked total ss = picked ++ more
  | [], picked, _ => ⟨[], .slnil, by rw [pickFrom, List.append_nil]⟩
  | s :: ss, picked, total => by
      rcases pickFrom_cons_cases maxChars maxSentences picked total s ss with hstop | hpass | ⟨-, total', hpick⟩
      · exact ⟨[], List.nil_sublist _, by rw [hstop, List.append_nil]⟩
      · obtain ⟨more, hsub, heq⟩ := pickFrom_eq_append maxChars maxSentences ss picked total
        exact ⟨more, hsub.cons s, hpass.trans heq⟩
      · obtain ⟨more, hsub, heq⟩ := pickFrom_eq_append maxChars maxSentences ss (picked ++ [s]) total'
        exact ⟨s :: more, hsub.cons_cons s, by rw [hpick, heq, List.append_assoc, List.singleton_append]⟩

theorem length_pickFrom_le (maxChars maxSentences : ℕ) : ∀ (ss picked : List Scored) (total : ℕ),
    picked.length ≤ maxSentences → (pickFrom maxChars maxSentences picked total ss).length ≤ maxSentences
  | [], _, _, h => h
  | s :: ss, picked, total, h => by
      rcases pickFrom_cons_cases maxChars maxSentences picked total s ss with hstop | hpass | ⟨hroom, total', hpick⟩
      · rwa [hstop]
      · rw [hpass]
        exact length_pickFrom_le maxChars maxSentences ss picked total h
      · rw [hpick]
        refine length_pickFrom_le maxChars maxSentences ss (picked ++ [s]) total' ?_
        rw [List.length_append, List.length_singleton]
        exact hroom

/-- The first sentence that is tried is picked. -/
theorem pickFrom_first (maxChars : ℕ) {maxSentences : ℕ} (hmax : 0 < maxSentences) (s : Scored) (ss : List Scored) :
    ∃ more, more.Sublist ss ∧ pickFrom maxChars maxSentences [] 0 (s :: ss) = s :: more := by
  obtain ⟨more, hsub, heq⟩ := pickFrom_eq_append maxChars maxSentences ss [s] (0 + (s.sent.length + 0))
  refine ⟨more, hsub, ?_⟩
  rw [pickFrom, if_neg (by simpa using hmax.ne')]
  simpa using heq

/-! ### Scores -/

theorem map_sent_scoredFrom (host : Host) (queryTerms : Finset Text) : ∀ (ss : List Text) (n : ℕ),
    (scoredFrom host queryTerms n ss).map (·.sent) = ss
  | [], _ => rfl
  | s :: ss, n => by rw [scoredFrom, List.map_cons, map_sent_scoredFrom host queryTerms ss (n + 1)]

theorem le_idx_of_mem_scoredFrom {host : Host} {queryTerms : Finset Text} {s : Scored} : ∀ {ss : List Text} {n : ℕ},
    s ∈ scoredFrom host queryTerms n ss → n ≤ s.idx
  | _ :: _, n, h => by
      rw [scoredFrom, List.mem_cons] at h
      rcases h with rfl | h
      · exact Nat.le_refl n
      · exact Nat.le_of_succ_le (le_idx_of_mem_scoredFrom h)

/-- The positions increase. -/
theorem pairwise_idx_scoredFrom (host : Host) (queryTerms : Finset Text) : ∀ (ss : List Text) (n : ℕ),
    (scoredFrom host queryTerms n ss).Pairwise fun a b => a.idx < b.idx
  | [], _ => .nil
  | _ :: ss, n => .cons (fun _ h => le_idx_of_mem_scoredFrom h) (pairwise_idx_scoredFrom host queryTerms ss (n + 1))

theorem map_sent_scoredSentences (host : Host) (text query : Text) :
    (scoredSentences host text query).map (·.sent) = sentences text := map_sent_scoredFrom ..

theorem mem_scoredSentences {host : Host} {text query : Text} {s : Scored} (h : s ∈ scoredSentences host text query) :
    s.sent ∈ sentences text := map_sent_scoredSentences host text query ▸ List.mem_map_of_mem h

theorem length_joinLines : ∀ (lines : List Text), lines ≠ [] →
    (joinLines lines).length + 1 = (lines.map fun l => l.length + 1).sum
  | [l], _ => by simp [joinLines]
  | l :: m :: ls, _ => by
      have ih := length_joinLines (m :: ls) (by simp)
      rw [joinLines, List.intercalate_cons_cons, ← joinLines]
      simp only [List.length_append, List.length_singleton, List.map_cons, List.sum_cons] at ih ⊢
      omega

theorem tight_append {a b : Text} (ha : a ≠ []) (hb : b ≠ []) (hta : Tight a) (htb : Tight b)
    (m : Text) : Tight (a ++ m ++ b) := by
  refine ⟨fun c hc => hta.head c ?_, fun c hc => htb.last c ?_⟩
  · rwa [List.append_assoc, List.head?_append_of_ne_nil _ ha] at hc
  · rwa [List.getLast?_append_of_ne_nil _ hb] at hc

/-- Joining tight nonempty lines gives a tight nonempty text. -/
theorem tight_joinLines : ∀ (lines : List Text), lines ≠ [] → (∀ l ∈ lines, l ≠ [] ∧ Tight l) →
    joinLines lines ≠ [] ∧ Tight (joinLines lines)
  | [l], _, h => by
      rw [joinLines, List.intercalate_singleton]
      exact h l List.mem_cons_self
  | l :: m :: ls, _, h => by
      obtain ⟨hne, ht⟩ := tight_joinLines (m :: ls) (by simp) fun k hk =>
        h k (List.mem_cons_of_mem _ hk)
      obtain ⟨hl, htl⟩ := h l List.mem_cons_self
      rw [joinLines, List.intercalate_cons_cons, ← joinLines]
      exact ⟨by simp [hl], tight_append hl hne htl ht _⟩

/-! ### What an extract looks like -/

/-- The three shapes of an extract. -/
inductive Extract (text : Text) (maxChars : ℕ) (r : Text) : Prop
  | noSentence (h : sentences text = []) (hr : r = clipTo maxChars text)
  | fits (hlen : r.length ≤ maxChars) (hne : r ≠ []) (ht : Tight r)
  | clipped (s : Text) (hs : s ∈ sentences text) (hlen : maxChars < s.length)
      (hr : r = s.take maxChars ++ [ellipsis])

/-- The sort by score is stable: the best sentence is tried first. -/
theorem exists_ranked {scored : List Scored} (hidx : scored.Pairwise fun a b => a.idx < b.idx) (hne : scored ≠ []) :
    ∃ best rest, scored.insertionSort (fun a b => b.score ≤ a.score) = best :: rest ∧ IsBest scored best := by
  -- the highest score is the least of the dual order
  have hsort : scored.insertionSort (fun a b => b.score ≤ a.score) =
    Ranked.sortBy (fun s => OrderDual.toDual s.score) scored := rfl
  rw [hsort]
  cases hranked : Ranked.sortBy (fun s => OrderDual.toDual s.score) scored with
  | nil => exact absurd (Ranked.sortBy_eq_nil.1 hranked) hne
  | cons best rest =>
    refine ⟨best, rest, rfl, Ranked.mem_sortBy.1 (hranked ▸ List.mem_cons_self), fun s hs hother => ?_⟩
    exact Ranked.head_sortBy hidx hranked s hs hother

/-- What is joined: the best sentence is among the picks, and they fit, or it is alone. -/
theorem exists_picked (host : Host) {text : Text} (query : Text) (maxChars : ℕ) {maxSentences : ℕ}
    (hmax : 0 < maxSentences) (hs : sentences text ≠ []) : ∃ best picked,
      IsBest (scoredSentences host text query) best ∧ picked.Sublist (scoredSentences host text query) ∧
      best ∈ picked ∧ picked.length ≤ maxSentences ∧
      extractiveSentences host text query maxChars maxSentences = clipTo maxChars (joinLines (picked.map (·.sent))) ∧
      ((joinLines (picked.map (·.sent))).length ≤ maxChars ∨ picked = [best]) := by
  have hne : text ≠ [] := fun h => hs (h ▸ rfl)
  have hidx : (scoredSentences host text query).Pairwise fun a b => a.idx < b.idx := pairwise_idx_scoredFrom ..
  have hscored : scoredSentences host text query ≠ [] := fun h =>
    hs (by rw [← map_sent_scoredSentences host text query, h]; rfl)
  obtain ⟨best, rest, hranked, hbest⟩ := exists_ranked hidx hscored
  obtain ⟨more, hmore, hpick⟩ := pickFrom_first maxChars hmax best rest
  have hperm := List.perm_insertionSort (fun a b : Scored => b.score ≤ a.score) (scoredSentences host text query)
  rw [hranked] at hperm
  obtain ⟨total, hinv⟩ := pickFrom_inv maxChars maxSentences (best :: rest) [] 0 (fun _ => rfl)
    ⟨fun h => absurd rfl h, Or.inl (Nat.zero_le _)⟩
  have hcount := length_pickFrom_le maxChars maxSentences (best :: rest) [] 0 (Nat.zero_le _)
  rw [hpick] at hinv hcount
  have hback := Ranked.perm_sortBy (·.idx) (best :: more)
  have hlen : (joinLines ((Ranked.sortBy (·.idx) (best :: more)).map (·.sent))).length = total := by
    have hjoin := length_joinLines ((Ranked.sortBy (·.idx) (best :: more)).map (·.sent)) (by simp)
    have htotal := hinv.total_eq (by simp)
    rw [List.map_map, (hback.map _).sum_eq] at hjoin
    simp only [Function.comp_def] at hjoin
    omega
  refine ⟨best, Ranked.sortBy (·.idx) (best :: more), hbest, ?_, hback.mem_iff.2 (.head _),
    hback.length_eq ▸ hcount, ?_, ?_⟩
  · exact Ranked.sortBy_sublist ((hmore.cons_cons best).subperm.trans hperm.subperm) hidx
  · rw [extractiveSentences, if_neg hne]
    dsimp only
    rw [scoredSentences] at hranked
    rw [if_neg hs, hranked, hpick, if_neg (List.cons_ne_nil _ _)]
    rfl
  · rw [hlen]
    refine hinv.fits.imp_right ?_
    rintro ⟨s, hsingle⟩
    obtain ⟨rfl, rfl⟩ : best = s ∧ more = [] := by simpa using hsingle
    rfl

theorem length_le_joinLines {lines : List Text} {l : Text} (h : l ∈ lines) :
    l.length ≤ (joinLines lines).length := by
  have hjoin := length_joinLines lines (List.ne_nil_of_mem h)
  have hmem := List.mem_map_of_mem (f := fun l : Text => l.length + 1) h
  have hle := List.single_le_sum (fun _ _ => Nat.zero_le _) _ hmem
  omega

theorem extract_extractiveSentences (host : Host) {text : Text} (query : Text) (maxChars : ℕ)
    (hne : text ≠ []) : Extract text maxChars (extractiveSentences host text query maxChars) := by
  by_cases hs : sentences text = []
  · refine .noSentence hs ?_
    rw [extractiveSentences, if_neg hne]
    dsimp only
    rw [if_pos hs]
  obtain ⟨best, picked, -, hsub, hbest, -, heq, hfits⟩ :=
    exists_picked host query maxChars (by decide : 0 < 8) hs
  have hsentence (s : Scored) (h : s ∈ picked) : s.sent ∈ sentences text := mem_scoredSentences (hsub.subset h)
  have htight := tight_joinLines (picked.map (·.sent)) (by simpa using List.ne_nil_of_mem hbest) fun l hl => by
    obtain ⟨s, hs, rfl⟩ := List.mem_map.1 hl
    obtain ⟨hne, ht, -⟩ := mem_sentences (hsentence s hs)
    exact ⟨hne, ht⟩
  by_cases hle : (joinLines (picked.map (·.sent))).length ≤ maxChars
  · rw [heq, clipTo_of_le hle]
    exact .fits hle htight.1 htight.2
  · obtain rfl := hfits.resolve_left hle
    rw [List.map_singleton, joinLines, List.intercalate_singleton] at hle heq
    rw [heq, clipTo_of_lt (Nat.lt_of_not_le hle)]
    exact .clipped best.sent (hsentence best hbest) (Nat.lt_of_not_le hle) rfl

theorem length_extractiveSentences_le (host : Host) (text query : Text) (maxChars : ℕ) {maxSentences : ℕ} :
    (extractiveSentences host text query maxChars maxSentences).length ≤ maxChars + 1 := by
  rw [extractiveSentences]
  dsimp only
  split_ifs
  · exact Nat.zero_le _
  · exact length_clipTo_le ..
  · exact length_clipTo_le ..
  · exact length_clipTo_le ..

/-- What is returned has at most `maxChars` code points and the ellipsis. When the best sentence fits, it is made of
    whole sentences in the order of the text, at most `maxSentences`, the best among them; when it does not, it is
    clipped, and so is a text without sentences. -/
theorem extractiveSentences_best (host : Host) (text query : Text) (maxChars : ℕ) {maxSentences : ℕ}
    (hmax : 0 < maxSentences) :
    (extractiveSentences host text query maxChars maxSentences).length ≤ maxChars + 1 ∧
      (sentences text = [] ∧ extractiveSentences host text query maxChars maxSentences = clipTo maxChars text ∨
        ∃ best, IsBest (scoredSentences host text query) best ∧
          if best.sent.length ≤ maxChars then
            ∃ picked : List Scored, picked.Sublist (scoredSentences host text query) ∧ best ∈ picked ∧
              picked.length ≤ maxSentences ∧
              extractiveSentences host text query maxChars maxSentences = joinLines (picked.map (·.sent))
          else extractiveSentences host text query maxChars maxSentences = clipTo maxChars best.sent) := by
  refine ⟨length_extractiveSentences_le host text query maxChars, ?_⟩
  by_cases hs : sentences text = []
  · refine Or.inl ⟨hs, ?_⟩
    rw [extractiveSentences]
    dsimp only
    split_ifs with htext
    · rw [htext, clipTo_of_le (Nat.zero_le _)]
    · rfl
  · obtain ⟨best, picked, hbest, hsub, hmem, hcount, heq, hfits⟩ := exists_picked host query maxChars hmax hs
    refine Or.inr ⟨best, hbest, ?_⟩
    split_ifs with hle
    · refine ⟨picked, hsub, hmem, hcount, ?_⟩
      rw [heq, clipTo_of_le]
      rcases hfits with hfits | rfl
      · exact hfits
      · simpa [joinLines] using hle
    · have hlong : ¬ (joinLines (picked.map (·.sent))).length ≤ maxChars := fun h =>
        hle ((length_le_joinLines (List.mem_map_of_mem hmem)).trans h)
      obtain rfl := hfits.resolve_left hlong
      rw [heq, List.map_singleton, joinLines, List.intercalate_singleton]

/-- The second sentence answers the query, and there is room for it alone. -/
theorem extractiveSentences_best_second :
    ∃ best, IsBest (scoredSentences (asciiHost []) "One two. Three four.".toList "three".toList) best ∧
      if best.sent.length ≤ 12 then
        ∃ picked : List Scored,
          picked.Sublist (scoredSentences (asciiHost []) "One two. Three four.".toList "three".toList) ∧
          best ∈ picked ∧ picked.length ≤ 2 ∧
          extractiveSentences (asciiHost []) "One two. Three four.".toList "three".toList 12 2 =
            joinLines (picked.map (·.sent))
      else extractiveSentences (asciiHost []) "One two. Three four.".toList "three".toList 12 2 =
        clipTo 12 best.sent :=
  ((extractiveSentences_best (asciiHost []) "One two. Three four.".toList "three".toList 12 (by decide : 0 < 2)).2
    ).resolve_left fun h => absurd h.1 (by decide)

/-- A text that is its own only sentence is only clipped. -/
theorem extractiveSentences_of_single (host : Host) {text : Text} (query : Text) (maxChars : ℕ)
    (hne : text ≠ []) (hs : sentences text = [text]) :
    extractiveSentences host text query maxChars = clipTo maxChars text := by
  rw [extractiveSentences, if_neg hne]
  simp [hs, scoredFrom, pickFrom, joinLines]

end AgentLangraph.Context
