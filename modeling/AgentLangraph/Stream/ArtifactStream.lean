import AgentLangraph.Stream.ArgsText

/-! Streaming the text of an artifact (`artifact_stream.py`). After each chunk of the arguments the part
    of the content that is new is sent, up to a cap, and only the length sent so far is remembered.
    The pieces make up the content exactly when what is decoded only ever grows and the cap is not
    jumped over from close by. -/

namespace AgentLangraph.Stream
open PyText JsonText

/-- The settings, and the digits of other scripts. -/
structure StreamConfig where
  /-- `ARTIFACT_STREAM_ENABLED` -/
  enabled : Bool := true
  /-- `ARTIFACT_STREAM_MAX_CHARS` -/
  maxChars : ℕ := 200000
  minDelta : ℕ := 24
  asciiDigit : Char → Char := id

/-! ### `extract_field_text` -/

/-- `((?:[^"\\]|\\.)*)` at the front of a text. -/
def fieldBody : Text → Text
  | '\\' :: c :: cs => '\\' :: c :: fieldBody cs
  | c :: cs => if c = '"' ∨ c = '\\' then [] else c :: fieldBody cs
  | [] => []

/-- `str.replace` of a text that is not empty, with the characters still to pass over. -/
def replaceFrom (old new : Text) : ℕ → Text → Text
  | _, [] => []
  | skip + 1, _ :: cs => replaceFrom old new skip cs
  | 0, c :: cs =>
    if old.isPrefixOf (c :: cs) then new ++ replaceFrom old new (old.length - 1) cs
    else c :: replaceFrom old new 0 cs

/-- `_decode_json_string`. -/
def decodeJsonString (raw : Text) : Points :=
  match loads raw with
  | some t => t
  | none =>
    ofText (replaceFrom ['\\', '\\'] ['\\'] 0
      (replaceFrom ['\\', '"'] ['"'] 0 (replaceFrom ['\\', 'n'] ['\n'] 0 raw)))

/-- `extract_field_text` of the field `content`. -/
def extractFieldText (accumulated : Text) : Points :=
  match searchKey accumulated with
  | some start => decodeJsonString (fieldBody (accumulated.drop start))
  | none => []

/-! ### `emit_artifact_content_deltas` -/

/-- `extract_streaming_content`. -/
def extractStreamingContent (cfg : StreamConfig) (accumulated : Text) (p : ArtifactArgsParser) :
    Points :=
  let text := p.contentSoFar cfg.asciiDigit
  if text ≠ [] then text
  else
    let text := extractContentSoFar cfg.asciiDigit accumulated
    if text ≠ [] then text else extractFieldText accumulated

/-- `emit_artifact_content_deltas`, where no pause or cancel is asked for: the new length sent, and
    what is sent. -/
def emitArtifactContentDeltas (cfg : StreamConfig) (accumulated : Text) (seenLen : ℕ)
    (p : ArtifactArgsParser) : ℕ × Points :=
  if !cfg.enabled then (seenLen, [])
  else
    let text := extractStreamingContent cfg accumulated p
    if text.length ≤ seenLen then (seenLen, [])
    else if cfg.maxChars ≤ seenLen then (seenLen, [])
    else
      let newLen := min text.length cfg.maxChars
      if newLen - seenLen < cfg.minDelta ∧ newLen < text.length then (seenLen, [])
      else (newLen, (text.take newLen).drop seenLen)

/-- A stream: what was sent, and what was decoded after each chunk. -/
structure Streaming where
  parser : ArtifactArgsParser := {}
  seenLen : ℕ := 0
  sent : Points := []
  decoded : List Points := []

/-- One chunk of the arguments. -/
def onChunk (cfg : StreamConfig) (s : Streaming) (piece : Text) : Streaming :=
  let p := s.parser.feed piece
  let (seenLen, delta) := emitArtifactContentDeltas cfg p.accumulated s.seenLen p
  { parser := p, seenLen, sent := s.sent ++ delta,
    decoded := s.decoded ++ [p.contentSoFar cfg.asciiDigit] }

def stream (cfg : StreamConfig) (chunks : List Text) : Streaming := chunks.foldl (onChunk cfg) {}

/-- The deltas make up the content, up to the cap, and what is decoded only ever grows. -/
def Faithful (cfg : StreamConfig) (d : ArgsText) (chunks : List Text) : Prop :=
  (stream cfg chunks).sent = (points d.content).take cfg.maxChars ∧
    (stream cfg chunks).decoded.Pairwise (· <+: ·)

/-- How much has arrived after each chunk. -/
def cuts : ℕ → List Text → List ℕ
  | _, [] => []
  | n, piece :: chunks => (n + piece.length) :: cuts (n + piece.length) chunks

/-- No chunk ends right after the backslash of an escape, that of a backslash excepted. -/
def KeepsEscapes (d : ArgsText) (chunks : List Text) : Prop :=
  ∀ n ∈ cuts 0 chunks, ¬ SplitsEscape d.content (n - d.start)

/-- How many characters of the content have been begun before and after each chunk. -/
def reached (d : ArgsText) (chunks : List Text) : List ℕ :=
  0 :: (cuts 0 chunks).map fun n => begun d.content (n - d.start)

/-- The content is within the cap, or the cap is reached exactly, or from no closer than the smallest
    delta. -/
def ReachesCap (cfg : StreamConfig) (d : ArgsText) (chunks : List Text) : Prop :=
  d.content.length ≤ cfg.maxChars ∨ cfg.maxChars ∈ reached d chunks ∨
    ∀ k ∈ reached d chunks, k ≤ cfg.maxChars → k + cfg.minDelta ≤ cfg.maxChars

/-! ### What a stream has decoded -/

/-- What is decoded once `n` characters have arrived. -/
def decodedAt (cfg : StreamConfig) (d : ArgsText) (n : ℕ) : Points :=
  if n < d.start then []
  else decodeFrom cfg.asciiDigit 0 ((text d.content ++ '"' :: d.tail).take (n - d.start))

/-- The reader, once `n` characters have arrived. -/
def parserAt (d : ArgsText) (n : ℕ) : ArtifactArgsParser :=
  ⟨d.fullText.take n, searchKey (d.fullText.take n)⟩

section
variable (cfg : StreamConfig) (d : ArgsText)

theorem drop_start (n : ℕ) : (d.fullText.take n).drop d.start =
    (text d.content ++ '"' :: d.tail).take (n - d.start) := by
  rw [List.drop_take, ArgsText.fullText, ArgsText.start, List.drop_left]

theorem contentSoFar_parserAt (n : ℕ) :
    (parserAt d n).contentSoFar cfg.asciiDigit = decodedAt cfg d n := by
  by_cases hn : n < d.start
  · simp [ArtifactArgsParser.contentSoFar, parserAt, d.searchKey_take, decodedAt, hn]
  · have hdrop := congrArg (decodeFrom cfg.asciiDigit 0) (drop_start d n)
    simpa [ArtifactArgsParser.contentSoFar, parserAt, d.searchKey_take, decodedAt, hn,
      decodeJsonStringPartial] using hdrop

theorem feed_parserAt {n : ℕ} {piece : Text}
    (h : d.fullText.take n ++ piece = d.fullText.take (n + piece.length)) :
    (parserAt d n).feed piece = parserAt d (n + piece.length) := by
  by_cases hp : piece = []
  · rw [hp]
    rfl
  · have hstart : (searchKey (d.fullText.take n) <|> searchKey (d.fullText.take (n + piece.length))) =
        searchKey (d.fullText.take (n + piece.length)) := by
      rw [d.searchKey_take, d.searchKey_take]
      split
      · rfl
      · rw [if_neg (by omega)]
        rfl
    simp only [ArtifactArgsParser.feed, if_neg hp, parserAt, h, hstart]

theorem decodeFrom_eq_nil {dg : Char → Char} {t : Text} (h : decodeFrom dg 0 t = []) :
    fieldBody t = [] := by
  cases t with
  | nil => rfl
  | cons c cs =>
    rw [decodeFrom] at h
    split at h
    · rename_i hc
      subst hc
      rfl
    · cases h

/-- The two fallbacks find nothing where the reader finds nothing. -/
theorem extractStreamingContent_parserAt (n : ℕ) :
    extractStreamingContent cfg (d.fullText.take n) (parserAt d n) = decodedAt cfg d n := by
  rw [extractStreamingContent, contentSoFar_parserAt]
  split
  · rfl
  · rename_i hnil
    rw [not_not] at hnil
    have hfeed : ArtifactArgsParser.feed {} (d.fullText.take n) = parserAt d n := by
      cases hn : d.fullText.take n with
      | nil => rw [parserAt, hn]; rfl
      | cons c cs => rw [parserAt, hn]; rfl
    rw [extractContentSoFar, hfeed, contentSoFar_parserAt, if_neg (by simpa using hnil),
      extractFieldText, d.searchKey_take, hnil]
    rw [decodedAt] at hnil
    split at hnil
    · rename_i hn
      rw [if_pos hn]
    · rename_i hn
      rw [if_neg hn]
      simp only [drop_start, decodeFrom_eq_nil hnil]
      rfl

/-! ### What a stream sends -/

/-- The length sent after a text of length `len` has been decoded. -/
def advance (seenLen len : ℕ) : ℕ :=
  if len ≤ seenLen ∨ cfg.maxChars ≤ seenLen then seenLen
  else if min len cfg.maxChars - seenLen < cfg.minDelta ∧ min len cfg.maxChars < len then seenLen
  else min len cfg.maxChars

theorem le_advance (seenLen len : ℕ) : seenLen ≤ advance cfg seenLen len := by
  unfold advance
  split_ifs <;> omega

theorem emit_parserAt (h : cfg.enabled = true) (n seenLen : ℕ) :
    emitArtifactContentDeltas cfg (parserAt d n).accumulated seenLen (parserAt d n) =
      (advance cfg seenLen (decodedAt cfg d n).length,
        ((decodedAt cfg d n).take (advance cfg seenLen (decodedAt cfg d n).length)).drop seenLen) := by
  simp only [emitArtifactContentDeltas, h, Bool.not_true, Bool.false_eq_true, if_false, advance,
    show (parserAt d n).accumulated = d.fullText.take n from rfl, extractStreamingContent_parserAt]
  by_cases hlen : (decodedAt cfg d n).length ≤ seenLen
  · rw [if_pos hlen, if_pos (Or.inl hlen), List.drop_take_self]
  · by_cases hcap : cfg.maxChars ≤ seenLen
    · rw [if_neg hlen, if_pos hcap, if_pos (Or.inr hcap), List.drop_take_self]
    · rw [if_neg hlen, if_neg hcap, if_neg (not_or.2 ⟨hlen, hcap⟩)]
      split
      · rw [List.drop_take_self]
      · rfl

/-- Sending what is new of a text that begins the content keeps what was sent a beginning of it. -/
theorem take_append_advance {t content : Points} (h : t <+: content) (seenLen : ℕ) :
    content.take seenLen ++ (t.take (advance cfg seenLen t.length)).drop seenLen =
      content.take (advance cfg seenLen t.length) := by
  have hle := le_advance cfg seenLen t.length
  have hcases : advance cfg seenLen t.length = seenLen ∨ advance cfg seenLen t.length ≤ t.length := by
    unfold advance
    split_ifs <;> omega
  generalize advance cfg seenLen t.length = m at hle hcases ⊢
  rcases hcases with rfl | hm
  · rw [List.drop_take_self, List.append_nil]
  · have ht : t.take m = content.take m := by
      obtain ⟨u, rfl⟩ := h
      rw [List.take_append_of_le_length hm]
    have hs : content.take seenLen = (content.take m).take seenLen := by
      rw [List.take_take, Nat.min_eq_left hle]
    rw [ht, hs, List.take_append_drop]

/-- RUN: a stream over the rest of an argument text. -/
theorem foldl_onChunk {n : ℕ} {chunks : List Text} {s : Streaming} (hp : s.parser = parserAt d n)
    (hn : n ≤ d.fullText.length) (hrest : chunks.flatten = d.fullText.drop n) :
    (chunks.foldl (onChunk cfg) s).decoded = s.decoded ++ (cuts n chunks).map (decodedAt cfg d) ∧
    (cfg.enabled = false → (chunks.foldl (onChunk cfg) s).sent = s.sent) ∧
    (cfg.enabled = true → (∀ k ∈ cuts n chunks, decodedAt cfg d k <+: points d.content) →
      s.sent = (points d.content).take s.seenLen →
      (chunks.foldl (onChunk cfg) s).sent = (points d.content).take
        ((cuts n chunks).foldl (fun m k => advance cfg m (decodedAt cfg d k).length) s.seenLen)) := by
  induction chunks generalizing n s with
  | nil => simp [cuts]
  | cons piece chunks ih =>
    have hlen : n + piece.length ≤ d.fullText.length := by
      have h := congrArg List.length hrest
      rw [List.flatten_cons, List.length_append, List.length_drop] at h
      omega
    have hpiece : d.fullText.take n ++ piece = d.fullText.take (n + piece.length) := by
      rw [List.take_add, ← hrest, List.flatten_cons, List.take_left]
    have hrest' : chunks.flatten = d.fullText.drop (n + piece.length) := by
      rw [← List.drop_drop, ← hrest, List.flatten_cons, List.drop_left]
    have hfeed : s.parser.feed piece = parserAt d (n + piece.length) := by
      rw [hp, feed_parserAt d hpiece]
    have hstep : (onChunk cfg s piece).parser = parserAt d (n + piece.length) := hfeed
    have hdec : (onChunk cfg s piece).decoded = s.decoded ++ [decodedAt cfg d (n + piece.length)] := by
      simp only [onChunk, hfeed, contentSoFar_parserAt]
    obtain ⟨h₁, h₂, h₃⟩ := ih (s := onChunk cfg s piece) hstep hlen hrest'
    rw [List.foldl_cons, cuts]
    refine ⟨?_, fun hoff => ?_, fun hon hpre hsent => ?_⟩
    · rw [h₁, hdec, List.map_cons, List.append_assoc, List.singleton_append]
    · rw [h₂ hoff]
      simp [onChunk, emitArtifactContentDeltas, hoff]
    · rw [List.forall_mem_cons] at hpre
      rw [List.foldl_cons]
      have hemit := emit_parserAt cfg d hon (n + piece.length) s.seenLen
      have hseen : (onChunk cfg s piece).seenLen =
          advance cfg s.seenLen (decodedAt cfg d (n + piece.length)).length := by
        simp only [onChunk, hfeed, hemit]
      rw [← hseen]
      refine h₃ hon hpre.2 ?_
      rw [hseen, ← take_append_advance cfg hpre.1, ← hsent]
      simp only [onChunk, hfeed, hemit]

end

/-! ### How far the lengths take it -/

section
variable (cfg : StreamConfig)

/-- Lengths within the cap are all sent. -/
theorem foldl_advance_le {ls : List ℕ} (h : ∀ k ∈ ls, k ≤ cfg.maxChars) : ∀ {m : ℕ},
    m ≤ cfg.maxChars → ls.foldl (advance cfg) m ≤ cfg.maxChars ∧
      (∀ k ∈ m :: ls, k ≤ ls.foldl (advance cfg) m) ∧ ls.foldl (advance cfg) m ∈ m :: ls := by
  induction ls with
  | nil => intro m hm; exact ⟨hm, by simp, by simp⟩
  | cons k ls ih =>
    intro m hm
    rw [List.forall_mem_cons] at h
    have hadv : advance cfg m k = max m k := by
      unfold advance
      split_ifs <;> omega
    obtain ⟨h₁, h₂, h₃⟩ := ih h.2 (m := max m k) (by omega)
    rw [List.forall_mem_cons] at h₂
    rw [List.foldl_cons, hadv]
    refine ⟨h₁, ?_, ?_⟩
    · rw [List.forall_mem_cons, List.forall_mem_cons]
      exact ⟨by omega, by omega, h₂.2⟩
    · rcases List.mem_cons.1 h₃ with h₃ | h₃
      · obtain hmax | hmax : max m k = m ∨ max m k = k := by omega
        · rw [h₃, hmax]
          exact List.mem_cons_self
        · rw [h₃, hmax]
          exact List.mem_cons_of_mem m List.mem_cons_self
      · simp [h₃]

/-- Once past the cap, either the cap is reached at once or never. -/
theorem foldl_advance_gt {ls : List ℕ} (h : ∀ k ∈ ls, cfg.maxChars < k) (hne : ls ≠ []) {m : ℕ}
    (hm : m ≤ cfg.maxChars) :
    ls.foldl (advance cfg) m = if m + cfg.minDelta ≤ cfg.maxChars then cfg.maxChars else m := by
  have hadv : ∀ k, cfg.maxChars < k →
      advance cfg m k = if m + cfg.minDelta ≤ cfg.maxChars then cfg.maxChars else m := by
    intro k hk
    unfold advance
    split_ifs <;> omega
  have hstay : ∀ r, (r = cfg.maxChars ∨ ¬ m + cfg.minDelta ≤ cfg.maxChars ∧ r = m) → ∀ k,
      cfg.maxChars < k → advance cfg r k = r := by
    intro r hr k hk
    unfold advance
    split_ifs <;> omega
  cases ls with
  | nil => exact absurd rfl hne
  | cons k ls =>
    rw [List.forall_mem_cons] at h
    rw [List.foldl_cons, hadv k h.1]
    generalize hr : (if m + cfg.minDelta ≤ cfg.maxChars then cfg.maxChars else m) = r
    have hcase : r = cfg.maxChars ∨ ¬ m + cfg.minDelta ≤ cfg.maxChars ∧ r = m := by
      split at hr <;> simp_all
    clear hne hr
    induction ls with
    | nil => rfl
    | cons j ls ih =>
      rw [List.forall_mem_cons] at h
      rw [List.foldl_cons, hstay r hcase j h.2.1, ih ⟨h.1, h.2.2⟩]

end

theorem exists_split {ls : List ℕ} (h : ls.Pairwise (· ≤ ·)) (cap : ℕ) :
    ∃ as bs, ls = as ++ bs ∧ (∀ k ∈ as, k ≤ cap) ∧ ∀ k ∈ bs, cap < k := by
  induction h with
  | nil => exact ⟨[], [], rfl, by simp, by simp⟩
  | @cons k ls hk _ ih =>
    by_cases hcap : k ≤ cap
    · obtain ⟨as, bs, rfl, has, hbs⟩ := ih
      exact ⟨k :: as, bs, rfl, List.forall_mem_cons.2 ⟨hcap, has⟩, hbs⟩
    · refine ⟨[], k :: ls, rfl, by simp, List.forall_mem_cons.2 ⟨by omega, fun j hj => ?_⟩⟩
      have := hk j hj
      omega

/-- All of a content of length `len` is sent up to the cap exactly when it is within the cap, or the
    cap is reached, or never neared without being reached. -/
theorem foldl_advance_eq_iff (cfg : StreamConfig) {ls : List ℕ} (hs : ls.Pairwise (· ≤ ·)) {len : ℕ}
    (hle : ∀ k ∈ ls, k ≤ len) (hlen : len ∈ ls) :
    min (ls.foldl (advance cfg) 0) len = min cfg.maxChars len ↔
      len ≤ cfg.maxChars ∨ cfg.maxChars ∈ 0 :: ls ∨
        ∀ k ∈ 0 :: ls, k ≤ cfg.maxChars → k + cfg.minDelta ≤ cfg.maxChars := by
  obtain ⟨as, bs, rfl, has, hbs⟩ := exists_split hs cfg.maxChars
  obtain ⟨hr, hmax, hmem⟩ := foldl_advance_le cfg has (Nat.zero_le _)
  rw [List.foldl_append]
  generalize as.foldl (advance cfg) 0 = r at hr hmax hmem
  have hwithin : ∀ k ∈ 0 :: (as ++ bs), k ≤ cfg.maxChars → k ≤ r := by
    intro k hk hcap
    rw [← List.cons_append, List.mem_append] at hk
    rcases hk with hk | hk
    · exact hmax k hk
    · have := hbs k hk
      omega
  have hr' : r ∈ 0 :: (as ++ bs) := by
    rw [← List.cons_append, List.mem_append]
    exact Or.inl hmem
  by_cases hne : bs = []
  · subst hne
    rw [List.append_nil] at hlen
    have hcap := has len hlen
    have := hmax len (List.mem_cons_of_mem 0 hlen)
    rw [List.foldl_nil]
    constructor
    · exact fun _ => Or.inl hcap
    · intro _
      omega
  · obtain ⟨b, hb⟩ := List.exists_mem_of_ne_nil bs hne
    have hcap : cfg.maxChars < len :=
      Nat.lt_of_lt_of_le (hbs b hb) (hle b (List.mem_append_right as hb))
    rw [foldl_advance_gt cfg hbs hne hr]
    split
    · rename_i hroom
      refine ⟨fun _ => Or.inr (Or.inr fun k hk hk' => ?_), fun _ => rfl⟩
      have := hwithin k hk hk'
      omega
    · rename_i hroom
      constructor
      · intro heq
        have hreq : r = cfg.maxChars := by omega
        exact Or.inr (Or.inl (hreq ▸ hr'))
      · rintro (h | h | h)
        · omega
        · have := hwithin _ h (Nat.le_refl _)
          omega
        · exact absurd (h r hr' hr) hroom

/-! ### The cuts -/

theorem cuts_pairwise : ∀ (n : ℕ) (chunks : List Text),
    (cuts n chunks).Pairwise (· ≤ ·) ∧ ∀ k ∈ cuts n chunks, n ≤ k
  | _, [] => by simp [cuts]
  | n, piece :: chunks => by
    obtain ⟨h, hk⟩ := cuts_pairwise (n + piece.length) chunks
    rw [cuts, List.pairwise_cons, List.forall_mem_cons]
    refine ⟨⟨hk, h⟩, by omega, fun k hmem => ?_⟩
    have := hk k hmem
    omega

/-- The last cut is the end. -/
theorem cuts_eq_concat : ∀ (n : ℕ) {chunks : List Text}, chunks ≠ [] →
    ∃ init, cuts n chunks = init ++ [n + chunks.flatten.length]
  | _, [], h => absurd rfl h
  | n, [piece], _ => ⟨[], by simp [cuts]⟩
  | n, piece :: next :: chunks, _ => by
    obtain ⟨init, h⟩ := cuts_eq_concat (n + piece.length) (List.cons_ne_nil next chunks)
    refine ⟨(n + piece.length) :: init, ?_⟩
    rw [cuts, h, show (piece :: next :: chunks).flatten = piece ++ (next :: chunks).flatten from rfl,
      List.length_append, List.cons_append, Nat.add_assoc]

section
variable {cfg : StreamConfig} {d : ArgsText} {chunks : List Text}

theorem stream_decoded (h : chunks.flatten = d.fullText) :
    (stream cfg chunks).decoded = (cuts 0 chunks).map (decodedAt cfg d) := by
  obtain ⟨hdec, -, -⟩ := foldl_onChunk cfg d (n := 0) (s := {}) rfl
    (Nat.zero_le _) h
  exact hdec

theorem length_fullText : d.fullText.length = d.start + ((text d.content).length + (d.tail.length + 1)) := by
  rw [ArgsText.fullText, List.length_append, ← ArgsText.start, List.length_append, List.length_cons]

/-- The cuts of a whole argument text end with its length. -/
theorem cuts_fullText (h : chunks.flatten = d.fullText) :
    ∃ init, cuts 0 chunks = init ++ [d.fullText.length] := by
  have hne : chunks ≠ [] := by
    rintro rfl
    have hlen := congrArg List.length h
    rw [length_fullText] at hlen
    simp at hlen
  obtain ⟨init, hinit⟩ := cuts_eq_concat 0 hne
  exact ⟨init, by rw [hinit, h, Nat.zero_add]⟩

theorem decodedAt_eq {n : ℕ} (hu : ∀ a ∈ d.content, a.isUnicode = false)
    (hs : ¬ SplitsEscape d.content (n - d.start)) :
    decodedAt cfg d n = (points d.content).take (begun d.content (n - d.start)) := by
  rw [decodedAt]
  split
  · rename_i hn
    rw [Nat.sub_eq_zero_of_le (Nat.le_of_lt hn), begun_zero, List.take_zero]
  · exact decodeFrom_take cfg.asciiDigit d.tail hu hs

theorem length_decodedAt {n : ℕ} (hu : ∀ a ∈ d.content, a.isUnicode = false)
    (hs : ¬ SplitsEscape d.content (n - d.start)) :
    (decodedAt cfg d n).length = begun d.content (n - d.start) := by
  rw [decodedAt_eq hu hs, List.length_take, length_points, Nat.min_eq_left (begun_le ..)]

theorem begun_end : begun d.content (d.fullText.length - d.start) = d.content.length :=
  begun_full (by rw [length_fullText]; omega)

theorem decodedAt_end (hu : ∀ a ∈ d.content, a.isUnicode = false) :
    decodedAt cfg d d.fullText.length = points d.content := by
  rw [decodedAt_eq hu fun hs => by have := hs.lt; rw [length_fullText] at this; omega, begun_end,
    ← length_points, List.take_length]

/-- Decoded texts that only grow were cut in no escape. -/
theorem keepsEscapes_of_pairwise (h : chunks.flatten = d.fullText)
    (hu : ∀ a ∈ d.content, a.isUnicode = false)
    (hgrow : (stream cfg chunks).decoded.Pairwise (· <+: ·)) : KeepsEscapes d chunks := by
  intro n hn hsplit
  obtain ⟨init, hinit⟩ := cuts_fullText h
  rw [stream_decoded h, hinit, List.map_append, List.pairwise_append] at hgrow
  rw [hinit, List.mem_append, List.mem_singleton] at hn
  rcases hn with hn | rfl
  · have hpre := hgrow.2.2 _ (List.mem_map_of_mem hn) _ (List.mem_singleton_self _)
    rw [decodedAt_end hu] at hpre
    obtain ⟨pre, e, post, hcontent, he, hlen⟩ := hsplit
    have hstart : ¬ n < d.start := by omega
    rw [hcontent, List.forall_mem_append] at hu
    have htext : text d.content ++ '"' :: d.tail =
        text pre ++ '\\' :: (e.letter :: (text post ++ '"' :: d.tail)) := by
      simp [hcontent, text_append, Atom.text]
    rw [decodedAt, if_neg hstart, htext, hlen,
      (decodeFrom_split cfg.asciiDigit hu.1 _).1, hcontent, points_append, points_cons,
      List.prefix_append_right_inj, List.cons_prefix_cons] at hpre
    cases e <;> first | exact he rfl | exact absurd hpre.1 (by decide)
  · have := hsplit.lt
    rw [length_fullText] at this
    omega

/-- Where no escape is cut, decoded texts only grow. -/
theorem pairwise_of_keepsEscapes (h : chunks.flatten = d.fullText)
    (hu : ∀ a ∈ d.content, a.isUnicode = false) (hk : KeepsEscapes d chunks) :
    (stream cfg chunks).decoded.Pairwise (· <+: ·) := by
  rw [stream_decoded h, List.pairwise_map]
  refine (cuts_pairwise 0 chunks).1.imp_of_mem fun {n m} hn hm hle => ?_
  rw [decodedAt_eq hu (hk n hn), decodedAt_eq hu (hk m hm)]
  exact List.take_prefix_take_left (begun_mono (Nat.sub_le_sub_right hle _))

/-- Where no escape is cut, a beginning of the content is sent. -/
theorem stream_sent (h : chunks.flatten = d.fullText) (hu : ∀ a ∈ d.content, a.isUnicode = false)
    (hk : KeepsEscapes d chunks) (hon : cfg.enabled = true) :
    (stream cfg chunks).sent = (points d.content).take (((cuts 0 chunks).map fun n =>
      begun d.content (n - d.start)).foldl (advance cfg) 0) := by
  obtain ⟨-, -, hsent⟩ := foldl_onChunk cfg d (n := 0) (s := {}) rfl
    (Nat.zero_le _) h
  have hpre : ∀ n ∈ cuts 0 chunks, decodedAt cfg d n <+: points d.content := by
    intro n hn
    rw [decodedAt_eq hu (hk n hn)]
    exact List.take_prefix _ _
  rw [stream, hsent hon hpre rfl, List.foldl_map]
  congr 1
  refine List.foldl_ext _ _ _ fun m n hn => ?_
  rw [length_decodedAt hu (hk n hn)]

/-- Where no escape is cut, the content is sent up to the cap exactly when the cap is reached. -/
theorem sent_eq_iff (h : chunks.flatten = d.fullText) (hu : ∀ a ∈ d.content, a.isUnicode = false)
    (hk : KeepsEscapes d chunks) (hon : cfg.enabled = true) :
    (stream cfg chunks).sent = (points d.content).take cfg.maxChars ↔ ReachesCap cfg d chunks := by
  obtain ⟨init, hinit⟩ := cuts_fullText h
  have hsorted : ((cuts 0 chunks).map fun n => begun d.content (n - d.start)).Pairwise (· ≤ ·) :=
    (cuts_pairwise 0 chunks).1.map _ fun n m hle => begun_mono (Nat.sub_le_sub_right hle _)
  rw [stream_sent h hu hk hon, List.take_eq_take_iff, length_points, ReachesCap, reached]
  refine foldl_advance_eq_iff cfg hsorted ?_ ?_
  · rw [List.forall_mem_map]
    exact fun n _ => begun_le _ _
  · rw [hinit, List.map_append, List.map_singleton, begun_end]
    exact List.mem_append_right _ (List.mem_singleton_self _)

/-- With streaming off nothing is sent. -/
theorem stream_sent_off (h : chunks.flatten = d.fullText) (hoff : cfg.enabled = false) :
    (stream cfg chunks).sent = [] := by
  obtain ⟨-, hsent, -⟩ := foldl_onChunk cfg d (n := 0) (s := {}) rfl
    (Nat.zero_le _) h
  exact hsent hoff

/-- Three chunks that end in the first escape with `\u`. -/
theorem exists_unfaithful (cfg : StreamConfig) (h : ∃ a ∈ d.content, a.isUnicode = true) :
    ∃ chunks, chunks.flatten = d.fullText ∧ ¬ Faithful cfg d chunks := by
  obtain ⟨a, ha, pre, post, hcontent, hpre⟩ : ∃ a : Atom, a.isUnicode = true ∧
      ∃ pre post, d.content = pre ++ a :: post ∧ ∀ b ∈ pre, b.isUnicode = false := by
    obtain ⟨a, hfind⟩ := Option.isSome_iff_exists.1 (List.find?_isSome.2 h)
    obtain ⟨ha, pre, post, hcontent, hpre⟩ := List.find?_eq_some_iff_append.1 hfind
    exact ⟨a, ha, pre, post, hcontent, fun b hb => by simpa using hpre b hb⟩
  obtain ⟨x, hx⟩ : ∃ x, a.text = '\\' :: 'u' :: x := by
    cases a with
    | plain c hc => cases ha
    | short e => cases ha
    | unicode u => exact ⟨_, rfl⟩
    | pair hi lo hp => exact ⟨_, rfl⟩
  have htext : text d.content ++ '"' :: d.tail =
      text pre ++ '\\' :: 'u' :: (x ++ (text post ++ '"' :: d.tail)) := by
    simp [hcontent, text_append, hx]
  let k := d.start + (text pre).length
  have hlen : k + 2 ≤ d.fullText.length := by
    rw [ArgsText.fullText, htext, List.length_append, ← ArgsText.start]
    simp only [List.length_append, List.length_cons, k]
    omega
  let chunks := [d.fullText.take (k + 1), (d.fullText.drop (k + 1)).take 1, d.fullText.drop (k + 2)]
  have hflat : chunks.flatten = d.fullText := by
    simp only [chunks, List.flatten_cons, List.flatten_nil, List.append_nil]
    rw [← List.append_assoc, ← List.take_add, List.take_append_drop]
  have hcuts : cuts 0 chunks = [k + 1, k + 2, d.fullText.length] := by
    have h₁ : (d.fullText.take (k + 1)).length = k + 1 := by
      rw [List.length_take]
      omega
    have h₂ : ((d.fullText.drop (k + 1)).take 1).length = 1 := by
      rw [List.length_take, List.length_drop]
      omega
    simp only [chunks, cuts, h₁, h₂, List.length_drop, List.cons.injEq, and_true]
    omega
  have hat : ∀ n, decodedAt cfg d (k + n) = decodeFrom cfg.asciiDigit 0
      ((text pre ++ '\\' :: 'u' :: (x ++ (text post ++ '"' :: d.tail))).take
        ((text pre).length + n)) := by
    intro n
    rw [decodedAt, if_neg (by omega), htext, show k + n - d.start = (text pre).length + n by omega]
  refine ⟨chunks, hflat, ?_⟩
  rintro ⟨-, hgrow⟩
  rw [stream_decoded hflat, hcuts, List.map_cons, List.map_cons, List.pairwise_cons] at hgrow
  have hnext := hgrow.1 _ List.mem_cons_self
  rw [hat, hat, (decodeFrom_split cfg.asciiDigit hpre _).1,
    (decodeFrom_split cfg.asciiDigit hpre _).2, List.prefix_append_right_inj,
    List.cons_prefix_cons] at hnext
  exact absurd hnext.1 (by decide)

/-- CORRECT: without `\u`, what is streamed is the content exactly when no chunk ends in an escape and
    the cap is not missed; with a `\u`, some cutting goes wrong. -/
theorem faithful_iff (cfg : StreamConfig) (d : ArgsText) :
    ((∀ a ∈ d.content, a.isUnicode = false) → ∀ chunks, chunks.flatten = d.fullText →
      (Faithful cfg d chunks ↔ KeepsEscapes d chunks ∧ ReachesCap cfg d chunks ∧
        (cfg.enabled = true ∨ d.content = [] ∨ cfg.maxChars = 0))) ∧
    ((∃ a ∈ d.content, a.isUnicode = true) →
      ∃ chunks, chunks.flatten = d.fullText ∧ ¬ Faithful cfg d chunks) := by
  refine ⟨fun hu chunks h => ?_, exists_unfaithful cfg⟩
  have hnone : (points d.content).take cfg.maxChars = [] ↔ d.content = [] ∨ cfg.maxChars = 0 := by
    rw [List.take_eq_nil_iff, or_comm, points, List.map_eq_nil_iff]
  cases hon : cfg.enabled with
  | false =>
    rw [Faithful, stream_sent_off h hon, eq_comm, hnone]
    constructor
    · rintro ⟨hnil, hgrow⟩
      refine ⟨keepsEscapes_of_pairwise h hu hgrow, ?_, Or.inr hnil⟩
      rcases hnil with hnil | hzero
      · exact Or.inl (by rw [hnil]; exact Nat.zero_le _)
      · exact Or.inr (Or.inl (by rw [hzero]; exact List.mem_cons_self))
    · rintro ⟨hk, -, hoff | hnil⟩
      · cases hoff
      · exact ⟨hnil, pairwise_of_keepsEscapes h hu hk⟩
  | true =>
    constructor
    · rintro ⟨hsent, hgrow⟩
      have hk := keepsEscapes_of_pairwise h hu hgrow
      exact ⟨hk, (sent_eq_iff h hu hk hon).1 hsent, Or.inl rfl⟩
    · rintro ⟨hk, hcap, -⟩
      exact ⟨(sent_eq_iff h hu hk hon).2 hcap, pairwise_of_keepsEscapes h hu hk⟩

end

/-! ### Two argument texts -/

/-- `{"filename":"","content":"…"}` without blanks. -/
def compact (content : List Atom) (h : Canonical content) : ArgsText where
  filename := []
  content := content
  gap := fun _ => []
  blank := by simp
  canonical := h

/-- `\u4e2d` -/
def escapedAtom : Atom := .unicode ⟨"4e2d".toList, rfl, List.all_eq_true.1 rfl⟩

/-- `\u4e2da` -/
def escapedArgs : ArgsText :=
  compact [escapedAtom, .plain 'a' (by decide)]
    (List.isChain_pair.2 trivial)

/-- `a\n` -/
def plainArgs : ArgsText :=
  compact [.plain 'a' (by decide), .short .newline] (List.isChain_pair.2 trivial)

/-- The character after a `\u4e2d` is lost, with no cut at all. -/
theorem escapedArgs_unfaithful :
    (stream {} [escapedArgs.fullText]).sent = [0x4e2d] ∧
      points escapedArgs.content = [0x4e2d, 0x61] ∧
      ¬ Faithful {} escapedArgs [escapedArgs.fullText] := by
  have hsent : (stream {} [escapedArgs.fullText]).sent = [0x4e2d] := by decide +kernel
  have hcontent : points escapedArgs.content = [0x4e2d, 0x61] := by decide
  refine ⟨hsent, hcontent, ?_⟩
  rintro ⟨h, -⟩
  rw [hsent, hcontent] at h
  cases h

/-- A newline in one chunk, and cut in two. -/
theorem faithful_iff_plainArgs :
    Faithful {} plainArgs [plainArgs.fullText] ∧
      ∃ chunks, chunks.flatten = escapedArgs.fullText ∧ ¬ Faithful {} escapedArgs chunks := by
  refine ⟨((faithful_iff {} plainArgs).1 (by decide) [plainArgs.fullText] (by simp)).2 ⟨?_, ?_, ?_⟩,
    (faithful_iff {} escapedArgs).2 (by decide)⟩
  · intro n hn hs
    have hlt := hs.lt
    rw [List.mem_singleton.1 hn] at hlt
    revert hlt
    decide
  · exact Or.inl (by decide)
  · exact Or.inl rfl

end AgentLangraph.Stream
