import AgentLangraph.Stream.ReasoningTrace

/-! Whether the streamed answer is the answer. The text of the summary is read again after each chunk:

        … "summary": "caf\u00e9 au lait" …
                         ^ cut here, the spelling is no JSON, and the fallback keeps `\u00`

    A cut between characters, or right after a backslash, gives a beginning of the summary; one inside
    a `\u` escape, or between the halves of a pair, gives other characters, and those that are sent
    are never taken back. -/

namespace AgentLangraph.Stream
open PyText JsonText JsonKey

/-! ### One round -/

section
variable {cfg : TraceConfig}

theorem answer_append (ds es : List Delta) : answer (ds ++ es) = answer ds ++ answer es := by
  rw [answer, answer, answer, List.filter_append, List.flatMap_append]

/-- The other fields send nothing to the answer, and do not touch the guard. -/
theorem report_of_ne {f : Field} (h : f ≠ .summary) (text : Points) (seenLen newLen : ℕ)
    (guard : StreamGuard Text) :
    (reportPiece cfg f text seenLen newLen guard).2.1 = guard ∧
      answer (reportPiece cfg f text seenLen newLen guard).2.2 = [] := by
  rw [reportPiece]
  split_ifs <;> exact ⟨rfl, by simp [answer, h]⟩

theorem emit_of_ne {f : Field} (h : f ≠ .summary) (accumulated : Text) (seenLen : ℕ)
    (guard : StreamGuard Text) :
    (emitFieldDeltas cfg accumulated f seenLen guard).2.1 = guard ∧
      answer (emitFieldDeltas cfg accumulated f seenLen guard).2.2 = [] := by
  rw [emitFieldDeltas]
  split
  · exact ⟨rfl, rfl⟩
  · split
    · exact ⟨rfl, rfl⟩
    · dsimp only
      split
      · exact ⟨rfl, rfl⟩
      · exact report_of_ne h _ _ _ _

/-- A piece of the summary, where the answer is streamed. -/
theorem report_summary (hstream : cfg.answerStream = true) (text : Points) (seenLen newLen : ℕ)
    (guard : StreamGuard Text) : reportPiece cfg .summary text seenLen newLen guard =
      if guard.blocked then (seenLen, guard, [])
      else if stops (scanSummaryBeforeEmit cfg.guard guard text).2 then
        (seenLen, (scanSummaryBeforeEmit cfg.guard guard text).1, [])
      else (newLen, (scanSummaryBeforeEmit cfg.guard guard text).1,
        [⟨.summary, true, (text.take newLen).drop seenLen⟩]) := by
  rw [reportPiece, if_neg (by simp), if_pos ⟨Or.inl rfl, hstream⟩, if_neg (by simp), if_pos rfl]

/-- A guard that is open in the end was open before, and lets the piece pass. -/
theorem report_open (hstream : cfg.answerStream = true) {text : Points} {seenLen newLen : ℕ}
    {guard : StreamGuard Text}
    (h : (reportPiece cfg .summary text seenLen newLen guard).2.1.blocked = false) :
    guard.blocked = false ∧ (reportPiece cfg .summary text seenLen newLen guard).1 = newLen ∧
      answer (reportPiece cfg .summary text seenLen newLen guard).2.2 =
        (text.take newLen).drop seenLen := by
  rw [report_summary hstream] at h ⊢
  cases hb : guard.blocked with
  | true =>
    rw [hb, if_pos rfl] at h
    exact absurd (hb.symm.trans h) (by decide)
  | false =>
    rw [hb, if_neg Bool.false_ne_true] at h
    rw [if_neg Bool.false_ne_true]
    have hscan : (scanSummaryBeforeEmit cfg.guard guard text).1.blocked = false := by
      split_ifs at h <;> exact h
    rw [if_neg (Bool.eq_false_iff.1 (not_stops_of_open cfg.guard hscan))]
    exact ⟨rfl, rfl, by simp [answer]⟩

/-- With the guard open, the summary is sent as far as it has come and the cap allows. -/
theorem emit_summary (hstream : cfg.answerStream = true) {accumulated : Text} {seenLen : ℕ}
    {guard : StreamGuard Text} (hseen : seenLen ≤ cfg.maxChars) {text : Points}
    (htext : extractString summaryName accumulated = text)
    (h : (emitFieldDeltas cfg accumulated .summary seenLen guard).2.1.blocked = false) :
    guard.blocked = false ∧
      (emitFieldDeltas cfg accumulated .summary seenLen guard).1 =
        max seenLen (min text.length cfg.maxChars) ∧
      answer (emitFieldDeltas cfg accumulated .summary seenLen guard).2.2 =
        (text.take (max seenLen (min text.length cfg.maxChars))).drop seenLen := by
  have hfield : cfg.fieldText .summary accumulated = text := htext
  have hcapFor : cfg.capFor .summary = cfg.maxChars := rfl
  have hdelta : cfg.minDelta .summary = 1 := if_pos ⟨rfl, hstream⟩
  rw [emitFieldDeltas] at h ⊢
  simp only [hfield, hcapFor, hdelta] at h ⊢
  by_cases hlen : text.length ≤ seenLen
  · rw [if_pos hlen] at h ⊢
    rw [Nat.max_eq_left (by omega), List.drop_take_self]
    exact ⟨h, rfl, rfl⟩
  · by_cases hcap : cfg.maxChars ≤ seenLen
    · rw [if_neg hlen, if_pos hcap] at h ⊢
      rw [Nat.max_eq_left (by omega), List.drop_take_self]
      exact ⟨h, rfl, rfl⟩
    · rw [if_neg hlen, if_neg hcap, if_neg (by omega)] at h ⊢
      rw [Nat.max_eq_right (by omega)]
      exact report_open hstream h

end

/-! ### One chunk -/

section
variable {cfg : TraceConfig}

/-- The rounds of the other fields. -/
theorem foldl_onField {fields : List Field} (h : .summary ∉ fields) (s : TraceStream) :
    (fields.foldl (onField cfg) s).guard = s.guard ∧
      (fields.foldl (onField cfg) s).seen .summary = s.seen .summary ∧
      answer (fields.foldl (onField cfg) s).deltas = answer s.deltas ∧
      (fields.foldl (onField cfg) s).accumulated = s.accumulated := by
  induction fields generalizing s with
  | nil => exact ⟨rfl, rfl, rfl, rfl⟩
  | cons f fields ih =>
    rw [List.mem_cons, not_or] at h
    have hemit := @emit_of_ne cfg f (Ne.symm h.1) s.accumulated (s.seen f) s.guard
    obtain ⟨hguard, hseen, hanswer, hacc⟩ := ih h.2 (onField cfg s f)
    rw [List.foldl_cons, hguard, hseen, hanswer, hacc, onField_guard, onField_seen, onField_deltas,
      Function.update_of_ne h.1, answer_append, hemit.1, hemit.2, List.append_nil]
    exact ⟨rfl, rfl, rfl, rfl⟩

/-- The summary comes first and only once. -/
theorem traceFields_summary (cfg : TraceConfig) (extra : List Field) (inPlan : Bool) :
    ∃ others, traceFields cfg .summary extra inPlan = .summary :: others ∧ .summary ∉ others := by
  rw [traceFields]
  split_ifs <;> exact ⟨_, rfl, by simp⟩

/-- What one chunk does to the answer, as long as the guard is open. -/
theorem onTraceChunk_spec (hstream : cfg.answerStream = true) {others : List Field}
    (hothers : .summary ∉ others) {s : TraceStream} {chunk : Text}
    (hlen : s.seen .summary ≤ cfg.maxChars)
    (hsent : min (extractString summaryName s.accumulated).length cfg.maxChars ≤ s.seen .summary)
    (h : (onTraceChunk cfg (.summary :: others) s chunk).guard.blocked = false) {text : Points}
    (htext : extractString summaryName (s.accumulated ++ chunk) = text) :
    s.guard.blocked = false ∧
      (onTraceChunk cfg (.summary :: others) s chunk).accumulated = s.accumulated ++ chunk ∧
      (onTraceChunk cfg (.summary :: others) s chunk).seen .summary =
        max (s.seen .summary) (min text.length cfg.maxChars) ∧
      answer (onTraceChunk cfg (.summary :: others) s chunk).deltas = answer s.deltas ++
        (text.take (max (s.seen .summary) (min text.length cfg.maxChars))).drop
          (s.seen .summary) := by
  by_cases hchunk : chunk = []
  · rw [onTraceChunk, if_pos hchunk] at h ⊢
    rw [hchunk, List.append_nil] at htext ⊢
    rw [htext] at hsent
    rw [Nat.max_eq_left hsent, List.drop_take_self, List.append_nil]
    exact ⟨h, rfl, rfl, rfl⟩
  · rw [onTraceChunk, if_neg hchunk, List.foldl_cons] at h ⊢
    obtain ⟨hguard, hseen, hanswer, hacc⟩ := @foldl_onField cfg _ hothers
      (onField cfg { s with accumulated := s.accumulated ++ chunk } .summary)
    rw [hguard, onField_guard] at h
    obtain ⟨hopen, hnew, hpiece⟩ := emit_summary hstream hlen htext h
    rw [hseen, hanswer, hacc, onField_seen, onField_deltas, Function.update_self, answer_append,
      hnew, hpiece]
    exact ⟨hopen, rfl, rfl, rfl⟩

/-- A guard that blocks goes on blocking. -/
theorem emit_blocked {guard : StreamGuard Text} (h : guard.blocked) (accumulated : Text) (f : Field)
    (seenLen : ℕ) : (emitFieldDeltas cfg accumulated f seenLen guard).2.1 = guard := by
  have hreport (newLen : ℕ) :
      (reportPiece cfg f (cfg.fieldText f accumulated) seenLen newLen guard).2.1 = guard := by
    rw [reportPiece]
    split_ifs <;> rfl
  rw [emitFieldDeltas]
  split
  · rfl
  · split
    · rfl
    · dsimp only
      split
      · rfl
      · exact hreport _

theorem foldl_onField_blocked {fields : List Field} {s : TraceStream} (h : s.guard.blocked) :
    (fields.foldl (onField cfg) s).guard.blocked := by
  induction fields generalizing s with
  | nil => exact h
  | cons f fields ih =>
    refine ih ?_
    rw [onField_guard, emit_blocked h]
    exact h

theorem foldl_onTraceChunk_open {fields : List Field} {chunks : List Text} {s : TraceStream}
    (h : (chunks.foldl (onTraceChunk cfg fields) s).guard.blocked = false) :
    s.guard.blocked = false := by
  induction chunks generalizing s with
  | nil => exact h
  | cons chunk chunks ih =>
    have hstep := ih h
    cases hb : s.guard.blocked with
    | false => rfl
    | true =>
      rw [onTraceChunk] at hstep
      split_ifs at hstep
      · exact hb.symm.trans hstep
      · have hblocked := @foldl_onField_blocked cfg fields
          { s with accumulated := s.accumulated ++ chunk } hb
        rw [hstep] at hblocked
        cases hblocked

end

/-! ### A whole stream -/

/-- What is read once `n` characters of a text have come in. -/
def readAt (full : Text) (n : ℕ) : Points := extractString summaryName (full.take n)

/-- RUN: the answer after the rest of the chunks, character by character. -/
theorem foldl_onTraceChunk {cfg : TraceConfig} (hstream : cfg.answerStream = true)
    {others : List Field} (hothers : .summary ∉ others) {full : Text} {chunks : List Text} {n : ℕ}
    {ns : List ℕ} {s : TraceStream} (hacc : s.accumulated = full.take n)
    (hrest : chunks.flatten = full.drop n) (hn : n ≤ full.length)
    (hseen : s.seen .summary = (answer s.deltas).length) (hcap : s.seen .summary ≤ cfg.maxChars)
    (hsent : ∀ i, (answer s.deltas)[i]? = sentAt (readAt full) cfg.maxChars ns i)
    (hold : min (readAt full n).length cfg.maxChars ≤ s.seen .summary)
    (hopen : (chunks.foldl (onTraceChunk cfg (.summary :: others)) s).guard.blocked = false)
    (i : ℕ) : (answer (chunks.foldl (onTraceChunk cfg (.summary :: others)) s).deltas)[i]? =
      sentAt (readAt full) cfg.maxChars (ns ++ cuts n chunks) i := by
  induction chunks generalizing n ns s with
  | nil =>
    rw [cuts, List.append_nil]
    exact hsent i
  | cons chunk chunks ih =>
    rw [List.flatten_cons] at hrest
    have hlen : n + chunk.length ≤ full.length := by
      have h := congrArg List.length hrest
      rw [List.length_append, List.length_drop] at h
      omega
    have hchunk : full.take n ++ chunk = full.take (n + chunk.length) := by
      rw [List.take_add, ← hrest, List.take_left]
    have hrest' : chunks.flatten = full.drop (n + chunk.length) := by
      rw [← List.drop_drop, ← hrest, List.drop_left]
    rw [List.foldl_cons] at hopen ⊢
    obtain ⟨-, hacc', hseen', hanswer⟩ := onTraceChunk_spec hstream hothers hcap
      (by rw [hacc]; exact hold) (foldl_onTraceChunk_open hopen)
      (show extractString summaryName (s.accumulated ++ chunk) = readAt full (n + chunk.length) by
        rw [hacc, hchunk, readAt])
    have hplaces := sentAt_concat hsent (hseen ▸ hcap) (n + chunk.length)
    rw [← hseen, ← hanswer] at hplaces
    have hlength : (answer (onTraceChunk cfg (.summary :: others) s chunk).deltas).length =
        max (s.seen .summary) (min (readAt full (n + chunk.length)).length cfg.maxChars) := by
      rw [hanswer, List.length_append, List.length_drop, List.length_take, ← hseen]
      omega
    rw [cuts, List.append_cons]
    refine ih ?_ hrest' hlen (hseen'.trans hlength.symm) ?_ hplaces ?_ hopen
    · rw [hacc', hacc, hchunk]
    · rw [hseen']
      omega
    · rw [hseen']
      omega

/-- The answer of a stream that the guard did not block, character by character. -/
theorem answer_stream {cfg : TraceConfig} (hstream : cfg.answerStream = true) (extra : List Field)
    (inPlan : Bool) {chunks : List Text}
    (hopen : (streamLlmTrace cfg .summary extra inPlan chunks).guard.blocked = false) (i : ℕ) :
    (answer (streamLlmTrace cfg .summary extra inPlan chunks).deltas)[i]? =
      sentAt (readAt chunks.flatten) cfg.maxChars (cuts 0 chunks) i := by
  obtain ⟨others, hfields, hothers⟩ := traceFields_summary cfg extra inPlan
  have hon : ¬ ((!cfg.traceEnabled && !cfg.answerStream) = true) := by simp [hstream]
  rw [streamLlmTrace, if_neg hon, hfields] at hopen ⊢
  refine @foldl_onTraceChunk cfg hstream others hothers _ _ 0 [] {} rfl rfl (Nat.zero_le _) rfl
    (Nat.zero_le _) (fun i => ?_) ?_ hopen i
  · rw [sentAt]
    split_ifs <;> rfl
  · exact Nat.min_le_left ..

/-- Without the answer stream no delta goes to the answer. -/
theorem emit_no_answer {cfg : TraceConfig} (hoff : cfg.answerStream = false) (accumulated : Text)
    (f : Field) (seenLen : ℕ) (guard : StreamGuard Text) :
    answer (emitFieldDeltas cfg accumulated f seenLen guard).2.2 = [] := by
  have hreport (newLen : ℕ) :
      answer (reportPiece cfg f (cfg.fieldText f accumulated) seenLen newLen guard).2.2 = [] := by
    rw [reportPiece, hoff]
    simp only [Bool.false_eq_true, and_false, if_false]
    split_ifs <;> rfl
  rw [emitFieldDeltas]
  split
  · rfl
  · split
    · rfl
    · dsimp only
      split
      · rfl
      · exact hreport _

theorem foldl_no_answer {cfg : TraceConfig} (hoff : cfg.answerStream = false)
    {fields : List Field} {chunks : List Text} {s : TraceStream} (h : answer s.deltas = []) :
    answer (chunks.foldl (onTraceChunk cfg fields) s).deltas = [] := by
  have hround : ∀ (fields : List Field) (s : TraceStream), answer s.deltas = [] →
      answer (fields.foldl (onField cfg) s).deltas = [] := by
    intro fields
    induction fields with
    | nil => exact fun s h => h
    | cons f fields ih =>
      intro s h
      refine ih _ ?_
      rw [onField_deltas, answer_append, h, emit_no_answer hoff]
      rfl
  induction chunks generalizing s with
  | nil => exact h
  | cons chunk chunks ih =>
    refine ih ?_
    rw [onTraceChunk]
    split_ifs
    · exact h
    · exact hround fields _ h

theorem answer_off {cfg : TraceConfig} (hoff : cfg.answerStream = false) (extra : List Field)
    (inPlan : Bool) (chunks : List Text) :
    answer (streamLlmTrace cfg .summary extra inPlan chunks).deltas = [] := by
  rw [streamLlmTrace]
  split_ifs
  · rfl
  · exact foldl_no_answer hoff rfl

/-! ### The text of a summary, cut -/

/-- A text with the string of the summary in it: `before` ends with the key and the colon of the
    member. -/
structure SummaryText where
  before : Text
  summary : List Atom
  after : Text
  canonical : Canonical summary

namespace SummaryText
variable (d : SummaryText)

def fullText : Text := d.before ++ '"' :: (text d.summary ++ '"' :: d.after)

/-- Where the summary begins. -/
def start : ℕ := d.before.length + 1

/-- The first `"summary": "` of the text is the one in front of the summary. -/
def FirstKey : Prop := searchField summaryName d.fullText = some d.start

end SummaryText

/-- The first `m` characters of a spelling end inside a `\u` escape, after the `u`, or inside a pair of
    them. -/
def MidEscape (as : List Atom) (m : ℕ) : Prop :=
  ∃ pre a post, as = pre ++ a :: post ∧ a.isUnicode ∧ (text pre).length + 2 ≤ m ∧
    m < (text pre).length + a.text.length

/-- A cut that leaves a beginning of the summary. -/
def CleanCut (d : SummaryText) (n : ℕ) : Prop :=
  d.FirstKey ∧ ¬ MidEscape d.summary (n - d.start)

theorem MidEscape.cons {as : List Atom} {m : ℕ} (h : MidEscape as m) (a : Atom) :
    MidEscape (a :: as) (a.text.length + m) := by
  obtain ⟨pre, b, post, rfl, hb, hge, hlt⟩ := h
  refine ⟨a :: pre, b, post, rfl, hb, ?_, ?_⟩ <;> rw [text_cons, List.length_append] <;> omega

theorem fieldBody_cons {c : Char} (h : c ≠ '"') (h' : c ≠ '\\') (t : Text) :
    fieldBody (c :: t) = c :: fieldBody t := by
  rw [fieldBody.eq_2 c t (by simp [h']), if_neg (by simp [h, h'])]

theorem fieldBody_digits {ds : Text} (h : ∀ c ∈ ds, (hexDigit c).isSome) (t : Text) :
    fieldBody (ds ++ t) = ds ++ fieldBody t := by
  induction ds with
  | nil => rfl
  | cons c ds ih =>
    obtain ⟨hq, hb⟩ := hexDigit_ne (h c List.mem_cons_self)
    rw [List.cons_append, fieldBody_cons hq hb, ih fun d hd => h d (List.mem_cons_of_mem c hd)]
    rfl

theorem fieldBody_hex4 (u : Hex4) (t : Text) :
    fieldBody ('\\' :: 'u' :: (u.digits ++ t)) = '\\' :: 'u' :: (u.digits ++ fieldBody t) := by
  rw [fieldBody, fieldBody_digits u.hex]

theorem fieldBody_atom (a : Atom) (t : Text) : fieldBody (a.text ++ t) = a.text ++ fieldBody t := by
  cases a with
  | plain c h => exact fieldBody_cons h.1 h.2.1 t
  | short e => rfl
  | unicode u => exact fieldBody_hex4 u t
  | pair hi lo h =>
    rw [Atom.text, List.cons_append, List.cons_append, List.append_assoc, fieldBody_hex4]
    have hlo := fieldBody_hex4 lo t
    rw [List.cons_append, List.cons_append, hlo, List.cons_append, List.cons_append,
      List.append_assoc]
    rfl

/-- Less than an atom, but for a `\u` with something behind it, is no part of the match. -/
theorem fieldBody_take_atom {a : Atom} {m : ℕ} (hm : m < a.text.length)
    (h : a.isUnicode → m < 2) (t : Text) : fieldBody ((a.text ++ t).take m) = [] := by
  cases a with
  | plain c hc =>
    have hzero : m = 0 := Nat.lt_one_iff.1 hm
    rw [hzero]
    rfl
  | short e =>
    have htwo : m < 2 := hm
    match m, htwo with
    | 0, _ => rfl
    | 1, _ => rfl
  | unicode u =>
    have htwo : m < 2 := h rfl
    match m, htwo with
    | 0, _ => rfl
    | 1, _ => rfl
  | pair hi lo hp =>
    have htwo : m < 2 := h rfl
    match m, htwo with
    | 0, _ => rfl
    | 1, _ => rfl

/-- CUT: a spelling cut anywhere but inside a `\u` escape is matched as far as it is complete. -/
theorem fieldBody_take (after : Text) : ∀ {as : List Atom} {m : ℕ}, ¬ MidEscape as m →
    ∃ k, fieldBody ((text as ++ '"' :: after).take m) = text (as.take k)
  | [], 0, _ => ⟨0, rfl⟩
  | [], _ + 1, _ => ⟨0, rfl⟩
  | a :: as, m, h => by
      rw [text_cons, List.append_assoc]
      by_cases hm : m < a.text.length
      · refine ⟨0, fieldBody_take_atom hm (fun ha => ?_) _⟩
        by_contra hge
        refine h ⟨[], a, as, rfl, ha, ?_, ?_⟩
        · rw [text_nil, List.length_nil]
          omega
        · rwa [text_nil, List.length_nil, Nat.zero_add]
      · obtain ⟨l, rfl⟩ : ∃ l, m = a.text.length + l := ⟨m - a.text.length, by omega⟩
        obtain ⟨k, hk⟩ := @fieldBody_take after as l fun hl => h (hl.cons a)
        refine ⟨k + 1, ?_⟩
        rw [List.take_length_add_append, fieldBody_atom, hk, List.take_succ_cons, text_cons]

theorem fieldBody_text (after : Text) (as : List Atom) :
    fieldBody (text as ++ '"' :: after) = text as := by
  induction as with
  | nil => rfl
  | cons a as ih => rw [text_cons, List.append_assoc, fieldBody_atom, ih]

theorem decodeJsonString_text {as : List Atom} (h : Canonical as) :
    decodeJsonString (text as) = points as := by
  rw [decodeJsonString, loads_text h]

section
variable {d : SummaryText}

theorem drop_fullText_start (n : ℕ) : (d.fullText.take n).drop d.start =
    (text d.summary ++ '"' :: d.after).take (n - d.start) := by
  have hsplit : d.fullText = (d.before ++ ['"']) ++ (text d.summary ++ '"' :: d.after) := by
    rw [SummaryText.fullText, List.append_assoc]
    rfl
  have hstart : d.start = (d.before ++ ['"']).length := by
    rw [SummaryText.start, List.length_append, List.length_singleton]
  rw [List.drop_take, hsplit, hstart, List.drop_left]

theorem readAt_of_firstKey (h : d.FirstKey) (n : ℕ) : readAt d.fullText n =
    if n < d.start then []
    else decodeJsonString (fieldBody ((text d.summary ++ '"' :: d.after).take (n - d.start))) := by
  have hname : IsName summaryName := by decide
  rw [readAt, extractString, searchField_take hname h]
  split_ifs
  · rfl
  · simp only [drop_fullText_start]

/-- After a clean cut a beginning of the summary is read. -/
theorem readAt_clean {n : ℕ} (h : CleanCut d n) : readAt d.fullText n <+: points d.summary := by
  rw [readAt_of_firstKey h.1]
  split_ifs
  · exact List.nil_prefix
  · obtain ⟨k, hk⟩ := fieldBody_take d.after h.2
    rw [hk, decodeJsonString_text (List.IsChain.take d.canonical k), points, points, List.map_take]
    exact List.take_prefix k _

/-- The whole text gives the whole summary. -/
theorem readAt_full (h : d.FirstKey) : readAt d.fullText d.fullText.length = points d.summary := by
  have hlen : d.fullText.length = d.start + (text d.summary ++ '"' :: d.after).length := by
    rw [SummaryText.fullText, SummaryText.start, List.length_append, List.length_cons]
    omega
  rw [readAt_of_firstKey h, if_neg (by omega), hlen, Nat.add_sub_cancel_left, List.take_length,
    fieldBody_text, decodeJsonString_text d.canonical]

end

/-! ### The law -/

/-- The cut after which the character in place `i` is sent: the first that gives so many. -/
def sender (d : SummaryText) (chunks : List Text) (i : ℕ) : Option ℕ :=
  (cuts 0 chunks).find? fun n => i < (readAt d.fullText n).length

/-- Each character within the cap is sent after a clean cut, or is right by coincidence. -/
def Undamaged (cfg : TraceConfig) (d : SummaryText) (chunks : List Text) : Prop :=
  ∀ i < cfg.maxChars, match sender d chunks i with
    | some n => CleanCut d n ∨ (readAt d.fullText n)[i]? = (points d.summary)[i]?
    | none => (points d.summary).length ≤ i

/-- With clean cuts only, nothing is damaged. -/
theorem undamaged_of_clean {cfg : TraceConfig} {d : SummaryText} {chunks : List Text}
    (h : chunks.flatten = d.fullText) (hkey : d.FirstKey)
    (hclean : ∀ n ∈ cuts 0 chunks, ¬ MidEscape d.summary (n - d.start)) :
    Undamaged cfg d chunks := by
  intro i _
  cases hsender : sender d chunks i with
  | some n => exact Or.inl ⟨hkey, hclean n (List.mem_of_find?_eq_some hsender)⟩
  | none =>
    have hne : chunks ≠ [] := by
      rintro rfl
      have hnil := congrArg List.length h
      simp [SummaryText.fullText] at hnil
    obtain ⟨init, hlast⟩ := cuts_eq_concat 0 hne
    have hfull : d.fullText.length ∈ cuts 0 chunks := by
      rw [hlast, h, Nat.zero_add]
      exact List.mem_append_right _ (List.mem_singleton_self _)
    have hread := List.find?_eq_none.1 hsender _ hfull
    rw [readAt_full hkey] at hread
    simpa using hread

theorem sentAt_eq_iff {cfg : TraceConfig} {d : SummaryText} {chunks : List Text} {i : ℕ}
    (hi : i < cfg.maxChars) :
    sentAt (readAt d.fullText) cfg.maxChars (cuts 0 chunks) i = (points d.summary)[i]? ↔
      match sender d chunks i with
      | some n => CleanCut d n ∨ (readAt d.fullText n)[i]? = (points d.summary)[i]?
      | none => (points d.summary).length ≤ i := by
  rw [sentAt, if_pos hi]
  change (sender d chunks i).bind (fun n => (readAt d.fullText n)[i]?) = _ ↔ _
  cases hsender : sender d chunks i with
  | none => exact eq_comm.trans List.getElem?_eq_none_iff
  | some n =>
    have hlen : i < (readAt d.fullText n).length := by
      simpa using List.find?_some hsender
    refine ⟨Or.inr, fun h => h.elim (fun hclean => ?_) id⟩
    obtain ⟨rest, hrest⟩ := readAt_clean hclean
    rw [Option.bind_some, ← hrest, List.getElem?_append_left hlen]

/-- The deltas of the answer make up the summary, up to the cap, in these cases only. -/
theorem answer_eq_iff (cfg : TraceConfig) (extra : List Field) (inPlan : Bool) (d : SummaryText)
    {chunks : List Text} (h : chunks.flatten = d.fullText)
    (hopen : (streamLlmTrace cfg .summary extra inPlan chunks).guard.blocked = false) :
    answer (streamLlmTrace cfg .summary extra inPlan chunks).deltas =
        (points d.summary).take cfg.maxChars ↔
      if cfg.answerStream then Undamaged cfg d chunks
      else (points d.summary).take cfg.maxChars = [] := by
  cases hstream : cfg.answerStream with
  | false =>
    rw [answer_off hstream, if_neg Bool.false_ne_true]
    exact eq_comm
  | true =>
    rw [if_pos rfl, List.ext_getElem?_iff]
    have hchar := answer_stream hstream extra inPlan hopen
    rw [h] at hchar
    constructor
    · intro heq i hi
      have hi' := heq i
      rw [hchar, List.getElem?_take_of_lt hi] at hi'
      exact (sentAt_eq_iff hi).1 hi'
    · intro hall i
      rw [hchar]
      by_cases hi : i < cfg.maxChars
      · rw [List.getElem?_take_of_lt hi]
        exact (sentAt_eq_iff hi).2 (hall i hi)
      · rw [sentAt, if_neg hi, List.getElem?_eq_none]
        rw [List.length_take]
        omega

/-! ### One escape, cut -/

def openGuard : TraceConfig where
  maxChars := 20000
  guard := ⟨true, fun _ => []⟩
  otherText _ _ := []

/-- `{"summary": "\u4e2d\t"}` -/
def escapedSummary : SummaryText where
  before := "\x7b\x22summary\x22: ".toList
  summary := [escapedAtom, .short .tab]
  after := "\x7d".toList
  canonical := List.isChain_pair.2 trivial

/-- The two chunks of a text cut after `n` characters. -/
def twoChunks (d : SummaryText) (n : ℕ) : List Text := [d.fullText.take n, d.fullText.drop n]

/-- Cut after `\u4`, the client is left with these three characters. -/
theorem escapedSummary_damaged :
    (twoChunks escapedSummary 16).flatten = escapedSummary.fullText ∧
      (streamLlmTrace openGuard .summary [] false (twoChunks escapedSummary 16)).guard.blocked =
        false ∧
      answer (streamLlmTrace openGuard .summary [] false (twoChunks escapedSummary 16)).deltas =
        ofText "\\u4".toList ∧
      answer (streamLlmTrace openGuard .summary [] false (twoChunks escapedSummary 16)).deltas ≠
        (points escapedSummary.summary).take openGuard.maxChars := by
  refine ⟨?_, ?_, ?_, ?_⟩ <;> decide +kernel

/-- Cut after the backslash of the tab, it arrives whole. -/
theorem escapedSummary_whole :
    answer (streamLlmTrace openGuard .summary [] false (twoChunks escapedSummary 20)).deltas =
      (points escapedSummary.summary).take openGuard.maxChars := by
  have hkey : escapedSummary.FirstKey := by
    rw [SummaryText.FirstKey]
    decide +kernel
  have hflat : (twoChunks escapedSummary 20).flatten = escapedSummary.fullText := by decide +kernel
  refine (answer_eq_iff openGuard [] false escapedSummary hflat (by decide +kernel)).2 ?_
  rw [if_pos (show openGuard.answerStream = true from rfl)]
  refine undamaged_of_clean hflat hkey fun n hn => ?_
  have hcuts : cuts 0 (twoChunks escapedSummary 20) = [20, 23] := by decide +kernel
  have hstart : escapedSummary.start = 13 := by decide +kernel
  rw [hcuts, List.mem_cons, List.mem_singleton] at hn
  rintro ⟨pre, a, post, heq, ha, -, hlt⟩
  rw [hstart] at hlt
  cases pre with
  | nil =>
    obtain ⟨rfl, -⟩ := List.cons.inj heq
    have hsix : n - 13 < 6 := hlt
    omega
  | cons b pre =>
    obtain ⟨-, heq⟩ := List.cons.inj heq
    cases pre with
    | nil =>
      obtain ⟨rfl, -⟩ := List.cons.inj heq
      cases ha
    | cons b' pre =>
      have hlen := congrArg List.length (List.cons.inj heq).2
      simp at hlen

end AgentLangraph.Stream
