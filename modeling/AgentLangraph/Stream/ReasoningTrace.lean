import AgentLangraph.Lib.JsonKey
import AgentLangraph.Stream.ArtifactStream
import AgentLangraph.Stream.OutputGuard
import Mathlib.Logic.Function.Basic

/-! Streaming the answer out of the reasoning JSON (`reasoning_trace.py`). After each chunk every field
    is taken out of all the text so far and decoded, and what is longer than before is sent; only the
    length sent is remembered. -/

namespace AgentLangraph.Stream
open PyText JsonText JsonKey

/-- `_FIELD_PATTERNS`. -/
inductive Field
  | summary | content | artifactCode | riskLevel | confidence | thinking
  deriving DecidableEq

/-- The settings, the guard and the patterns of the other fields. -/
structure TraceConfig where
  /-- `REASONING_TRACE_ENABLED` -/
  traceEnabled : Bool := true
  /-- `REASONING_TRACE_VERBOSE` -/
  verbose : Bool := false
  /-- `REASONING_TRACE_SHOW_THINKING` -/
  showThinking : Bool := false
  /-- `ANSWER_STREAM_ENABLED` -/
  answerStream : Bool := true
  /-- What `stream_artifact_code_enabled` finds in the display configuration. -/
  artifactCode : Bool := true
  /-- `REASONING_TRACE_MAX_CHARS` -/
  maxChars : ℕ
  /-- `max_artifact_stream_chars()` -/
  maxArtifactChars : ℕ := 32000
  guard : GuardConfig ℕ Text
  otherText : Field → Text → Points

namespace TraceConfig
variable (cfg : TraceConfig)

def traceVerbose : Bool := cfg.traceEnabled && cfg.verbose

def streamArtifactCodeEnabled : Bool := cfg.answerStream && cfg.artifactCode

/-- `min_delta` and `summary_min_delta`. -/
def minDelta (f : Field) : ℕ :=
  if f = .summary ∧ cfg.answerStream then 1 else if cfg.traceVerbose then 40 else 120

def capFor (f : Field) : ℕ := if f = .artifactCode then cfg.maxArtifactChars else cfg.maxChars

end TraceConfig

/-- `extract_field_text` of a field with a string value. -/
def extractString (name : Text) (accumulated : Text) : Points :=
  match searchField name accumulated with
  | some start => decodeJsonString (fieldBody (accumulated.drop start))
  | none => []

def summaryName : Text := "summary".toList

/-- `extract_field_text`. -/
def TraceConfig.fieldText (cfg : TraceConfig) (f : Field) (accumulated : Text) : Points :=
  match f with
  | .summary => extractString summaryName accumulated
  | .content => extractString "content".toList accumulated
  | .thinking => extractString "thinking".toList accumulated
  | f => cfg.otherText f accumulated

/-- `report_answer_delta`, or `report_trace`. -/
structure Delta where
  field : Field
  isAnswer : Bool
  text : Points
  deriving DecidableEq

/-- The end of `emit_field_deltas`: where a piece that is long enough goes. -/
def reportPiece (cfg : TraceConfig) (f : Field) (text : Points) (seenLen newLen : ℕ)
    (guard : StreamGuard Text) : ℕ × StreamGuard Text × List Delta :=
  let chunk := (text.take newLen).drop seenLen
  if f = .thinking ∧ !cfg.showThinking then (newLen, guard, [])
  else if (f = .summary ∨ f = .artifactCode) ∧ cfg.answerStream then
    if f = .artifactCode ∧ !cfg.streamArtifactCodeEnabled then (newLen, guard, [])
    else if f = .summary then
      if guard.blocked then (seenLen, guard, [])
      else
        let (guard', issues) := scanSummaryBeforeEmit cfg.guard guard text
        if stops issues then (seenLen, guard', []) else (newLen, guard', [⟨f, true, chunk⟩])
    else (newLen, guard, [⟨f, true, chunk⟩])
  else if !cfg.traceEnabled then (newLen, guard, [])
  else (newLen, guard, [⟨f, false, chunk⟩])

/-- `emit_field_deltas`: the new length sent, the guard, and what is sent. -/
def emitFieldDeltas (cfg : TraceConfig) (accumulated : Text) (f : Field) (seenLen : ℕ)
    (guard : StreamGuard Text) : ℕ × StreamGuard Text × List Delta :=
  let text := cfg.fieldText f accumulated
  if text.length ≤ seenLen then (seenLen, guard, [])
  else if cfg.capFor f ≤ seenLen then (seenLen, guard, [])
  else
    let newLen := min text.length (cfg.capFor f)
    if newLen - seenLen < cfg.minDelta f then (seenLen, guard, [])
    else reportPiece cfg f text seenLen newLen guard

structure TraceStream where
  accumulated : Text := []
  seen : Field → ℕ := fun _ => 0
  guard : StreamGuard Text := {}
  deltas : List Delta := []

/-- One round of `for fname in fields`. -/
def onField (cfg : TraceConfig) (s : TraceStream) (f : Field) : TraceStream :=
  let (seenLen, guard, deltas) := emitFieldDeltas cfg s.accumulated f (s.seen f) s.guard
  { s with seen := Function.update s.seen f seenLen, guard, deltas := s.deltas ++ deltas }

section
variable (cfg : TraceConfig) (s : TraceStream) (f : Field)

theorem onField_guard : (onField cfg s f).guard =
    (emitFieldDeltas cfg s.accumulated f (s.seen f) s.guard).2.1 := rfl

theorem onField_seen : (onField cfg s f).seen = Function.update s.seen f
    (emitFieldDeltas cfg s.accumulated f (s.seen f) s.guard).1 := rfl

theorem onField_deltas : (onField cfg s f).deltas =
    s.deltas ++ (emitFieldDeltas cfg s.accumulated f (s.seen f) s.guard).2.2 := rfl

end

/-- `fields`. -/
def traceFields (cfg : TraceConfig) (field : Field) (extra : List Field) (inPlan : Bool) :
    List Field :=
  let fields := field :: extra.filter (· ≠ field)
  let fields :=
    if cfg.streamArtifactCodeEnabled ∧ Field.artifactCode ∉ fields then fields ++ [Field.artifactCode]
    else fields
  if cfg.traceVerbose ∧ inPlan then fields ++ [Field.riskLevel, Field.confidence] else fields

/-- One chunk. -/
def onTraceChunk (cfg : TraceConfig) (fields : List Field) (s : TraceStream) (chunk : Text) :
    TraceStream :=
  if chunk = [] then s
  else fields.foldl (onField cfg) { s with accumulated := s.accumulated ++ chunk }

/-- `stream_llm_trace`, but for the traces of plan steps and of the progress; `inPlan` is
    `"plan" in phase`. -/
def streamLlmTrace (cfg : TraceConfig) (field : Field) (extra : List Field) (inPlan : Bool)
    (chunks : List Text) : TraceStream :=
  if !cfg.traceEnabled && !cfg.answerStream then { accumulated := chunks.flatten }
  else chunks.foldl (onTraceChunk cfg (traceFields cfg field extra inPlan)) {}

/-- The answer a client has put together from the deltas of the summary. -/
def answer (deltas : List Delta) : Points :=
  (deltas.filter fun d => d.isAnswer && decide (d.field = .summary)).flatMap Delta.text

/-! ### Characters are sent once -/

/-- The character sent in place `i`, where the text after the cut `n` is `read n`: it is sent after
    the first cut that gives so many. -/
def sentAt (read : ℕ → Points) (cap : ℕ) (ns : List ℕ) (i : ℕ) : Option ℕ :=
  if i < cap then (ns.find? fun n => i < (read n).length).bind fun n => (read n)[i]? else none

theorem sentAt_eq_none_iff {read : ℕ → Points} {cap : ℕ} {ns : List ℕ} {i : ℕ} :
    sentAt read cap ns i = none ↔ cap ≤ i ∨ ∀ n ∈ ns, (read n).length ≤ i := by
  rw [sentAt]
  split_ifs with hcap
  · rw [or_iff_right (by omega), Option.bind_eq_none_iff]
    constructor
    · intro h
      cases hfind : ns.find? fun n => i < (read n).length with
      | none => simpa using List.find?_eq_none.1 hfind
      | some n =>
        have hlen := List.find?_some hfind
        have hnone := List.getElem?_eq_none_iff.1 (h n hfind)
        simp only [decide_eq_true_eq] at hlen
        omega
    · intro h n hfind
      have hlen := List.find?_some hfind
      simp only [decide_eq_true_eq] at hlen
      have := h n (List.mem_of_find?_eq_some hfind)
      omega
  · exact iff_of_true rfl (Or.inl (by omega))

/-- After one more cut the places that were sent stay, and the next ones are filled. -/
theorem sentAt_concat {read : ℕ → Points} {cap : ℕ} {ns : List ℕ} {sent : Points}
    (hsent : ∀ i, sent[i]? = sentAt read cap ns i) (hcap : sent.length ≤ cap) (n i : ℕ) :
    (sent ++ ((read n).take (max sent.length (min (read n).length cap))).drop sent.length)[i]? =
      sentAt read cap (ns ++ [n]) i := by
  by_cases hi : i < sent.length
  · obtain ⟨x, hx⟩ : ∃ x, sentAt read cap ns i = some x :=
      ⟨sent[i], by rw [← hsent, List.getElem?_eq_getElem hi]⟩
    rw [List.getElem?_append_left hi, hsent, hx]
    rw [sentAt, if_pos (by omega)] at hx ⊢
    obtain ⟨m, hfind, hm⟩ := Option.bind_eq_some_iff.1 hx
    rw [List.find?_append, hfind]
    exact hm.symm
  · have hnone := sentAt_eq_none_iff.1 ((hsent i).symm.trans (List.getElem?_eq_none (by omega)))
    rw [List.getElem?_append_right (by omega), List.getElem?_drop,
      show sent.length + (i - sent.length) = i by omega]
    by_cases hle : cap ≤ i
    · rw [sentAt, if_neg (by omega), List.getElem?_eq_none]
      rw [List.length_take]
      omega
    · have hold := hnone.resolve_left hle
      have hfind : ns.find? (fun n => i < (read n).length) = none :=
        List.find?_eq_none.2 fun m hm => by simpa using hold m hm
      rw [sentAt, if_pos (by omega), List.find?_append, hfind, Option.none_or, List.find?_singleton]
      by_cases hlen : i < (read n).length
      · rw [if_pos (by simpa using hlen), List.getElem?_take_of_lt (by omega)]
        rfl
      · rw [if_neg (by simpa using hlen), List.getElem?_eq_none]
        · rfl
        · rw [List.length_take]
          omega

end AgentLangraph.Stream
