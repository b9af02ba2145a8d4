import AgentLangraph.Context.Receipt

/-! Shrinking one item (`_truncate_item_content` of `context_reducer.py`): memory, knowledge, tool and
    diagnostic items each have their own compressor, everything else is cut to a character budget.

    What the reducer's loop depends on is proved at the end. Every compressor but one brings an item
    down to the tokens it was asked for. The exception is the structured tool item, whose name and
    status are kept whatever their length; there a second truncation may still change the body, and
    a third never does. -/

namespace AgentLangraph.Context
open PyText

/-- `_clip_content`. -/
def clipContent (item : ContextItem) (clipped : Text) (method : String) : ContextItem :=
  { item with
    content := clipped
    estimatedTokens := estimateTextTokens clipped
    data := (item.data.set "truncated".toList (.bool true)).set "compress_method".toList
      (.str method.toList) }

/-- `max(80, max_tokens * 4)`, a character count. -/
def charBudget (maxTokens : ℤ) : ℕ := (max 80 (maxTokens * 4)).toNat

/-- `max(40, max_tokens * 3)`, a character count. -/
def bodyBudget (maxTokens : ℤ) : ℕ := (max 40 (maxTokens * 3)).toNat

def memoryMarkers : List Text :=
  ["Result:".toList, "Decision:".toList, "Outcome:".toList, "Episode:".toList]

/-- The first marker whose snippet is shorter than the text. -/
def memorySnippet (text : Text) (budget : ℕ) : List Text → Option Text
  | [] => none
  | marker :: markers =>
    match find marker text with
    | some idx =>
      let snippet := (text.drop idx).take budget
      if snippet.length < text.length then some snippet else memorySnippet text budget markers
    | none => memorySnippet text budget markers

def compressMemoryItem (item : ContextItem) (maxTokens : ℤ) : ContextItem :=
  match memorySnippet item.content (charBudget maxTokens) memoryMarkers with
  | some snippet => clipContent item (rstrip snippet ++ [ellipsis]) "memory_structured"
  | none =>
    clipContent item (rstrip (item.content.take (charBudget maxTokens)) ++ [ellipsis]) "memory_tail"

/-- The line loop of the structured knowledge compressor; headings go to the front. -/
def keepLines (host : Host) (budget : ℕ) : List Text → List Text → List Text
  | kept, [] => kept
  | kept, line :: lines =>
    let kept' :=
      if startswithAny (host.lower line) headings then line :: kept
      else if (joinLines kept).length + line.length + 1 ≤ budget then kept ++ [line]
      else kept
    if budget ≤ (joinLines kept').length then kept' else keepLines host budget kept' lines

def compressKnowledgeItem (host : Host) (settings : Settings) (item : ContextItem)
    (maxTokens : ℤ) (query : Text) : ContextItem :=
  let text := item.content
  let budget := charBudget maxTokens
  if settings.contextCompressExtractiveEnabled then
    clipContent item (extractiveSentences host text query budget) "knowledge_extractive"
  else
    let lines := ((splitlines text).map strip).filter (· ≠ [])
    if lines = [] then clipContent item (text.take budget) "knowledge_tail"
    else
      let kept := keepLines host budget [] lines
      let kept := if kept = [] then lines.take 3 else kept
      clipContent item (clipTo budget (joinLines (kept.take 6))) "knowledge_structured"

/-- The group `([^:]+)` after `\s*`: a segment that is all whitespace leaves it the last code point. -/
def statusGroup (seg : Text) : Text :=
  if lstrip seg = [] then seg.drop (seg.length - 1) else lstrip seg

/-- `^\s*\[([^\]]+)\]\s*([^:]+):\s*(.*)$` with `DOTALL`: name, status and body. -/
def matchToolHeader (text : Text) : Option (Text × Text × Text) :=
  match lstrip text with
  | [] => none
  | c :: rest =>
    let name := rest.takeWhile (· ≠ ']')
    match rest.dropWhile (· ≠ ']') with
    | [] => none
    | _ :: after =>
      let seg := after.takeWhile (· ≠ ':')
      match after.dropWhile (· ≠ ':') with
      | [] => none
      | _ :: body =>
        if c = '[' ∧ name ≠ [] ∧ seg ≠ [] then some (name, statusGroup seg, lstrip body) else none

/-- The body of a structured tool item after compression. -/
def toolBody (host : Host) (settings : Settings) (query : Text) (budget : ℕ) (body : Text) : Text :=
  let body := strip body
  if settings.contextCompressExtractiveEnabled ∧ budget < body.length then
    extractiveSentences host body query budget
  else clipTo budget body

/-- `f"[{name}] {status.strip()}: {body}"`. -/
def renderTool (name status body : Text) : Text :=
  '[' :: name ++ [']', ' '] ++ strip status ++ [':', ' '] ++ body

def compressToolItem (host : Host) (settings : Settings) (item : ContextItem) (maxTokens : ℤ)
    (query : Text) : ContextItem :=
  match matchToolHeader item.content with
  | some (name, status, body) =>
    clipContent item
      (renderTool name status (toolBody host settings query (bodyBudget maxTokens) body))
      "tool_structured"
  | none =>
    clipContent item (rstrip (item.content.take (charBudget maxTokens)) ++ [ellipsis]) "tool_tail"

def diagnosticKeywords : List Text :=
  ["error".toList, "failed".toList, "exception".toList, "line".toList, "file".toList,
    "cause".toList, "root".toList]

def compressDiagnosticItem (host : Host) (item : ContextItem) (maxTokens : ℤ) : ContextItem :=
  let text := item.content
  let hints := ((splitlines text).filter fun line =>
    diagnosticKeywords.any (contains (host.lower line))).map strip
  let clipped := if hints = [] then text.take (charBudget maxTokens) else joinLines (hints.take 4)
  clipContent item (clipTo (charBudget maxTokens) clipped) "diagnostic_structured"

/-- `_truncate_item_content`. -/
def truncateItemContent (host : Host) (settings : Settings) (query : Text) (maxTokens : ℤ)
    (item : ContextItem) : ContextItem :=
  let bucket := item.resolveBucket
  if item.estimatedTokens ≤ maxTokens then item
  else if bucket = .retrievedMemory ∨ item.kind = .episodicMemory then
    compressMemoryItem item maxTokens
  else if bucket = .retrievedKnowledge ∨ item.kind = .knowledge then
    compressKnowledgeItem host settings item maxTokens query
  else if bucket = .toolObservations ∨ item.kind = .toolOutput then
    compressToolItem host settings item maxTokens query
  else if bucket = .diagnostics ∨ item.kind ∈ [.diagnostic, .testFailure, .terminalOutput] then
    compressDiagnosticItem host item maxTokens
  else clipContent item (clipTo (charBudget maxTokens) item.content) "token_truncate"

/-! ### What truncation keeps -/

/-- `b` is `a` with another content, estimate and meta. -/
def Reworded (a b : ContextItem) : Prop :=
  b = { a with content := b.content, estimatedTokens := b.estimatedTokens, data := b.data }

theorem Reworded.refl (a : ContextItem) : Reworded a a := rfl

theorem reworded_clipContent (item : ContextItem) (clipped : Text) (method : String) :
    Reworded item (clipContent item clipped method) := rfl

theorem Reworded.id_eq {a b : ContextItem} (h : Reworded a b) : b.id = a.id := by rw [h]

theorem Reworded.droppable_eq {a b : ContextItem} (h : Reworded a b) :
    b.droppable = a.droppable := by rw [h]

theorem Reworded.resolveBucket_eq {a b : ContextItem} (h : Reworded a b) :
    b.resolveBucket = a.resolveBucket := by
  rw [h]; rfl

section

variable {host : Host} {settings : Settings} {query : Text} {maxTokens : ℤ}

theorem reworded_truncate (item : ContextItem) :
    Reworded item (truncateItemContent host settings query maxTokens item) := by
  rw [truncateItemContent]
  split_ifs
  · exact .refl item
  · rw [compressMemoryItem]; split <;> exact reworded_clipContent ..
  · rw [compressKnowledgeItem]; dsimp only; split_ifs <;> exact reworded_clipContent ..
  · rw [compressToolItem]; split <;> exact reworded_clipContent ..
  · exact reworded_clipContent ..
  · exact reworded_clipContent ..

theorem truncate_of_le {item : ContextItem} (h : item.estimatedTokens ≤ maxTokens) :
    truncateItemContent host settings query maxTokens item = item := by
  rw [truncateItemContent]; exact if_pos h

/-! ### The tokens of a truncated item -/

theorem estimate_le_of_length (hmax : 32 ≤ maxTokens) {text : Text}
    (h : text.length ≤ charBudget maxTokens + 1) : (estimateTextTokens text : ℤ) ≤ maxTokens := by
  rw [charBudget] at h
  rw [estimateTextTokens]
  omega

theorem length_rstrip_take_le (n : ℕ) (t : Text) : (rstrip (t.take n) ++ [ellipsis]).length ≤ n + 1 := by
  have h : (rstrip (t.take n)).length ≤ (t.take n).length :=
    (List.rdropWhile_prefix isSpace _).length_le
  rw [List.length_take] at h
  rw [List.length_append, List.length_singleton]
  omega

theorem length_memorySnippet_le {text : Text} {budget : ℕ} : ∀ {markers : List Text} {s : Text},
    memorySnippet text budget markers = some s → ∃ t : Text, s = t.take budget
  | [], s, h => by simp [memorySnippet] at h
  | m :: ms, s, h => by
      rw [memorySnippet] at h
      split at h
      · dsimp only at h
        split at h
        · exact ⟨_, (Option.some.inj h).symm⟩
        · exact length_memorySnippet_le h
      · exact length_memorySnippet_le h

theorem memory_tokens_le (hmax : 32 ≤ maxTokens) (item : ContextItem) :
    (compressMemoryItem item maxTokens).estimatedTokens ≤ maxTokens := by
  rw [compressMemoryItem]
  split
  · rename_i s hs
    obtain ⟨t, rfl⟩ := length_memorySnippet_le hs
    exact estimate_le_of_length hmax (length_rstrip_take_le _ _)
  · exact estimate_le_of_length hmax (length_rstrip_take_le _ _)

theorem knowledge_tokens_le (hmax : 32 ≤ maxTokens) (item : ContextItem) :
    (compressKnowledgeItem host settings item maxTokens query).estimatedTokens ≤ maxTokens := by
  rw [compressKnowledgeItem]
  dsimp only
  split_ifs
  · exact estimate_le_of_length hmax (length_extractiveSentences_le ..)
  · refine estimate_le_of_length hmax ?_
    rw [List.length_take]; omega
  · exact estimate_le_of_length hmax (length_clipTo_le ..)
  · exact estimate_le_of_length hmax (length_clipTo_le ..)

/-! ### Structured tool items -/

theorem toolBody_of_long {budget : ℕ} {body : Text} (h : budget < (strip body).length) :
    toolBody host settings query budget body =
      if settings.contextCompressExtractiveEnabled then
        extractiveSentences host (strip body) query budget
      else (strip body).take budget ++ [ellipsis] := by
  rw [toolBody, clipTo_of_lt h]
  simp [h]

theorem toolBody_of_short {budget : ℕ} {body : Text} (h : (strip body).length ≤ budget) :
    toolBody host settings query budget body = strip body := by
  rw [toolBody, if_neg (by omega), clipTo_of_le h]

/-- A body that was cut in the middle of a sentence is left alone. -/
theorem toolBody_of_cut {budget : ℕ} (hb : 0 < budget) {s : Text} (hlen : budget < s.length)
    (ht : Tight s) (hstop : settings.contextCompressExtractiveEnabled →
      ∀ c ∈ s.take budget, isStop c = false) :
    toolBody host settings query budget (s.take budget ++ [ellipsis]) =
      s.take budget ++ [ellipsis] := by
  have hne : s ≠ [] := by rintro rfl; simp at hlen
  have htight := tight_take_concat hb hne ht
  rw [toolBody, htight.strip_eq]
  split
  · rename_i hex
    rw [extractiveSentences_of_single host query budget (by simp), clipTo_take_concat hlen]
    refine sentences_of_no_stop (by simp) htight fun c hc => ?_
    rcases List.mem_append.1 hc with hc | hc
    · exact hstop hex.1 c hc
    · rw [List.mem_singleton.1 hc]
      exact isStop_ellipsis
  · exact clipTo_take_concat hlen

/-- Compressing a body twice is as good as compressing it any number of times. -/
theorem toolBody_stable {budget : ℕ} (hb : 0 < budget) (body : Text) :
    toolBody host settings query budget
        (toolBody host settings query budget (toolBody host settings query budget body)) =
      toolBody host settings query budget (toolBody host settings query budget body) := by
  by_cases hle : (strip body).length ≤ budget
  · have hstrip : (strip (strip body)).length ≤ budget := by rwa [strip_strip]
    rw [toolBody_of_short hle, toolBody_of_short hstrip, strip_strip, toolBody_of_short hstrip,
      strip_strip]
  have hlt : budget < (strip body).length := by omega
  have hne : strip body ≠ [] := by rintro h; rw [h] at hlt; simp at hlt
  by_cases hex : settings.contextCompressExtractiveEnabled
  · rw [toolBody_of_long hlt, if_pos hex]
    cases extract_extractiveSentences host query budget hne with
    | noSentence hs hr =>
      -- the first pass leaves the clipped text, the second its only sentence
      rw [hr, clipTo_of_lt hlt]
      have hlen : budget < (strip ((strip body).take budget ++ [ellipsis])).length := by
        rw [(tight_take_concat hb hne (tight_strip body)).strip_eq, List.length_append,
          List.length_take, List.length_singleton]
        omega
      have htwo : toolBody host settings query budget ((strip body).take budget ++ [ellipsis]) =
          [ellipsis] := by
        rw [toolBody_of_long hlen, if_pos hex,
          (tight_take_concat hb hne (tight_strip body)).strip_eq, extractiveSentences,
          if_neg (by simp), sentences_take_concat budget hs]
        simp [scoredFrom, pickFrom, joinLines, clipTo, show ¬ budget < 1 by omega]
      rw [htwo, toolBody_of_short (Nat.succ_le_of_lt hb)]
      rfl
    | fits hlen _ ht =>
      have hfix : toolBody host settings query budget
          (extractiveSentences host (strip body) query budget) =
          extractiveSentences host (strip body) query budget := by
        rw [toolBody_of_short (by rwa [ht.strip_eq]), ht.strip_eq]
      rw [hfix, hfix]
    | clipped s hs hlen hr =>
      obtain ⟨-, hst, hstop⟩ := mem_sentences hs
      have hcut : ∀ c ∈ s.take budget, isStop c = false := fun c hc => by
        refine hstop c ?_
        rw [List.dropLast_eq_take]
        exact (List.take_prefix_take_left (by omega)).subset hc
      rw [hr, toolBody_of_cut hb hlen hst fun _ => hcut, toolBody_of_cut hb hlen hst fun _ => hcut]
  · rw [toolBody_of_long hlt, if_neg hex, toolBody_of_cut hb hlt (tight_strip body) fun h => absurd h hex,
      toolBody_of_cut hb hlt (tight_strip body) fun h => absurd h hex]

theorem mem_of_mem_strip {c : Char} {t : Text} (h : c ∈ strip t) : c ∈ t :=
  (List.dropWhile_suffix isSpace).subset
    ((List.rdropWhile_prefix isSpace (lstrip t) : strip t <+: lstrip t).subset h)

theorem mem_of_mem_statusGroup {c : Char} {seg : Text} (h : c ∈ statusGroup seg) : c ∈ seg := by
  rw [statusGroup] at h
  split at h
  · exact List.mem_of_mem_drop h
  · exact (List.dropWhile_suffix isSpace).subset h

theorem matchToolHeader_spec {text name status body : Text}
    (h : matchToolHeader text = some (name, status, body)) :
    name ≠ [] ∧ (∀ c ∈ name, c ≠ ']') ∧ ∀ c ∈ strip status, c ≠ ':' := by
  rw [matchToolHeader] at h
  split at h
  · simp at h
  · dsimp only at h
    split at h
    · simp at h
    · split at h
      · simp at h
      · split at h
        · rename_i hok
          rw [Option.some.injEq, Prod.mk.injEq, Prod.mk.injEq] at h
          obtain ⟨rfl, rfl, rfl⟩ := h
          refine ⟨hok.2.1, fun c hc => by simpa using List.mem_takeWhile_imp hc, fun c hc => ?_⟩
          simpa using List.mem_takeWhile_imp (mem_of_mem_statusGroup (mem_of_mem_strip hc))
        · simp at h

theorem takeWhile_append_cons {p : Char → Bool} {l : Text} {c : Char} (hl : ∀ d ∈ l, p d = true)
    (hc : p c = false) (r : Text) : (l ++ c :: r).takeWhile p = l := by
  rw [List.takeWhile_append_of_pos hl, List.takeWhile_cons_of_neg (by simp [hc]), List.append_nil]

theorem dropWhile_append_cons {p : Char → Bool} {l : Text} {c : Char} (hl : ∀ d ∈ l, p d = true)
    (hc : p c = false) (r : Text) : (l ++ c :: r).dropWhile p = c :: r := by
  rw [List.dropWhile_append_of_pos hl, List.dropWhile_cons_of_neg (by simp [hc])]

theorem strip_statusGroup_space_cons {s : Text} (hs : Tight s) :
    strip (statusGroup (' ' :: s)) = s := by
  have hl : lstrip (' ' :: s) = s := by
    rw [lstrip, List.dropWhile_cons_of_pos (by decide), ← lstrip, lstrip_eq_self hs.head]
  rw [statusGroup, hl]
  split
  · rename_i hnil
    rw [hnil]
    decide
  · exact hs.strip_eq

/-- A rendered tool item parses back to its name, its stripped status and its body. -/
theorem matchToolHeader_renderTool {name status : Text} (body : Text) (hne : name ≠ [])
    (hname : ∀ c ∈ name, c ≠ ']') (hstatus : ∀ c ∈ strip status, c ≠ ':') :
    ∃ status' body', matchToolHeader (renderTool name status body) = some (name, status', body') ∧
      strip status' = strip status ∧ strip body' = strip body := by
  have hrender : lstrip (renderTool name status body) =
      '[' :: (name ++ ']' :: ((' ' :: strip status) ++ ':' :: (' ' :: body))) := by
    rw [renderTool]
    simp only [List.cons_append, List.append_assoc, List.nil_append]
    exact lstrip_cons_of_not_space (by decide) _
  have hname' : ∀ c ∈ name, decide (c ≠ ']') = true := fun c hc => by simpa using hname c hc
  have hseg : ∀ c ∈ ' ' :: strip status, decide (c ≠ ':') = true := fun c hc => by
    rcases List.mem_cons.1 hc with rfl | hc
    · decide
    · simpa using hstatus c hc
  refine ⟨statusGroup (' ' :: strip status), lstrip (' ' :: body), ?_,
    strip_statusGroup_space_cons (tight_strip status), ?_⟩
  · rw [matchToolHeader, hrender]
    dsimp only
    rw [takeWhile_append_cons hname' (by decide), dropWhile_append_cons hname' (by decide)]
    dsimp only
    rw [takeWhile_append_cons hseg (by decide), dropWhile_append_cons hseg (by decide)]
    dsimp only
    rw [if_pos ⟨rfl, hne, by simp⟩]
  · have hspace : isSpace ' ' = true := by decide
    rw [strip, lstrip_eq_self (head_lstrip _), ← strip_cons_space hspace body, strip]

/-- Clipping twice by the same method is clipping once. -/
theorem clipContent_clipContent (item : ContextItem) (clipped clipped' : Text) (method : String) :
    clipContent (clipContent item clipped method) clipped' method =
      clipContent item clipped' method := by
  have hkey : "compress_method".toList ≠ "truncated".toList := by decide
  have htrunc : ((item.data.set "truncated".toList (.bool true)).set "compress_method".toList
      (.str method.toList)).set "truncated".toList (.bool true) =
      (item.data.set "truncated".toList (.bool true)).set "compress_method".toList
        (.str method.toList) :=
    PyDict.set_eq_self (by rw [PyDict.get?_set_ne _ hkey, PyDict.get?_set_self])
  rw [clipContent, clipContent, clipContent]
  simp only [htrunc]
  rw [PyDict.set_eq_self (PyDict.get?_set_self ..)]

theorem toolBody_congr {budget : ℕ} {b b' : Text} (h : strip b = strip b') :
    toolBody host settings query budget b = toolBody host settings query budget b' := by
  rw [toolBody, toolBody, h]

/-- The items that reach the tool compressor. -/
def IsToolItem (item : ContextItem) : Prop :=
  ¬(item.resolveBucket = .retrievedMemory ∨ item.kind = .episodicMemory) ∧
    ¬(item.resolveBucket = .retrievedKnowledge ∨ item.kind = .knowledge) ∧
      (item.resolveBucket = .toolObservations ∨ item.kind = .toolOutput)

theorem truncate_structured {item : ContextItem} (ht : IsToolItem item)
    (hlt : maxTokens < item.estimatedTokens) {name status body : Text}
    (hm : matchToolHeader item.content = some (name, status, body)) :
    truncateItemContent host settings query maxTokens item =
      clipContent item
        (renderTool name status (toolBody host settings query (bodyBudget maxTokens) body))
        "tool_structured" := by
  obtain ⟨hmem, hknow, htool⟩ := ht
  rw [truncateItemContent, if_neg (by omega), if_neg hmem, if_neg hknow, if_pos htool,
    compressToolItem, hm]

/-- A truncated item is small enough, or it is a structured tool item. -/
theorem truncate_tokens_le_or (hmax : 32 ≤ maxTokens) (item : ContextItem) :
    (truncateItemContent host settings query maxTokens item).estimatedTokens ≤ maxTokens ∨
      IsToolItem item ∧ maxTokens < item.estimatedTokens ∧
        (matchToolHeader item.content).isSome := by
  by_cases hle : item.estimatedTokens ≤ maxTokens
  · rw [truncate_of_le hle]
    exact Or.inl hle
  rw [truncateItemContent, if_neg hle]
  split_ifs with hmem hknow htool
  · exact Or.inl (memory_tokens_le hmax item)
  · exact Or.inl (knowledge_tokens_le hmax item)
  · rw [compressToolItem]
    split
    · rename_i hm
      exact Or.inr ⟨⟨hmem, hknow, htool⟩, by omega, by rw [hm]; rfl⟩
    · exact Or.inl (estimate_le_of_length hmax (length_rstrip_take_le _ _))
  · exact Or.inl (estimate_le_of_length hmax (length_clipTo_le ..))
  · exact Or.inl (estimate_le_of_length hmax (length_clipTo_le ..))

/-- After two truncations to the same size a third one changes nothing. -/
theorem truncate_stable (hmax : 32 ≤ maxTokens) (item : ContextItem) :
    truncateItemContent host settings query maxTokens
        (truncateItemContent host settings query maxTokens
          (truncateItemContent host settings query maxTokens item)) =
      truncateItemContent host settings query maxTokens
        (truncateItemContent host settings query maxTokens item) := by
  rcases truncate_tokens_le_or hmax item with hle | ⟨ht, hlt, hsome⟩
  · rw [truncate_of_le hle, truncate_of_le hle]
  obtain ⟨⟨name, status, body⟩, hm⟩ := Option.isSome_iff_exists.1 hsome
  obtain ⟨hne, hname, hstatus⟩ := matchToolHeader_spec hm
  -- a rendered tool item is truncated by compressing its body again
  have hagain : ∀ (x : ContextItem) (b : Text), IsToolItem x →
      let y := clipContent x (renderTool name status b) "tool_structured"
      y.estimatedTokens ≤ maxTokens ∨
        truncateItemContent host settings query maxTokens y =
          clipContent x (renderTool name status
            (toolBody host settings query (bodyBudget maxTokens) b)) "tool_structured" := by
    intro x b hx
    dsimp only
    by_cases hle : (clipContent x (renderTool name status b) "tool_structured").estimatedTokens ≤
        maxTokens
    · exact Or.inl hle
    obtain ⟨status', body', hm', hs', hb'⟩ := matchToolHeader_renderTool b hne hname hstatus
    refine Or.inr ?_
    have hy : IsToolItem (clipContent x (renderTool name status b) "tool_structured") := hx
    rw [truncate_structured hy (lt_of_not_ge hle) hm', clipContent_clipContent, toolBody_congr hb', renderTool,
      renderTool, hs']
  have hb : 0 < bodyBudget maxTokens := by rw [bodyBudget]; omega
  rw [truncate_structured ht hlt hm]
  rcases hagain item _ ht with h1 | h1
  · rw [truncate_of_le h1, truncate_of_le h1]
  rw [h1]
  rcases hagain item _ ht with h2 | h2
  · rw [truncate_of_le h2]
  · rw [h2, toolBody_stable hb]

end

end AgentLangraph.Context
