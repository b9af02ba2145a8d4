import AgentLangraph.Lib.Json
import AgentLangraph.Lib.Kept
import AgentLangraph.Lib.Trace
import Mathlib.Algebra.Order.BigOperators.Group.List
import Mathlib.Algebra.Order.Ring.Int
import Mathlib.Algebra.Order.Ring.Nat

/-! The log of requests and responses (`llm_interaction_store.py`). After each record the oldest rows of the task
    are deleted while there are more rows, or more bytes, than the caps allow; what a row counts is the `LENGTH`
    of its texts, in characters.

        1 2 3 4 5 ──over──▶ 2 3 4 5 ──over──▶ 3 4 5        the newest rows that fit -/

namespace AgentLangraph.Llm
open PyText Trace Newest

/-! ### The source -/

/-- The settings of the log. -/
structure LogSettings where
  enabled : Bool
  maxChars : ℤ
  /-- `LLM_INTERACTION_LOG_MAX_PER_TASK` and `LLM_INTERACTION_LOG_MAX_BYTES_PER_TASK`; up to 0 there is no cap. -/
  maxRows : ℤ
  maxBytes : ℤ

/-- `_truncate_text`. -/
def truncateText (text : Text) (maxChars : ℤ) : Text × Bool :=
  if maxChars ≤ 0 ∨ text.length ≤ maxChars then (text, false)
  else (text.take maxChars.toNat ++ "\n…[truncated]".toList, true)

/-- How `json.dumps` spells a character with `ensure_ascii=False`. -/
def rawAtom (c : Char) : JsonText.Atom := if h : JsonText.IsPlain c then .plain c h else Json.atomOf c

def rawQuoted (t : Text) : Text := '"' :: (JsonText.text (t.map rawAtom) ++ ['"'])

/-- `build_llm_request_payload` and its `json.dumps`. -/
def requestJson (system user : Text) (truncated : Bool) : Text :=
  "\x7b\"messages\": [\x7b\"role\": \"system\", \"content\": ".toList ++ rawQuoted system ++
    "\x7d, \x7b\"role\": \"user\", \"content\": ".toList ++ rawQuoted user ++ "\x7d]".toList ++
    (if truncated then ", \"truncated\": true".toList else []) ++ "\x7d".toList

structure Entry where
  taskId : Text
  sessionId : Text
  purpose : Text
  requestJson : Text
  responseText : Text
  status : Text
  source : Text
  createdAt : Text
  deriving DecidableEq

/-- A row of `llm_interactions`. -/
structure Interaction extends Entry where
  id : ℕ
  deriving DecidableEq

/-- The table, by ascending `id` (`AUTOINCREMENT`: no id comes twice). -/
structure Interactions where
  rows : List Interaction
  lastId : ℕ
  ascending : rows.Pairwise fun a b => a.id < b.id
  bounded : ∀ row ∈ rows, row.id ≤ lastId

def Interactions.empty : Interactions := ⟨[], 0, .nil, nofun⟩

def Interactions.insert (t : Interactions) (entry : Entry) : Interactions where
  rows := t.rows ++ [⟨entry, t.lastId + 1⟩]
  lastId := t.lastId + 1
  ascending := by
    rw [List.pairwise_append]
    refine ⟨t.ascending, List.pairwise_singleton _ _, fun a ha b hb => ?_⟩
    rw [List.mem_singleton.1 hb]
    exact Nat.lt_succ_of_le (t.bounded a ha)
  bounded := by
    intro row hrow
    rcases List.mem_append.1 hrow with hrow | hrow
    · exact (t.bounded row hrow).trans (Nat.le_succ _)
    · rw [List.mem_singleton.1 hrow]

/-- A `DELETE` of rows. -/
def Interactions.delete (t : Interactions) (drops : Interaction → Bool) : Interactions where
  rows := t.rows.filter fun row => !drops row
  lastId := t.lastId
  ascending := t.ascending.sublist List.filter_sublist
  bounded := fun row hrow => t.bounded row (List.mem_filter.1 hrow).1

/-- The rows of a task, the oldest first. -/
def Interactions.ofTask (t : Interactions) (taskId : Text) : List Interaction :=
  t.rows.filter fun r => r.taskId = taskId

/-- `LENGTH` of a text in SQL: its characters, up to the first NUL. -/
def sqlLength (t : Text) : ℕ := (t.takeWhile (· ≠ '\x00')).length

/-- What `_list_row_byte_sizes` counts of a row. -/
def Interaction.byteSize (row : Interaction) : ℕ := sqlLength row.requestJson + sqlLength row.responseText

def Interactions.listRowByteSizes (t : Interactions) (taskId : Text) : List (ℕ × ℕ) :=
  (t.ofTask taskId).map fun row => (row.id, row.byteSize)

/-- The loop of `_enforce_retention` over the rows from `idx` on, with its running totals: the ids to delete. -/
def deleteIds (maxRows maxBytes : ℤ) : List (ℕ × ℕ) → ℤ → ℤ → List ℕ
  | [], _, _ => []
  | (rowId, rowBytes) :: rows, totalCount, totalBytes =>
    let overRows := 0 < maxRows ∧ maxRows < totalCount
    let overBytes := 0 < maxBytes ∧ maxBytes < totalBytes
    if ¬ overRows ∧ ¬ overBytes then []
    else rowId :: deleteIds maxRows maxBytes rows (totalCount - 1) (totalBytes - rowBytes)

/-- `_enforce_retention`. -/
def Interactions.enforceRetention (cfg : LogSettings) (t : Interactions) (taskId : Text) : Interactions :=
  if cfg.maxRows ≤ 0 ∧ cfg.maxBytes ≤ 0 then t
  else
    let rows := t.listRowByteSizes taskId
    let ids := deleteIds cfg.maxRows cfg.maxBytes rows rows.length (rows.map Prod.snd).sum
    t.delete fun row => row.taskId = taskId ∧ row.id ∈ ids

/-- The arguments of `record`, with the clock. -/
structure Recording where
  taskId : Text
  sessionId : Text
  purpose : Text
  systemPrompt : Text
  userContent : Text
  responseText : Text
  status : Text := "ok".toList
  source : Text := "llm_client".toList
  now : Text

def Recording.entry (cfg : LogSettings) (c : Recording) : Entry :=
  let system := truncateText c.systemPrompt cfg.maxChars
  let user := truncateText c.userContent cfg.maxChars
  let response := truncateText c.responseText cfg.maxChars
  { taskId := c.taskId
    sessionId := if c.sessionId = [] then c.taskId else c.sessionId
    purpose := c.purpose
    requestJson := requestJson system.1 user.1 (system.2 || user.2 || response.2)
    responseText := response.1
    status := c.status
    source := c.source
    createdAt := c.now }

/-- A row is written. -/
def Recording.logged (cfg : LogSettings) (c : Recording) : Bool := cfg.enabled && c.taskId ≠ []

/-- `record` up to its `INSERT`. -/
def Interactions.recorded (cfg : LogSettings) (t : Interactions) (c : Recording) : Interactions :=
  if c.logged cfg then t.insert (c.entry cfg) else t

def Interactions.record (cfg : LogSettings) (t : Interactions) (c : Recording) : Interactions :=
  if c.logged cfg then (t.insert (c.entry cfg)).enforceRetention cfg c.taskId else t

def Interactions.deleteForTask (t : Interactions) (taskId : Text) : Interactions :=
  t.delete fun row => row.taskId = taskId

/-! ### Histories -/

inductive Call
  | record (c : Recording)
  | deleteForTask (taskId : Text)

/-- The table, and the rows that were recorded since the last deletion of their task, also those that are gone. -/
structure Log where
  table : Interactions
  since : List Interaction

def Log.empty : Log := ⟨.empty, []⟩

def Log.step (cfg : LogSettings) (s : Log) : Call → Log
  | .record c =>
    { table := s.table.record cfg c
      since := if c.logged cfg then s.since ++ [⟨c.entry cfg, s.table.lastId + 1⟩] else s.since }
  | .deleteForTask taskId =>
    { table := s.table.deleteForTask taskId
      since := s.since.filter fun row => row.taskId ≠ taskId }

/-- The rows recorded for a task since its last deletion. -/
def Log.sinceOf (s : Log) (taskId : Text) : List Interaction := s.since.filter fun r => r.taskId = taskId

/-- The bytes of a text as it is stored. -/
def utf8Bytes (t : Text) : ℕ := (t.map Char.utf8Size).sum

def Interaction.storedBytes (row : Interaction) : ℕ := utf8Bytes row.requestJson + utf8Bytes row.responseText

/-- Rows within the caps, by what `size` says a row counts. -/
def Within (cfg : LogSettings) (size : Interaction → ℕ) (rows : List Interaction) : Prop :=
  (0 < cfg.maxRows → rows.length ≤ cfg.maxRows) ∧ (0 < cfg.maxBytes → (rows.map size).sum ≤ cfg.maxBytes)

instance (cfg : LogSettings) (size : Interaction → ℕ) (rows : List Interaction) : Decidable (Within cfg size rows) :=
  inferInstanceAs (Decidable (_ ∧ _))

/-- A record keeps the newest rows of its task that fit, and no row of another task goes. -/
structure Exact (cfg : LogSettings) (s : Log) (c : Recording) : Prop where
  newest : ∀ k, (s.step cfg (.record c)).table.ofTask k <:+ (s.step cfg (.record c)).sinceOf k
  within : ∀ k, Within cfg Interaction.storedBytes ((s.step cfg (.record c)).table.ofTask k)
  longest : ∀ rows, rows <:+ (s.table.recorded cfg c).ofTask c.taskId → Within cfg Interaction.storedBytes rows →
    rows <:+ (s.step cfg (.record c)).table.ofTask c.taskId
  others : ∀ k, k ≠ c.taskId → (s.step cfg (.record c)).table.ofTask k = s.table.ofTask k

/-- Retention is exact at a call. -/
def ExactAt (cfg : LogSettings) (s : Log) : Call → Prop
  | .record c => Exact cfg s c
  | .deleteForTask _ => True

/-- Newest rows of the task, with the one to be recorded, that fit by their `LENGTH` fit in bytes too. -/
def MeasuredAt (cfg : LogSettings) (s : Log) : Call → Prop
  | .record c => c.logged cfg → ∀ rows, rows <:+ (s.table.recorded cfg c).ofTask c.taskId →
    Within cfg Interaction.byteSize rows → Within cfg Interaction.storedBytes rows
  | .deleteForTask _ => True

/-! ### One pass -/

variable {cfg : LogSettings}

/-- The loop stops neither early nor late: the running totals are those of the rows from `idx` on. -/
theorem deleteIds_eq (maxRows maxBytes : ℤ) (rows : List (ℕ × ℕ)) : ∃ dropped, dropped ++ newest (fun l =>
      (0 < maxRows → l.length ≤ maxRows) ∧ (0 < maxBytes → ((l.map Prod.snd).sum : ℕ) ≤ maxBytes)) rows = rows ∧
    deleteIds maxRows maxBytes rows rows.length (rows.map Prod.snd).sum = dropped.map Prod.fst := by
  induction rows with
  | nil => exact ⟨[], rfl, rfl⟩
  | cons row rows ih =>
    obtain ⟨rowId, rowBytes⟩ := row
    obtain ⟨dropped, hrows, hids⟩ := ih
    rw [newest, deleteIds]
    have hcount : (((rowId, rowBytes) :: rows).length : ℤ) - 1 = rows.length := by simp
    have hbytes : ((((rowId, rowBytes) :: rows).map Prod.snd).sum : ℤ) - rowBytes = (rows.map Prod.snd).sum := by
      rw [List.map_cons, List.sum_cons, Nat.cast_add]
      omega
    rw [hcount, hbytes, hids]
    split_ifs with hfits hstop hstop
    · exact ⟨[], rfl, rfl⟩
    · refine absurd ⟨fun h => ?_, fun h => ?_⟩ hstop
      · exact absurd (of_decide_eq_true hfits).1 (by omega)
      · exact absurd (of_decide_eq_true hfits).2 (by omega)
    · refine absurd (decide_eq_true ⟨fun h => ?_, fun h => ?_⟩) hfits
      · by_contra hover
        exact hstop.1 ⟨h, not_le.1 hover⟩
      · by_contra hover
        exact hstop.2 ⟨h, not_le.1 hover⟩
    · exact ⟨(rowId, rowBytes) :: dropped, by rw [List.cons_append, hrows], rfl⟩

theorem ofTask_delete (t : Interactions) (drops : Interaction → Bool) (k : Text) :
    (t.delete drops).ofTask k = (t.ofTask k).filter fun row => !drops row := by
  rw [Interactions.ofTask, Interactions.ofTask, Interactions.delete, List.filter_filter, List.filter_filter]
  exact List.filter_congr fun row _ => Bool.and_comm _ _

theorem ofTask_delete_other {t : Interactions} {drops : Interaction → Bool} {k k' : Text} (hne : k' ≠ k)
    (hdrops : ∀ row, drops row → row.taskId = k) : (t.delete drops).ofTask k' = t.ofTask k' := by
  rw [ofTask_delete, List.filter_eq_self]
  intro row hrow
  have htask := of_decide_eq_true (List.mem_filter.1 hrow).2
  rw [Bool.not_eq_true', ← Bool.not_eq_true]
  exact fun hdrop => hne (htask.symm.trans (hdrops row hdrop))

/-- The rows at the front go by their ids, those behind them stay. -/
theorem filter_ids {dropped kept : List Interaction} (h : (dropped ++ kept).Pairwise fun a b => a.id < b.id) :
    (dropped ++ kept).filter (fun row => row.id ∉ dropped.map Interaction.id) = kept := by
  rw [List.pairwise_append] at h
  have hfront : dropped.filter (fun row => row.id ∉ dropped.map Interaction.id) = [] := by
    rw [List.filter_eq_nil_iff]
    exact fun row hrow hnot => of_decide_eq_true hnot (List.mem_map_of_mem hrow)
  have hback : kept.filter (fun row => row.id ∉ dropped.map Interaction.id) = kept := by
    rw [List.filter_eq_self]
    intro row hrow
    refine decide_eq_true fun hmem => ?_
    obtain ⟨old, hold, hid⟩ := List.mem_map.1 hmem
    exact absurd (h.2.2 old hold row hrow) (by omega)
  rw [List.filter_append, hfront, hback, List.nil_append]

theorem within_nil (cfg : LogSettings) (size : Interaction → ℕ) : Within cfg size [] :=
  ⟨fun h => le_of_lt h, fun h => by simpa using le_of_lt h⟩

/-- A pass leaves the longest end of the task's rows that fits by `LENGTH`. -/
theorem ofTask_enforceRetention (t : Interactions) (k : Text) :
    (t.enforceRetention cfg k).ofTask k = newest (fun rows => Within cfg Interaction.byteSize rows) (t.ofTask k) := by
  rw [Interactions.enforceRetention]
  split_ifs with hcaps
  · -- no cap: everything fits
    have hfits (rows : List Interaction) : Within cfg Interaction.byteSize rows :=
      ⟨fun h => absurd h (not_lt.2 hcaps.1), fun h => absurd h (not_lt.2 hcaps.2)⟩
    exact (List.IsSuffix.eq_of_length_le (newest_suffix _)
      (suffix_newest (decide_eq_true (hfits _)) List.suffix_rfl).length_le).symm
  · obtain ⟨dropped, hsizes, hids⟩ := deleteIds_eq cfg.maxRows cfg.maxBytes (t.listRowByteSizes k)
    dsimp only
    rw [hids]
    rw [Interactions.listRowByteSizes, newest_map] at hsizes
    simp only [List.length_map, List.map_map] at hsizes
    have hfits : (fun rows : List Interaction => decide ((0 < cfg.maxRows → (rows.length : ℤ) ≤ cfg.maxRows) ∧
        (0 < cfg.maxBytes →
          (((rows.map (Prod.snd ∘ fun row => (row.id, row.byteSize))).sum : ℕ) : ℤ) ≤ cfg.maxBytes))) =
        fun rows => decide (Within cfg Interaction.byteSize rows) := rfl
    rw [hfits] at hsizes
    -- the rows in front of those that stay
    obtain ⟨front, hfront⟩ := @newest_suffix _ (fun rows => Within cfg Interaction.byteSize rows) (t.ofTask k)
    have hdropped : dropped = front.map fun row => (row.id, row.byteSize) := by
      refine List.append_cancel_right (hsizes.trans ?_)
      rw [← List.map_append, hfront]
    have hascending : (t.ofTask k).Pairwise fun a b => a.id < b.id := t.ascending.sublist List.filter_sublist
    rw [← hfront] at hascending
    rw [ofTask_delete]
    conv_rhs => rw [← filter_ids hascending]
    rw [hfront]
    refine List.filter_congr fun row hrow => ?_
    have htask := of_decide_eq_true (List.mem_filter.1 hrow).2
    have hid : (Prod.fst ∘ fun row : Interaction => (row.id, row.byteSize)) = Interaction.id := rfl
    rw [hdropped, List.map_map, hid]
    simp only [htask, true_and, decide_not]

theorem ofTask_enforceRetention_other {t : Interactions} {k k' : Text} (hne : k' ≠ k) :
    (t.enforceRetention cfg k).ofTask k' = t.ofTask k' := by
  rw [Interactions.enforceRetention]
  split_ifs
  · rfl
  · exact ofTask_delete_other hne fun row hrow => (of_decide_eq_true hrow).1

/-! ### Along a history -/

theorem ofTask_insert (t : Interactions) (entry : Entry) (k : Text) : (t.insert entry).ofTask k =
    t.ofTask k ++ [(⟨entry, t.lastId + 1⟩ : Interaction)].filter fun row => row.taskId = k :=
  List.filter_append ..

theorem sqlLength_le (t : Text) : sqlLength t ≤ utf8Bytes t := by
  induction t with
  | nil => exact Nat.zero_le _
  | cons c t ih =>
    have hpos := Char.utf8Size_pos c
    rw [utf8Bytes] at ih ⊢
    rw [List.map_cons, List.sum_cons, sqlLength, List.takeWhile_cons]
    rw [sqlLength] at ih
    split_ifs
    · rw [List.length_cons]
      omega
    · exact Nat.zero_le _

theorem byteSize_le (row : Interaction) : row.byteSize ≤ row.storedBytes :=
  Nat.add_le_add (sqlLength_le _) (sqlLength_le _)

theorem Within.byteSize {rows : List Interaction} (h : Within cfg Interaction.storedBytes rows) :
    Within cfg Interaction.byteSize rows := by
  refine ⟨h.1, fun hcap => le_trans ?_ (h.2 hcap)⟩
  exact_mod_cast List.sum_le_sum fun row _ => byteSize_le row

/-- What is kept are newest rows, within the caps. -/
structure Log.Kept (cfg : LogSettings) (s : Log) : Prop where
  newest : ∀ k, s.table.ofTask k <:+ s.sinceOf k
  within : ∀ k, Within cfg Interaction.storedBytes (s.table.ofTask k)

theorem kept_empty (cfg : LogSettings) : Log.empty.Kept cfg :=
  ⟨fun _ => List.suffix_rfl, fun _ => within_nil cfg _⟩

theorem record_of_not_logged {c : Recording} (h : ¬ c.logged cfg) (t : Interactions) : t.record cfg c = t := if_neg h

/-- The rows of the task after a record. -/
theorem ofTask_record {c : Recording} (h : c.logged cfg) (t : Interactions) :
    (t.record cfg c).ofTask c.taskId = newest (fun rows => Within cfg Interaction.byteSize rows)
      ((t.recorded cfg c).ofTask c.taskId) := by
  rw [Interactions.record, if_pos h, ofTask_enforceRetention, Interactions.recorded, if_pos h]

theorem ofTask_record_other {c : Recording} {k : Text} (hne : k ≠ c.taskId) (t : Interactions) :
    (t.record cfg c).ofTask k = t.ofTask k := by
  rw [Interactions.record]
  split_ifs
  · rw [ofTask_enforceRetention_other hne, ofTask_insert, List.filter_cons_of_neg, List.filter_nil, List.append_nil]
    exact fun htask => hne (of_decide_eq_true htask).symm
  · rfl

/-- STEP: a record keeps newest rows; all else hangs on the bytes of those that it keeps. -/
theorem newest_record {s : Log} (h : s.Kept cfg) (c : Recording) (k : Text) :
    (s.step cfg (.record c)).table.ofTask k <:+ (s.step cfg (.record c)).sinceOf k := by
  rw [Log.step, Log.sinceOf]
  by_cases hlogged : c.logged cfg
  · simp only [if_pos hlogged]
    rw [List.filter_append]
    by_cases hk : k = c.taskId
    · rw [hk, ofTask_record hlogged, Interactions.recorded, if_pos hlogged, ofTask_insert]
      refine (newest_suffix _).trans ?_
      obtain ⟨before, hbefore⟩ := h.newest c.taskId
      exact ⟨before, by rw [← List.append_assoc, hbefore]; rfl⟩
    · rw [ofTask_record_other hk, List.filter_cons_of_neg (fun htask => hk (of_decide_eq_true htask).symm),
        List.filter_nil, List.append_nil]
      exact h.newest k
  · simp only [if_neg hlogged]
    rw [record_of_not_logged hlogged]
    exact h.newest k

theorem exact_iff {s : Log} (h : s.Kept cfg) (c : Recording) : Exact cfg s c ↔ MeasuredAt cfg s (.record c) := by
  constructor
  · intro hexact hlogged rows hrows hfits
    -- the rows that are kept have these among them
    have hkept := hexact.within c.taskId
    have hpart : rows <:+ (s.table.record cfg c).ofTask c.taskId := by
      rw [ofTask_record hlogged]
      exact suffix_newest (decide_eq_true hfits) hrows
    refine ⟨hfits.1, fun hcap => le_trans ?_ (hkept.2 hcap)⟩
    exact_mod_cast (hpart.sublist.map _).sum_le_sum fun _ _ => Nat.zero_le _
  · intro hmeasured
    have hothers (k : Text) (hne : k ≠ c.taskId) : (s.step cfg (.record c)).table.ofTask k = s.table.ofTask k :=
      ofTask_record_other hne s.table
    refine ⟨newest_record h c, fun k => ?_, fun rows hrows hfits => ?_, hothers⟩
    · by_cases hlogged : c.logged cfg
      · by_cases hk : k = c.taskId
        · subst hk
          rw [Log.step, ofTask_record hlogged]
          have hfits := @fits_newest _ (fun rows => Within cfg Interaction.byteSize rows)
            (decide_eq_true (within_nil cfg _)) ((s.table.recorded cfg c).ofTask c.taskId)
          exact hmeasured hlogged _ (newest_suffix _) (of_decide_eq_true hfits)
        · rw [hothers k hk]
          exact h.within k
      · rw [Log.step, record_of_not_logged hlogged]
        exact h.within k
    · by_cases hlogged : c.logged cfg
      · rw [Log.step, ofTask_record hlogged]
        exact suffix_newest (decide_eq_true hfits.byteSize) hrows
      · rw [Log.step, record_of_not_logged hlogged]
        rw [Interactions.recorded, if_neg hlogged] at hrows
        exact hrows

theorem kept_step {s : Log} (h : s.Kept cfg) (call : Call) (hmeasured : MeasuredAt cfg s call) :
    (s.step cfg call).Kept cfg := by
  cases call with
  | record c =>
    have hexact := (exact_iff h c).2 hmeasured
    exact ⟨hexact.newest, hexact.within⟩
  | deleteForTask taskId =>
    have hrows (k : Text) : (s.table.deleteForTask taskId).ofTask k = if k = taskId then [] else s.table.ofTask k := by
      split_ifs with hk
      · rw [Interactions.deleteForTask, ofTask_delete, List.filter_eq_nil_iff]
        intro row hrow
        have htask := of_decide_eq_true (List.mem_filter.1 hrow).2
        simp [htask, hk]
      · exact ofTask_delete_other hk fun row hrow => of_decide_eq_true hrow
    refine ⟨fun k => ?_, fun k => ?_⟩
    · rw [Log.step, hrows, Log.sinceOf, List.filter_filter]
      split_ifs with hk
      · exact List.nil_suffix
      · have hsame : s.since.filter (fun row => decide (row.taskId = k) && decide (row.taskId ≠ taskId)) =
            s.sinceOf k := by
          refine List.filter_congr fun row _ => ?_
          by_cases htask : row.taskId = k
          · simp [htask, hk]
          · simp [htask]
        rw [hsame]
        exact h.newest k
    · rw [Log.step, hrows]
      split_ifs
      · exact within_nil cfg _
      · exact h.within k

/-- Along a history of calls retention is exact exactly where, at each record, newest rows of the task that fit
    by the `LENGTH` of their texts fit in bytes as well. -/
theorem retention_exact_iff (cfg : LogSettings) (history : List Call) :
    Along (Log.step cfg) (ExactAt cfg) .empty history ↔ Along (Log.step cfg) (MeasuredAt cfg) .empty history := by
  refine along_iff (I := Log.Kept cfg) (fun s call h => ?_) (fun s call h hmeasured => kept_step h call hmeasured)
    history .empty (kept_empty cfg)
  cases call with
  | record c => exact exact_iff h c
  | deleteForTask taskId => exact Iff.rfl

/-- A cap of 100 bytes. -/
def hundredBytes : LogSettings := ⟨true, 200000, 0, 100⟩

/-- A response of ten characters of three bytes; the request takes 82. -/
def wideResponse : Recording where
  taskId := "t".toList
  sessionId := []
  purpose := "p".toList
  systemPrompt := []
  userContent := []
  responseText := List.replicate 10 '你'
  now := []

/-- 112 bytes are kept under a cap of 100. -/
theorem wide_over_cap : ¬ ∀ (cfg : LogSettings) (history : List Call),
    Along (Log.step cfg) (ExactAt cfg) .empty history := by
  intro h
  have hwithin := (h hundredBytes [.record wideResponse]).1.within "t".toList
  exact absurd hwithin (by decide +kernel)

end AgentLangraph.Llm
