import AgentLangraph.Guard.Segments
import AgentLangraph.Lib.RegexSearch

/-! The rule scan of the output guard (`output_guard.py`): five patterns searched for in the prose of an
    answer. None of them ends in a blank, and none is lost when the text ends right behind it. -/

namespace AgentLangraph.Guard
open PyText Regex

/-- The Unicode tables behind `\d` and `\w`. -/
structure CharTables where
  digit : Char → Bool
  word : Char → Bool
  digit_ascii : ∀ c, '0' ≤ c → c ≤ '9' → digit c = true
  word_of_digit : ∀ c, digit c = true → word c = true
  digit_not_space : ∀ c, digit c = true → isSpace c = false

/-! ### `PII_PATTERNS` -/

def between (lo hi c : Char) : Bool := lo ≤ c && c ≤ hi

def isLetter (c : Char) : Bool := between 'a' 'z' c || between 'A' 'Z' c

def isAlnum (c : Char) : Bool := isLetter c || between '0' '9' c

def isDash (c : Char) : Bool := c == '-' || isSpace c

/-- A fixed text. -/
def lit (c : Char) : Re := .cls (· == c)

section
variable (u : CharTables)

def digits (n : ℕ) : Re := .rep u.digit n (some n)

/-- `\b`. -/
def wordBorder (prev next : Option Char) : Bool := isWordAt u.word prev != isWordAt u.word next

/-- `(?<!\d)`. -/
def noDigitBefore (prev _next : Option Char) : Bool := !prev.any u.digit

/-- `(?!\d)`. -/
def noDigitBehind (_prev next : Option Char) : Bool := !next.any u.digit

def emailPattern : Pattern where
  opens _ _ := true
  body := .seq (.rep (fun c => isAlnum c || c ∈ "._%+-".toList) 1 none)
    (.seq (lit '@') (.seq (.rep (fun c => isAlnum c || c ∈ ".-".toList) 1 none)
      (.seq (lit '.') (.rep isLetter 2 none))))
  closes _ _ := true
  plain := by decide

def phonePattern : Pattern where
  opens := noDigitBefore u
  body := .seq (.opt (.seq (.opt (lit '+')) (.seq (lit '8') (.seq (lit '6') (.opt (.cls isDash))))))
    (.seq (lit '1') (.seq (.cls (between '3' '9')) (digits u 9)))
  closes := noDigitBehind u
  plain := ⟨⟨trivial, trivial, trivial, trivial⟩, trivial, trivial, trivial⟩

def idPattern : Pattern where
  opens := noDigitBefore u
  body := .seq (digits u 17) (.cls fun c => u.digit c || c == 'X' || c == 'x')
  closes := noDigitBehind u
  plain := ⟨trivial, trivial⟩

/-- `\d{4}[-\s]?`. -/
def cardGroup : Re := .seq (digits u 4) (.opt (.cls isDash))

def cardPattern : Pattern where
  opens := wordBorder u
  body := .seq (cardGroup u) (.seq (cardGroup u) (.seq (cardGroup u) (digits u 4)))
  closes := wordBorder u
  plain := ⟨⟨trivial, trivial⟩, ⟨trivial, trivial⟩, ⟨trivial, trivial⟩, trivial⟩

/-- `25[0-5]|2[0-4]\d|[01]?\d\d?`. -/
def octet : Re :=
  .alt (.seq (lit '2') (.seq (lit '5') (.cls (between '0' '5'))))
    (.alt (.seq (lit '2') (.seq (.cls (between '0' '4')) (.cls u.digit)))
      (.seq (.opt (.cls (between '0' '1'))) (.seq (.cls u.digit) (.opt (.cls u.digit)))))

def octetDot : Re := .seq (octet u) (lit '.')

theorem octet_plain : (octet u).Plain :=
  ⟨⟨trivial, trivial, trivial⟩, ⟨trivial, trivial, trivial⟩, trivial, trivial, trivial⟩

def ipv4Pattern : Pattern where
  opens := wordBorder u
  body := .seq (octetDot u) (.seq (octetDot u) (.seq (octetDot u) (octet u)))
  closes := wordBorder u
  plain := ⟨⟨octet_plain u, trivial⟩, ⟨octet_plain u, trivial⟩, ⟨octet_plain u, trivial⟩,
    octet_plain u⟩

/-- `PII_PATTERNS`. -/
def piiPatterns : List (Text × Pattern) :=
  [("email".toList, emailPattern), ("phone_cn".toList, phonePattern u),
    ("id_cn".toList, idPattern u), ("credit_card".toList, cardPattern u),
    ("ipv4".toList, ipv4Pattern u)]

/-! ### `scan_pii` and `evaluate_output` -/

def scanTarget (proseOnly : Bool) (t : Text) : Text :=
  if proseOnly then
    let segments := splitContentSegments t
    if segments = [] then t else proseText segments
  else t

theorem scanTarget_of_blank (proseOnly : Bool) {t : Text} (h : strip t = []) :
    scanTarget proseOnly t = t := by
  rw [scanTarget, splitContentSegments_eq_nil_iff.2 h]
  exact ite_id t

theorem scanTarget_of_prose {t : Text} (h : strip t ≠ []) :
    scanTarget true t = proseText (splitContentSegments t) :=
  if_neg fun hnil => h (splitContentSegments_eq_nil_iff.1 hnil)

def scanPii (proseOnly : Bool) (t : Text) : List Text :=
  (piiPatterns u).filterMap fun p =>
    (p.2.search (scanTarget proseOnly t)).map fun _ => "pii:".toList ++ p.1

end

structure GuardResult where
  passed : Bool
  issues : List Text
  sanitizedSummary : Text := []
  source : Text := "rules".toList
  deriving DecidableEq

/-- The settings, and the reviewing model. -/
structure OutputGuard where
  tables : CharTables
  /-- `OUTPUT_GUARD_PII_PROSE_ONLY` -/
  proseOnly : Bool := true
  /-- `OUTPUT_GUARD_LLM_REVIEW` -/
  llmReview : Bool := false
  /-- `MODEL_ENABLED` -/
  modelEnabled : Bool := false
  review : Text → GuardResult

/-- The issues the rules find. -/
def OutputGuard.ruleScan (g : OutputGuard) (t : Text) : List Text :=
  if strip t = [] then [] else scanPii g.tables g.proseOnly t

/-- `evaluate_output`. -/
def OutputGuard.evaluateOutput (g : OutputGuard) (t : Text) (llmReview : Option Bool) :
    GuardResult :=
  if strip t = [] then { passed := true, issues := [], source := "empty".toList }
  else if g.ruleScan t ≠ [] then
    { passed := false, issues := g.ruleScan t, source := "pii_rules".toList }
  else if llmReview.getD g.llmReview && g.modelEnabled then g.review t
  else { passed := true, issues := [] }

/-- What the rules find decides, whoever else would review the answer. -/
theorem OutputGuard.evaluateOutput_of_ruleScan {g : OutputGuard} {t : Text} (h : g.ruleScan t ≠ [])
    (llmReview : Option Bool) : g.evaluateOutput t llmReview =
      { passed := false, issues := g.ruleScan t, source := "pii_rules".toList } := by
  have hblank : strip t ≠ [] := fun hblank => h (if_pos hblank)
  rw [evaluateOutput, if_neg hblank, if_pos h]

/-! ### Where an occurrence ends -/

/-- Every text of the language ends in a character of the class. -/
def EndsIn (p : Char → Prop) (r : Re) : Prop := ∀ m, Lang r m → ∃ c, m.getLast? = some c ∧ p c

section
variable {p : Char → Prop} {r s : Re}

theorem endsIn_cls {q : Char → Bool} (h : ∀ c, q c → p c) : EndsIn p (.cls q) := by
  rintro m ⟨c, rfl, hc⟩
  exact ⟨c, rfl, h c hc⟩

theorem endsIn_rep {q : Char → Bool} (h : ∀ c, q c → p c) {lo : ℕ} (hlo : 0 < lo)
    (hi : Option ℕ) : EndsIn p (.rep q lo hi) := by
  rintro m ⟨hm, hlen, -⟩
  have hne : m ≠ [] := List.ne_nil_of_length_pos (by omega)
  exact ⟨m.getLast hne, List.getLast?_eq_some_getLast hne, h _ (hm _ (List.getLast_mem hne))⟩

theorem endsIn_seq (h : EndsIn p s) : EndsIn p (.seq r s) := by
  rintro m ⟨m₁, m₂, rfl, -, hm₂⟩
  obtain ⟨c, hc, hp⟩ := h m₂ hm₂
  exact ⟨c, by rw [List.getLast?_append, hc, Option.some_or], hp⟩

theorem endsIn_seq_opt (hr : EndsIn p r) (hs : EndsIn p s) : EndsIn p (.seq r (.opt s)) := by
  rintro m ⟨m₁, m₂, rfl, hm₁, hm₂ | rfl⟩
  · obtain ⟨c, hc, hp⟩ := hs m₂ hm₂
    exact ⟨c, by rw [List.getLast?_append, hc, Option.some_or], hp⟩
  · rw [List.append_nil]
    exact hr m₁ hm₁

theorem endsIn_alt (hr : EndsIn p r) (hs : EndsIn p s) : EndsIn p (.alt r s) :=
  fun m hm => hm.elim (hr m) (hs m)

end

/-- An occurrence ends in no blank, and is one as well where the text ends behind it. -/
structure Cuttable (pat : Pattern) : Prop where
  endsIn : EndsIn (fun c => isSpace c = false) pat.body
  closes : ∀ m c, Lang pat.body m → m.getLast? = some c → pat.closes (some c) none

section
variable (u : CharTables)

theorem not_space_of_ascii {c : Char} (hge : '!' ≤ c) (hle : c ≤ '~') : isSpace c = false := by
  have hlo : 0x21 ≤ c.val.toNat := hge
  have hhi : c.val.toNat ≤ 0x7e := hle
  rw [isSpace, Bool.or_eq_false_iff]
  constructor
  · simp only [decide_eq_false_iff_not, List.mem_cons, List.not_mem_nil, or_false,
      ← UInt32.toNat_inj]
    simp only [UInt32.reduceToNat]
    omega
  · rw [Bool.and_eq_false_iff]
    left
    simp only [decide_eq_false_iff_not, UInt32.le_iff_toNat_le, UInt32.reduceToNat]
    omega

theorem not_space_of_between {lo hi : Char} (hlo : '!' ≤ lo) (hhi : hi ≤ '~') {c : Char}
    (h : between lo hi c) : isSpace c = false := by
  simp only [between, Bool.and_eq_true, decide_eq_true_eq] at h
  exact not_space_of_ascii (Char.le_trans hlo h.1) (Char.le_trans h.2 hhi)

theorem EndsIn.mono {p q : Char → Prop} {r : Re} (h : EndsIn p r) (hpq : ∀ c, p c → q c) :
    EndsIn q r := fun m hm => (h m hm).imp fun _ hc => ⟨hc.1, hpq _ hc.2⟩

/-- A pattern that ends in a digit, and in a word. -/
theorem cuttable_of_digit {pat : Pattern} (h : EndsIn (fun c => u.digit c = true) pat.body)
    (hcloses : ∀ c, u.digit c → pat.closes (some c) none) : Cuttable pat where
  endsIn := h.mono u.digit_not_space
  closes m c hm hc := by
    obtain ⟨d, hd, hdigit⟩ := h m hm
    rw [hc, Option.some_inj] at hd
    exact hcloses c (hd ▸ hdigit)

theorem digit_of_between {lo hi : Char} (hlo : '0' ≤ lo) (hhi : hi ≤ '9') (c : Char)
    (h : between lo hi c) : u.digit c = true := by
  simp only [between, Bool.and_eq_true, decide_eq_true_eq] at h
  exact u.digit_ascii c (Char.le_trans hlo h.1) (Char.le_trans h.2 hhi)

theorem endsIn_digits {n : ℕ} (h : 0 < n) : EndsIn (fun c => u.digit c = true) (digits u n) :=
  endsIn_rep (fun _ hc => hc) h _

theorem endsIn_octet : EndsIn (fun c => u.digit c = true) (octet u) := by
  have hdigit : EndsIn (fun c => u.digit c = true) (.cls u.digit) := endsIn_cls fun _ hc => hc
  refine endsIn_alt ?_ (endsIn_alt ?_ ?_)
  · exact endsIn_seq (endsIn_seq (endsIn_cls (digit_of_between u (by decide) (by decide))))
  · exact endsIn_seq (endsIn_seq hdigit)
  · exact endsIn_seq (endsIn_seq_opt hdigit hdigit)

theorem wordBorder_end {c : Char} (h : u.digit c) : wordBorder u (some c) none := by
  rw [wordBorder, isWordAt, isWordAt, u.word_of_digit c h]
  rfl

theorem cuttable_email : Cuttable emailPattern where
  endsIn := endsIn_seq (endsIn_seq (endsIn_seq (endsIn_seq (endsIn_rep (fun c hc => by
    rcases Bool.or_eq_true_iff.1 hc with hc | hc
    · exact not_space_of_between (by decide) (by decide) hc
    · exact not_space_of_between (by decide) (by decide) hc) (by decide) none))))
  closes _ _ _ _ := rfl

theorem cuttable_phone : Cuttable (phonePattern u) :=
  cuttable_of_digit u (endsIn_seq (endsIn_seq (endsIn_seq (endsIn_digits u (by decide)))))
    fun _ _ => rfl

theorem cuttable_id : Cuttable (idPattern u) where
  endsIn := endsIn_seq (endsIn_cls fun c hc => by
    rcases Bool.or_eq_true_iff.1 hc with hc | hc
    · rcases Bool.or_eq_true_iff.1 hc with hc | hc
      · exact u.digit_not_space c hc
      · rw [beq_iff_eq.1 hc]
        rfl
    · rw [beq_iff_eq.1 hc]
      rfl)
  closes _ _ _ _ := rfl

theorem cuttable_card : Cuttable (cardPattern u) :=
  cuttable_of_digit u (endsIn_seq (endsIn_seq (endsIn_seq (endsIn_digits u (by decide)))))
    fun _ hc => wordBorder_end u hc

theorem cuttable_ipv4 : Cuttable (ipv4Pattern u) :=
  cuttable_of_digit u (endsIn_seq (endsIn_seq (endsIn_seq (endsIn_octet u))))
    fun _ hc => wordBorder_end u hc

/-- Every pattern is cuttable. -/
theorem cuttable_of_mem {p : Text × Pattern} (h : p ∈ piiPatterns u) : Cuttable p.2 := by
  simp only [piiPatterns, List.mem_cons, List.not_mem_nil, or_false] at h
  rcases h with rfl | rfl | rfl | rfl | rfl
  · exact cuttable_email
  · exact cuttable_phone u
  · exact cuttable_id u
  · exact cuttable_card u
  · exact cuttable_ipv4 u

end

end AgentLangraph.Guard
