import AgentLangraph.Artifact.Verify
import AgentLangraph.Lib.Template

/-! What is done to the code of an answer before it is compiled (`code_artifact_pipeline.py`): where the chunks of a
    stream were joined without their blanks, blanks are put back by patterns, and what these patterns break in correct
    C++ is put together again by literal spellings:

        text ──directives──▶ ──keywords──▶ ──static _cast, …, std ::, "-> "──▶ fixed

    None of the passes knows of literals, comments or identifiers. What holds all the same: nothing but white space
    changes, what has none of the spellings stays, and each part of a text is fixed on its own. -/

namespace AgentLangraph.Artifact.Fixups
open PyText Regex

/-! ### The patterns -/

/-- `[a-zA-Z_]`. -/
def isLetter (c : Char) : Bool := c.isAlpha || c = '_'

/-- `[A-Z_]`. -/
def isNameStart (c : Char) : Bool := c.isUpper || c = '_'

/-- `[a-zA-Z0-9_]`. -/
def isNamePart (c : Char) : Bool := c.isAlphanum || c = '_'

def cppDirectives : List Text :=
  ["ifndef", "ifdef", "define", "include", "pragma", "if", "elif", "undef", "endif"].map String.toList

def kwList : List Text :=
  ["class", "struct", "enum", "namespace", "return", "typedef", "using", "template", "typename",
    "virtual", "static", "const", "extern", "inline", "volatile", "unsigned", "signed",
    "void", "int", "char", "float", "double", "bool", "long", "short", "auto", "register",
    "if", "else", "while", "for", "switch", "case", "default", "break", "continue",
    "throw", "catch", "try", "new", "delete", "public", "private", "protected",
    "import", "from", "def", "async", "await", "function", "var", "let", "export"].map String.toList

/-- A match of `#(…)\s*(\S)`. -/
structure Directive where
  word : Text
  gap : Text
  next : Char
  deriving DecidableEq

def Directive.text (d : Directive) : Text := '#' :: d.word ++ d.gap ++ [d.next]

/-- The rest of the pattern behind the `#`, with one of its words. `\s*` takes all the white space: what it gave back
    would be no `\S`. -/
def directiveWith (t word : Text) : Option Directive :=
  if word <+: t then
    match (t.drop word.length).dropWhile isSpace with
    | [] => none
    | c :: _ => some ⟨word, (t.drop word.length).takeWhile isSpace, c⟩
  else none

/-- The first of the words with which the pattern matches. -/
def directiveAt : Text → Option Directive
  | '#' :: t => cppDirectives.findSome? (directiveWith t)
  | _ => none

/-- A match of `(…)([A-Z_][a-zA-Z0-9_]*)`. -/
structure Glued where
  keyword : Text
  name : Text
  deriving DecidableEq

def Glued.text (g : Glued) : Text := g.keyword ++ g.name

def gluedWith (t keyword : Text) : Option Glued :=
  if keyword <+: t then
    match t.drop keyword.length with
    | [] => none
    | c :: cs => if isNameStart c then some ⟨keyword, c :: cs.takeWhile isNamePart⟩ else none
  else none

/-- The lookbehind `(?<![a-zA-Z_])`, and the first of the keywords with which the pattern matches. -/
def gluedAt (prev : Option Char) (t : Text) : Option Glued :=
  if prev.any isLetter then none else kwList.findSome? (gluedWith t)

/-! ### What the patterns match -/

theorem directiveWith_eq_some_iff {t word : Text} {d : Directive} : directiveWith t word = some d ↔
    d.word = word ∧ (∀ c ∈ d.gap, isSpace c = true) ∧ isSpace d.next = false ∧ word ++ d.gap ++ [d.next] <+: t := by
  rw [directiveWith]
  constructor
  · intro h
    split_ifs at h with hpre
    obtain ⟨r, rfl⟩ := hpre
    rw [List.drop_left] at h
    cases hdrop : r.dropWhile isSpace with
    | nil => rw [hdrop] at h; cases h
    | cons c cs =>
      rw [hdrop] at h
      obtain rfl := Option.some.inj h
      refine ⟨rfl, fun c hc => List.mem_takeWhile_imp hc, ?_, ?_⟩
      · have hhead := List.head_dropWhile_not isSpace (w := by rw [hdrop]; simp)
        simpa only [hdrop, List.head_cons] using hhead
      · refine ⟨cs, ?_⟩
        have hr := List.takeWhile_append_dropWhile (p := isSpace) (l := r)
        rw [hdrop] at hr
        simp only [List.append_assoc, List.singleton_append, hr]
  · rintro ⟨rfl, hgap, hnext, r, rfl⟩
    have hpre : d.word <+: d.word ++ d.gap ++ [d.next] ++ r := ⟨d.gap ++ [d.next] ++ r, by simp⟩
    rw [if_pos hpre, List.append_assoc, List.append_assoc, List.drop_left, List.dropWhile_append_of_pos hgap,
      List.singleton_append, List.takeWhile_append_of_pos hgap, List.dropWhile_cons_of_neg (by simp [hnext]),
      List.takeWhile_cons_of_neg (by simp [hnext]), List.append_nil]

theorem Directive.text_eq (d : Directive) : d.text = '#' :: (d.word ++ d.gap ++ [d.next]) := rfl

theorem directiveAt_eq_some {t : Text} {d : Directive} (h : directiveAt t = some d) :
    d.word ∈ cppDirectives ∧ (∀ c ∈ d.gap, isSpace c = true) ∧ isSpace d.next = false ∧ d.text <+: t := by
  unfold directiveAt at h
  split at h
  · obtain ⟨w, hw, hwith⟩ := List.exists_of_findSome?_eq_some h
    obtain ⟨rfl, hgap, hnext, hpre⟩ := directiveWith_eq_some_iff.1 hwith
    exact ⟨hw, hgap, hnext, List.prefix_cons_inj '#' |>.2 hpre⟩
  · cases h

theorem gluedWith_eq_some_iff {t keyword : Text} {g : Glued} : gluedWith t keyword = some g ↔
    g.keyword = keyword ∧ ∃ c cs, isNameStart c = true ∧ t = keyword ++ c :: cs ∧
      g.name = c :: cs.takeWhile isNamePart := by
  rw [gluedWith]
  constructor
  · intro h
    split_ifs at h with hpre
    obtain ⟨r, rfl⟩ := hpre
    rw [List.drop_left] at h
    cases r with
    | nil => cases h
    | cons c cs =>
      dsimp only at h
      split_ifs at h with hc
      obtain rfl := Option.some.inj h
      exact ⟨rfl, c, cs, hc, rfl, rfl⟩
  · rintro ⟨rfl, c, cs, hc, rfl, hname⟩
    rw [if_pos (List.prefix_append ..), List.drop_left]
    dsimp only
    rw [if_pos hc, ← hname]

theorem gluedAt_eq_some {prev : Option Char} {t : Text} {g : Glued} (h : gluedAt prev t = some g) :
    prev.any isLetter = false ∧ g.keyword ∈ kwList ∧ ∃ c cs, isNameStart c = true ∧ t = g.keyword ++ c :: cs ∧
      g.name = c :: cs.takeWhile isNamePart := by
  rw [gluedAt] at h
  split_ifs at h with hprev
  obtain ⟨k, hk, hwith⟩ := List.exists_of_findSome?_eq_some h
  obtain ⟨rfl, hname⟩ := gluedWith_eq_some_iff.1 hwith
  exact ⟨Bool.eq_false_iff.2 hprev, hk, hname⟩

def cppDirectiveRe : SubPattern Directive where
  groups _ t := directiveAt t
  whole := Directive.text
  takes h := ⟨by simp [Directive.text_eq], (directiveAt_eq_some h).2.2.2⟩

def keywordCollapseRe : SubPattern Glued where
  groups := gluedAt
  whole := Glued.text
  takes := by
    intro prev t g h
    obtain ⟨-, -, c, cs, -, rfl, hname⟩ := gluedAt_eq_some h
    rw [Glued.text, hname]
    refine ⟨by simp, ?_⟩
    rw [List.prefix_append_right_inj, List.prefix_cons_inj]
    exact List.takeWhile_prefix _

/-! ### The fixes -/

/-- `#\1 \2`. -/
def Directive.spaced (d : Directive) : Text := '#' :: d.word ++ [' ', d.next]

/-- `\1 \2`. -/
def Glued.spaced (g : Glued) : Text := g.keyword ++ ' ' :: g.name

def sanitizeCollapsedWhitespace (content _language : Text) : Text :=
  let fixed := cppDirectiveRe.sub Directive.spaced none content
  keywordCollapseRe.sub Glued.spaced none fixed

def deterministicSourceFixups : List (Text × Text) :=
  [("static _cast", "static_cast"),
    ("dynamic _cast", "dynamic_cast"),
    ("const _cast", "const_cast"),
    ("reinterpret _cast", "reinterpret_cast"),
    ("std ::", "std::"),
    ("-> ", "->")].map fun p => (p.1.toList, p.2.toList)

def applyDeterministicCodeFixes (content language : Text) : Text :=
  deterministicSourceFixups.foldl (fun fixed p => replace fixed p.1 p.2) (sanitizeCollapsedWhitespace content language)

/-! ### Words -/

/-- Lower case letters only, as all the keywords and directives are. -/
def IsWord (w : Text) : Prop := ∀ c ∈ w, c.isLower = true

theorem IsWord.of_append_right {v w : Text} (h : IsWord (v ++ w)) : IsWord w :=
  fun c hc => h c (List.mem_append_right v hc)

theorem IsWord.not_mem {w : Text} {c : Char} (h : IsWord w) (hc : c.isLower = false) : c ∉ w := fun hmem => by
  rw [h c hmem] at hc
  cases hc

theorem isLower_def (c : Char) : c.isLower = (decide (c.val ≥ 'a'.val) && decide (c.val ≤ 'z'.val)) := rfl

theorem isUpper_def (c : Char) : c.isUpper = decide (c.val ≥ 'A'.val ∧ c.val ≤ 'Z'.val) := rfl

theorem isAlpha_def (c : Char) : c.isAlpha = (c.isUpper || c.isLower) := rfl

theorem isAlphanum_def (c : Char) : c.isAlphanum = (c.isAlpha || c.isDigit) := rfl

theorem isLower_of_isSpace {c : Char} (h : isSpace c = true) : c.isLower = false := by
  by_contra hlower
  simp only [Bool.not_eq_false, isLower_def, Bool.and_eq_true, decide_eq_true_eq, ge_iff_le,
    UInt32.le_iff_toNat_le] at hlower
  simp only [isSpace, List.mem_cons, List.not_mem_nil, or_false, Bool.or_eq_true, decide_eq_true_eq,
    Bool.and_eq_true, ← UInt32.toNat_inj, UInt32.le_iff_toNat_le] at h
  simp at h hlower
  omega

theorem isLower_of_isNameStart {c : Char} (h : isNameStart c = true) : c.isLower = false := by
  rw [isNameStart, Bool.or_eq_true, decide_eq_true_eq] at h
  rcases h with h | rfl
  · simp only [isUpper_def, isLower_def, decide_eq_true_eq, Bool.and_eq_false_iff, decide_eq_false_iff_not,
      ge_iff_le, UInt32.le_iff_toNat_le] at h ⊢
    simp at h ⊢
    omega
  · rfl

/-- Where two words end in the same text, they are the same word. -/
theorem word_unique : ∀ {v w : Text} {c d : Char} {s t : Text}, IsWord v → IsWord w → c.isLower = false →
    d.isLower = false → v ++ c :: s = w ++ d :: t → v = w ∧ c = d ∧ s = t
  | [], [], _, _, _, _, _, _, _, _, h => ⟨rfl, List.cons.inj h⟩
  | [], e :: w, c, _, _, _, _, hw, hc, _, h => by
    obtain ⟨rfl, -⟩ := List.cons.inj h
    exact absurd List.mem_cons_self (hw.not_mem hc)
  | e :: v, [], _, d, _, _, hv, _, _, hd, h => by
    obtain ⟨rfl, -⟩ := List.cons.inj h
    exact absurd List.mem_cons_self (hv.not_mem hd)
  | e :: v, f :: w, _, _, _, _, hv, hw, hc, hd, h => by
    obtain ⟨rfl, htail⟩ := List.cons.inj h
    have hv' : IsWord v := fun x hx => hv x (List.mem_cons_of_mem _ hx)
    have hw' : IsWord w := fun x hx => hw x (List.mem_cons_of_mem _ hx)
    obtain ⟨rfl, hcd⟩ := word_unique hv' hw' hc hd htail
    exact ⟨rfl, hcd⟩

/-- A word at the front of a text that has another word there, and then no letter. -/
theorem word_prefix {v w : Text} {c : Char} {s : Text} (hv : IsWord v) (hc : c.isLower = false)
    (h : v <+: w ++ c :: s) : v <+: w := by
  rcases prefix_append_cases h with h | ⟨r, rfl, hr⟩
  · exact h
  · cases r with
    | nil => simp
    | cons d r =>
      obtain ⟨rfl, -⟩ := List.cons_prefix_cons.1 hr
      exact absurd (List.mem_append_right w List.mem_cons_self) (hv.not_mem hc)

theorem isWord_cppDirectives {w : Text} (h : w ∈ cppDirectives) : w ≠ [] ∧ IsWord w := by
  have hall : cppDirectives.all (fun w => !w.isEmpty && w.all Char.isLower) = true := by decide
  simpa [IsWord] using List.all_eq_true.1 hall w h

theorem isWord_kwList {k : Text} (h : k ∈ kwList) : k ≠ [] ∧ IsWord k := by
  have hall : kwList.all (fun k => !k.isEmpty && k.all Char.isLower) = true := by decide
  simpa [IsWord] using List.all_eq_true.1 hall k h

/-- A keyword that is glued to a name. -/
theorem gluedAt_glued {prev : Option Char} {k : Text} {c : Char} (cs : Text) (hprev : prev.any isLetter = false)
    (hk : k ∈ kwList) (hc : isNameStart c = true) :
    gluedAt prev (k ++ c :: cs) = some ⟨k, c :: cs.takeWhile isNamePart⟩ := by
  cases h : gluedAt prev (k ++ c :: cs) with
  | none =>
    rw [gluedAt, if_neg (by simp [hprev]), List.findSome?_eq_none_iff] at h
    have hwith : gluedWith (k ++ c :: cs) k = some ⟨k, c :: cs.takeWhile isNamePart⟩ :=
      gluedWith_eq_some_iff.2 ⟨rfl, c, cs, hc, rfl, rfl⟩
    rw [h k hk] at hwith
    cases hwith
  | some g =>
    obtain ⟨-, hg, d, ds, hd, ht, hname⟩ := gluedAt_eq_some h
    obtain ⟨hkey, rfl, rfl⟩ := word_unique (isWord_kwList hk).2 (isWord_kwList hg).2 (isLower_of_isNameStart hc)
      (isLower_of_isNameStart hd) ht
    rw [hkey, ← hname]

/-- No directive begins with one that stands before it in the list. -/
theorem cppDirectives_pairwise : cppDirectives.Pairwise fun v w => ¬ v <+: w := by decide

/-- A directive behind which there is a blank, and then no white space. -/
theorem directiveAt_spaced {w : Text} {c : Char} (t : Text) (hw : w ∈ cppDirectives) (hc : isSpace c = false) :
    directiveAt ('#' :: (w ++ ' ' :: c :: t)) = some ⟨w, [' '], c⟩ := by
  obtain ⟨ws, ws', hlist⟩ := List.append_of_mem hw
  have hpair := cppDirectives_pairwise
  rw [hlist, List.pairwise_append] at hpair
  show cppDirectives.findSome? (directiveWith (w ++ ' ' :: c :: t)) = _
  rw [hlist, List.findSome?_eq_some_iff]
  refine ⟨ws, w, ws', rfl, ?_, fun v hv => ?_⟩
  · exact directiveWith_eq_some_iff.2 ⟨rfl, by simp [isSpace], hc, t, by simp⟩
  · have hvw := isWord_cppDirectives (w := v) (by rw [hlist]; exact List.mem_append_left _ hv)
    rw [directiveWith, if_neg]
    exact fun hpre => hpair.2.2 v hv w List.mem_cons_self ( word_prefix hvw.2 (by decide) hpre)

theorem directiveAt_ne_none {w s : Text} {c : Char} (hw : w ∈ cppDirectives) (hc : c ∈ s) (hspace : isSpace c = false) :
    directiveAt ('#' :: (w ++ s)) ≠ none := by
  intro hnone
  have hwith : directiveWith (w ++ s) w = none := List.findSome?_eq_none_iff.1 hnone w hw
  rw [directiveWith, if_pos (List.prefix_append w s), List.drop_left] at hwith
  cases hdrop : s.dropWhile isSpace with
  | nil =>
    rw [List.dropWhile_eq_nil_iff.1 hdrop c hc] at hspace
    cases hspace
  | cons d ds =>
    rw [hdrop] at hwith
    cases hwith

/-! ### Directives with one blank behind them -/

/-- No white space: what no pass touches. -/
def isSolid (c : Char) : Bool := !isSpace c

/-- A text in which each match of the pattern has one blank already. -/
inductive Spaced : Text → Prop
  | nil : Spaced []
  | copy {c : Char} {t : Text} : directiveAt (c :: t) = none → Spaced t → Spaced (c :: t)
  | block {w : Text} {c : Char} {t : Text} : w ∈ cppDirectives → isSpace c = false → Spaced t →
      Spaced ('#' :: (w ++ ' ' :: c :: t))

theorem Spaced.sub_eq {t : Text} (h : Spaced t) (prev : Option Char) :
    cppDirectiveRe.sub Directive.spaced prev t = t := by
  induction h generalizing prev with
  | nil => rfl
  | copy hnone _ ih => rw [SubPattern.sub_copy hnone, ih]
  | @block w c t hw hc _ ih =>
    have hcut : '#' :: (w ++ ' ' :: c :: t) = cppDirectiveRe.whole ⟨w, [' '], c⟩ ++ t := by
      simp [cppDirectiveRe, Directive.text_eq]
    have hg := directiveAt_spaced t hw hc
    rw [hcut] at hg ⊢
    rw [SubPattern.sub_put (m := cppDirectiveRe) hg, ih]
    simp [cppDirectiveRe, Directive.text_eq, Directive.spaced]

theorem directiveAt_of_ne {c : Char} {t : Text} (h : c ≠ '#') : directiveAt (c :: t) = none := by
  unfold directiveAt
  split
  · rename_i heq
    obtain ⟨rfl, -⟩ := List.cons.inj heq
    exact absurd rfl h
  · rfl

theorem Spaced.of_append {r : Text} : ∀ {o : Text}, '#' ∉ o → Spaced (o ++ r) → Spaced r
  | [], _, h => h
  | c :: o, ho, h => by
    have hr : Spaced (o ++ r) := by
      generalize ht : c :: o ++ r = t at h
      cases h with
      | nil => cases ht
      | copy _ h =>
        obtain ⟨-, rfl⟩ := List.cons.inj ht
        exact h
      | block _ _ _ =>
        obtain ⟨rfl, -⟩ := List.cons.inj ht
        exact absurd List.mem_cons_self ho
    exact hr.of_append fun hmem => ho (List.mem_cons_of_mem _ hmem)

theorem Spaced.append {r : Text} (h : Spaced r) : ∀ {n : Text}, '#' ∉ n → Spaced (n ++ r)
  | [], _ => h
  | c :: n, hn => by
    refine .copy (directiveAt_of_ne ?_) (h.append fun hmem => hn (List.mem_cons_of_mem _ hmem))
    rintro rfl
    exact hn List.mem_cons_self

/-- No directive comes into being where only white space changes and no word comes into being. -/
theorem directiveAt_eq_none {c : Char} {t t' : Text} (hnone : directiveAt (c :: t) = none)
    (hsolid : t'.filter isSolid = t.filter isSolid) (hwords : ∀ w ∈ cppDirectives, w <+: t' → w <+: t) :
    directiveAt (c :: t') = none := by
  cases h : directiveAt (c :: t') with
  | none => rfl
  | some d =>
    obtain ⟨hw, -, hnext, r, hr⟩ := directiveAt_eq_some h
    rw [Directive.text_eq, List.cons_append] at hr
    obtain ⟨rfl, rfl⟩ := List.cons.inj hr
    have hpre : d.word <+: d.word ++ d.gap ++ [d.next] ++ r := ⟨d.gap ++ [d.next] ++ r, by simp⟩
    obtain ⟨s, rfl⟩ := hwords d.word hw hpre
    have hmem : d.next ∈ s.filter isSolid := by
      simp only [List.filter_append, List.append_assoc] at hsolid
      rw [← List.append_cancel_left hsolid]
      simp [isSolid, hnext]
    exact absurd hnone (directiveAt_ne_none hw (List.mem_of_mem_filter hmem) hnext)

/-- A pass that changes white space only, and not behind a directive. -/
structure Respaces {γ : Type} (m : SubPattern γ) (template : γ → Text) : Prop where
  hash : ∀ {prev t g}, m.groups prev t = some g → '#' ∉ m.whole g ∧ '#' ∉ template g
  solid : ∀ {prev t g}, m.groups prev t = some g → (template g).filter isSolid = (m.whole g).filter isSolid
  head : ∀ {prev t g}, m.groups prev t = some g → ∃ c n, template g = c :: n ∧ isSpace c = false
  directive : ∀ {w u v}, w ∈ cppDirectives → '#' :: w = u ++ v → ∀ prev s, m.groups prev (v ++ ' ' :: s) = none
  words : ∀ {w}, w ∈ cppDirectives → ∀ {prev t}, w <+: m.sub template prev t → w <+: t

theorem Respaces.sub_directive {γ : Type} {m : SubPattern γ} {template : γ → Text} (h : Respaces m template) {w : Text}
    (hw : w ∈ cppDirectives) (s : Text) : ∀ {v u : Text}, '#' :: w = u ++ v → ∀ prev : Option Char,
    m.sub template prev (v ++ ' ' :: s) = v ++ ' ' :: m.sub template (some ' ') s
  | [], u, hv, prev => SubPattern.sub_copy (h.directive hw hv prev s)
  | c :: v, u, hv, prev => by
    have hcopy : m.groups prev (c :: (v ++ ' ' :: s)) = none := h.directive hw hv prev s
    have hv' : '#' :: w = (u ++ [c]) ++ v := by rw [hv, List.append_assoc]; rfl
    rw [List.cons_append, SubPattern.sub_copy hcopy, sub_directive h hw s hv']
    rfl

/-- SPACED: such a pass leaves the directives with one blank. -/
theorem Spaced.sub {γ : Type} {m : SubPattern γ} {template : γ → Text} (h : Respaces m template) {t : Text}
    (ht : Spaced t) (prev : Option Char) : Spaced (m.sub template prev t) := by
  induction hn : t.length using Nat.strong_induction_on generalizing t prev with
  | _ n ih =>
    -- a match takes no part of a block, so what is behind it is as it was
    have hput : ∀ {prev : Option Char} {g : γ} {r : Text}, m.groups prev (m.whole g ++ r) = some g →
        (m.whole g ++ r).length ≤ n → Spaced (m.whole g ++ r) →
        Spaced (m.sub template (lastOf prev (m.whole g)) r) := by
      intro prev g r hg hlen hs
      have hlt : r.length < n := by
        have hpos := List.length_pos_of_ne_nil (m.takes hg).1
        rw [List.length_append] at hlen
        omega
      exact ih r.length hlt (hs.of_append (h.hash hg).1) _ rfl
    cases ht with
    | nil => exact .nil
    | @copy c t hnone ht =>
      cases hg : m.groups prev (c :: t) with
      | none =>
        rw [SubPattern.sub_copy hg]
        exact .copy (directiveAt_eq_none hnone (SubPattern.filter_sub h.solid _ _) fun w hw => h.words hw)
          (ih t.length (by rw [← hn]; exact Nat.lt_succ_self _) ht _ rfl)
      | some g =>
        obtain ⟨-, r, hr⟩ := m.takes hg
        have hs := Spaced.copy hnone ht
        rw [← hr] at hg hs hn ⊢
        rw [SubPattern.sub_put hg]
        exact (hput hg hn.le hs).append (h.hash hg).2
    | @block w c t hw hc ht =>
      have hskip := h.sub_directive hw (c :: t) (u := []) rfl prev
      rw [List.cons_append] at hskip
      rw [hskip]
      cases hg : m.groups (some ' ') (c :: t) with
      | none =>
        rw [SubPattern.sub_copy hg]
        refine .block hw hc (ih t.length ?_ ht _ rfl)
        rw [← hn]
        simp
        omega
      | some g =>
        obtain ⟨hne, r, hr⟩ := m.takes hg
        obtain ⟨e, n', htemp, he⟩ := h.head hg
        have hlen : (m.whole g ++ r).length ≤ n := by
          rw [hr, ← hn]
          simp
          omega
        have hs : Spaced (m.whole g ++ r) := by
          rw [hr]
          refine .copy (directiveAt_of_ne ?_) ht
          rintro rfl
          obtain ⟨d, o, ho⟩ := List.exists_cons_of_ne_nil hne
          rw [ho] at hr
          obtain ⟨rfl, -⟩ := List.cons.inj hr
          exact (h.hash hg).1 (by rw [ho]; exact List.mem_cons_self)
        rw [← hr] at hg ⊢
        rw [SubPattern.sub_put hg, htemp, List.cons_append]
        have hhash := (h.hash hg).2
        rw [htemp] at hhash
        exact .block hw he ((hput hg hlen hs).append fun hmem => hhash (List.mem_cons_of_mem _ hmem))

/-! ### The pass over the directives -/

theorem solid_spaced {t : Text} {d : Directive} (h : directiveAt t = some d) :
    d.spaced.filter isSolid = d.text.filter isSolid := by
  have hgap : d.gap.filter isSolid = [] :=
    List.filter_eq_nil_iff.2 fun c hc => by simp [isSolid, (directiveAt_eq_some h).2.1 c hc]
  rw [Directive.text_eq, Directive.spaced]
  simp only [List.filter_append, List.filter_cons, List.cons_append, hgap]
  simp [isSolid, isSpace]

theorem prefix_of_directives {q : Text} (hq : '#' ∉ q) {prev : Option Char} {t : Text}
    (h : q <+: cppDirectiveRe.sub Directive.spaced prev t) : q <+: t := by
  induction prev, t using cppDirectiveRe.induct generalizing q with
  | nil prev => exact h
  | put prev d r hd ih =>
    rw [SubPattern.sub_put hd] at h
    cases q with
    | nil => exact List.nil_prefix
    | cons c q =>
      obtain ⟨rfl, -⟩ := List.cons_prefix_cons.1 h
      exact absurd List.mem_cons_self hq
  | copy prev c t hnone ih =>
    rw [SubPattern.sub_copy hnone] at h
    cases q with
    | nil => exact List.nil_prefix
    | cons d q =>
      obtain ⟨rfl, htail⟩ := List.cons_prefix_cons.1 h
      exact List.cons_prefix_cons.2 ⟨rfl, ih (fun hmem => hq (List.mem_cons_of_mem _ hmem)) htail⟩

theorem prefix_cons_of_directives {q : Text} (hq : '#' ∉ q) {c : Char} {prev : Option Char} {t : Text}
    (h : q <+: c :: cppDirectiveRe.sub Directive.spaced prev t) : q <+: c :: t := by
  cases q with
  | nil => exact List.nil_prefix
  | cons d q =>
    obtain ⟨rfl, htail⟩ := List.cons_prefix_cons.1 h
    exact List.cons_prefix_cons.2 ⟨rfl, prefix_of_directives (fun hmem => hq (List.mem_cons_of_mem _ hmem)) htail⟩

/-- Behind a word there is nothing of a text that goes on in another way. -/
theorem infix_of_word {l q s : Text} {z d : Char} (hl : IsWord l) (hz : z.isLower = false) (hd : d.isLower = false)
    (hzd : z ≠ d) : ∀ {w : Text}, IsWord w → l ++ z :: q <:+: w ++ d :: s → l ++ z :: q <:+: s
  | [], hw, h => by
    rcases List.infix_cons_iff.1 h with ⟨r, hr⟩ | hs
    · rw [List.append_assoc] at hr
      exact absurd (word_unique hl hw hz hd hr).2.1 hzd
    · exact hs
  | e :: w, hw, h => by
    rcases List.infix_cons_iff.1 h with ⟨r, hr⟩ | hs
    · rw [List.append_assoc] at hr
      exact absurd (word_unique hl hw hz hd hr).2.1 hzd
    · exact infix_of_word hl hz hd hzd (fun c hc => hw c (List.mem_cons_of_mem _ hc)) hs

theorem infix_of_directives {l q : Text} {z : Char} (hl : IsWord l) (hz : z.isLower = false) (hblank : z ≠ ' ')
    (hq : '#' ∉ l ++ z :: q) {prev : Option Char} {t : Text}
    (h : l ++ z :: q <:+: cppDirectiveRe.sub Directive.spaced prev t) : l ++ z :: q <:+: t := by
  have hpre : ∀ {c : Char} {prev : Option Char} {r : Text},
      l ++ z :: q <+: c :: cppDirectiveRe.sub Directive.spaced prev r → l ++ z :: q <:+: c :: r :=
    fun h => (prefix_cons_of_directives hq h).isInfix
  induction prev, t using cppDirectiveRe.induct with
  | nil prev => exact h
  | put prev d r hd ih =>
    have hword : directiveAt (cppDirectiveRe.whole d ++ r) = some d := hd
    have hw := (isWord_cppDirectives (directiveAt_eq_some hword).1).2
    rw [SubPattern.sub_put hd, Directive.spaced, List.cons_append, List.cons_append, List.append_assoc] at h
    have htext : cppDirectiveRe.whole d ++ r = '#' :: (d.word ++ d.gap) ++ d.next :: r := by
      simp [cppDirectiveRe, Directive.text_eq]
    rw [htext]
    have hrest : l ++ z :: q <:+: d.next :: r := by
      rcases List.infix_cons_iff.1 h with hhash | hin
      · cases l with
        | nil =>
          obtain ⟨rfl, -⟩ := List.cons_prefix_cons.1 hhash
          exact absurd List.mem_cons_self hq
        | cons e l =>
          obtain ⟨rfl, -⟩ := List.cons_prefix_cons.1 hhash
          exact absurd List.mem_cons_self hq
      · rcases List.infix_cons_iff.1 (infix_of_word hl hz (by decide) hblank hw hin) with hnext | hin
        · exact hpre hnext
        · exact (ih hin).trans (List.suffix_cons d.next r).isInfix
    exact hrest.trans (List.suffix_append ..).isInfix
  | copy prev c t hnone ih =>
    rw [SubPattern.sub_copy hnone] at h
    rcases List.infix_cons_iff.1 h with hc | hin
    · exact hpre hc
    · exact (ih hin).trans (List.suffix_cons c t).isInfix

theorem spaced_directives (prev : Option Char) (t : Text) : Spaced (cppDirectiveRe.sub Directive.spaced prev t) := by
  induction prev, t using cppDirectiveRe.induct with
  | nil prev => exact .nil
  | put prev d r hd ih =>
    have hd' : directiveAt (cppDirectiveRe.whole d ++ r) = some d := hd
    obtain ⟨hw, -, hnext, -⟩ := directiveAt_eq_some hd'
    have hblock := Spaced.block hw hnext ih
    rw [SubPattern.sub_put hd, Directive.spaced]
    simpa using hblock
  | copy prev c t hnone ih =>
    rw [SubPattern.sub_copy hnone]
    exact .copy (directiveAt_eq_none hnone (SubPattern.filter_sub (m := cppDirectiveRe) solid_spaced _ _)
      fun w hw hpre => prefix_of_directives ((isWord_cppDirectives hw).2.not_mem (by decide)) hpre) ih

/-! ### The pass over the keywords -/

/-- A keyword and the name behind it, with a blank between them where the keyword is one of some. -/
def Glued.apart (S : Text → Bool) (g : Glued) : Text := g.keyword ++ ((if S g.keyword then [' '] else []) ++ g.name)

theorem Glued.spaced_eq : Glued.spaced = Glued.apart fun _ => true := rfl

theorem isLower_not_space {c : Char} (h : c.isLower = true) : isSpace c = false := by
  cases hs : isSpace c with
  | false => rfl
  | true =>
    rw [isLower_of_isSpace hs] at h
    cases h

theorem isNamePart_of_isNameStart {c : Char} (h : isNameStart c = true) : isNamePart c = true := by
  rw [isNameStart, Bool.or_eq_true] at h
  rw [isNamePart, Bool.or_eq_true, isAlphanum_def, isAlpha_def]
  rcases h with h | h
  · simp [h]
  · exact Or.inr h

theorem isNamePart_of_isLower {c : Char} (h : c.isLower = true) : isNamePart c = true := by
  simp [isNamePart, isAlphanum_def, isAlpha_def, h]

theorem isNamePart_name {prev : Option Char} {t : Text} {g : Glued} (h : gluedAt prev t = some g) :
    ∀ c ∈ g.name, isNamePart c = true := by
  obtain ⟨-, -, c, cs, hc, -, hname⟩ := gluedAt_eq_some h
  rw [hname]
  intro d hd
  rcases List.mem_cons.1 hd with rfl | hd
  · exact isNamePart_of_isNameStart hc
  · exact List.mem_takeWhile_imp hd

theorem not_mem_name {prev : Option Char} {t : Text} {g : Glued} (h : gluedAt prev t = some g) {c : Char}
    (hc : isNamePart c = false) : c ∉ g.name := fun hmem => by
  rw [isNamePart_name h c hmem] at hc
  cases hc

/-- No blank behind a lower case letter, as none is put in. -/
def Tight (q : Text) : Prop := ∀ c, c.isLower = true → ¬ [c, ' '] <:+: q

theorem Tight.of_infix {q r : Text} (h : Tight r) (hqr : q <:+: r) : Tight q := fun c hc hin => h c hc (hin.trans hqr)

theorem tight_of_not_mem {q : Text} (h : ' ' ∉ q) : Tight q := fun c _ hin => h (hin.subset (by simp))

theorem tight_cons_of_not_mem {q : Text} (h : ' ' ∉ q) : Tight (' ' :: q) := by
  intro c hc hin
  rcases List.infix_cons_iff.1 hin with hpre | hin
  · obtain ⟨rfl, -⟩ := List.cons_prefix_cons.1 hpre
    cases hc
  · exact h (hin.subset (by simp))

theorem not_tight {w q : Text} (hw : IsWord w) (hne : w ≠ []) : ¬ Tight (w ++ ' ' :: q) := by
  obtain ⟨w, c, rfl⟩ := (List.eq_nil_or_concat w).resolve_left hne
  exact fun h => h c (hw c (by simp)) ⟨w, q, by simp⟩

variable {S : Text → Bool}

theorem prefix_of_apart {q : Text} (hq : Tight q) {prev : Option Char} {t : Text}
    (h : q <+: keywordCollapseRe.sub (Glued.apart S) prev t) : q <+: t := by
  induction prev, t using keywordCollapseRe.induct generalizing q with
  | nil prev => exact h
  | put prev g r hg ih =>
    have hg' : gluedAt prev (keywordCollapseRe.whole g ++ r) = some g := hg
    obtain ⟨hne, hword⟩ := isWord_kwList (gluedAt_eq_some hg').2.1
    rw [SubPattern.sub_put hg, Glued.apart, List.append_assoc] at h
    show q <+: g.keyword ++ g.name ++ r
    rw [List.append_assoc]
    rcases prefix_append_cases h with hkey | ⟨q, rfl, hrest⟩
    · exact hkey.trans (List.prefix_append ..)
    · rw [List.prefix_append_right_inj]
      cases hS : S g.keyword with
      | true =>
        rw [hS, if_pos rfl] at hrest
        cases q with
        | nil => exact List.nil_prefix
        | cons c q =>
          obtain ⟨rfl, -⟩ := List.cons_prefix_cons.1 hrest
          exact absurd hq (not_tight hword hne)
      | false =>
        rw [hS, if_neg (by decide), List.nil_append] at hrest
        rcases prefix_append_cases hrest with hname | ⟨q, rfl, hbehind⟩
        · exact hname.trans (List.prefix_append ..)
        · exact (List.prefix_append_right_inj _).2 (ih (hq.of_infix ⟨g.keyword ++ g.name, [], by simp⟩) hbehind)
  | copy prev c t hnone ih =>
    rw [SubPattern.sub_copy hnone] at h
    cases q with
    | nil => exact List.nil_prefix
    | cons d q =>
      obtain ⟨rfl, htail⟩ := List.cons_prefix_cons.1 h
      exact List.cons_prefix_cons.2 ⟨rfl, ih (hq.of_infix (List.suffix_cons d q).isInfix) htail⟩

/-- A torn seam behind the pass was there before, or a keyword at the end of its left half was put apart. -/
theorem torn_of_apart {x y : Text} (hx : ' ' ∉ x) (hy : ' ' ∉ y) {prev : Option Char} {t : Text}
    (h : x ++ ' ' :: y <+: keywordCollapseRe.sub (Glued.apart S) prev t) : x ++ ' ' :: y <+: t ∨
    ∃ x' g t', x = x' ++ g.keyword ∧ t = x' ++ t' ∧ S g.keyword = true ∧ gluedAt (lastOf prev x') t' = some g := by
  induction prev, t using keywordCollapseRe.induct generalizing x with
  | nil prev => simp at h
  | put prev g r hg ih =>
    have hg' : gluedAt prev (keywordCollapseRe.whole g ++ r) = some g := hg
    obtain ⟨hne, hword⟩ := isWord_kwList (gluedAt_eq_some hg').2.1
    have hcut : keywordCollapseRe.whole g ++ r = g.keyword ++ g.name ++ r := rfl
    rw [SubPattern.sub_put hg, Glued.apart] at h
    cases hS : S g.keyword with
    | true =>
      rw [hS, if_pos rfl, List.append_assoc] at h
      obtain ⟨x, rfl, hrest⟩ := gap_behind (hword.not_mem (by decide)) h
      cases x with
      | nil => exact Or.inr ⟨[], g, _, by simp, rfl, hS, hg'⟩
      | cons c x =>
        obtain ⟨rfl, -⟩ := List.cons_prefix_cons.1 hrest
        simp at hx
    | false =>
      rw [hS, if_neg (by decide), List.nil_append] at h
      have htext : ' ' ∉ g.keyword ++ g.name := by
        rw [List.mem_append, not_or]
        exact ⟨hword.not_mem (by decide), not_mem_name hg' (by decide)⟩
      obtain ⟨x, rfl, hrest⟩ := gap_behind htext h
      rcases ih (fun hmem => hx (List.mem_append_right _ hmem)) hrest with hpre | ⟨x', g', t', rfl, rfl, hS', hg''⟩
      · refine Or.inl ?_
        rw [List.append_assoc]
        exact (List.prefix_append_right_inj _).2 hpre
      · refine Or.inr ⟨g.keyword ++ g.name ++ x', g', t', by simp, by rw [hcut]; simp, hS', ?_⟩
        rw [lastOf_append]
        exact hg''
  | copy prev c t hnone ih =>
    rw [SubPattern.sub_copy hnone] at h
    cases x with
    | nil =>
      have hpre : ' ' :: y <+: keywordCollapseRe.sub (Glued.apart S) prev (c :: t) := by
        rw [SubPattern.sub_copy hnone]
        exact h
      exact Or.inl (prefix_of_apart (tight_cons_of_not_mem hy) hpre)
    | cons d x =>
      obtain ⟨rfl, htail⟩ := List.cons_prefix_cons.1 h
      rcases ih (fun hmem => hx (List.mem_cons_of_mem _ hmem)) htail with hpre | ⟨x', g, t', rfl, rfl, hS, hg⟩
      · exact Or.inl (List.cons_prefix_cons.2 ⟨rfl, hpre⟩)
      · exact Or.inr ⟨d :: x', g, t', rfl, rfl, hS, by rw [lastOf_cons]; exact hg⟩

/-- Where a text that begins with no letter stands in what is put in: behind it, or from within the name on. -/
theorem infix_spaced_cases {g : Glued} {z : Char} {q s : Text} (hword : IsWord g.keyword) (hz : z.isLower = false)
    (hblank : z ≠ ' ') (h : z :: q <:+: g.spaced ++ s) :
    z :: q <:+: s ∨ ∃ u v, g.name = u ++ v ∧ v ≠ [] ∧ z :: q <+: v ++ s := by
  rw [Glued.spaced, List.append_assoc] at h
  have hnil : IsWord [] := fun _ hc => absurd hc List.not_mem_nil
  exact infix_append_cases (infix_of_word hnil hz (by decide) hblank hword h)

theorem infix_of_keywords {z : Char} {q : Text} (hz : isNamePart z = false) (hblank : z ≠ ' ') (hq : Tight (z :: q))
    {prev : Option Char} {t : Text} (h : z :: q <:+: keywordCollapseRe.sub Glued.spaced prev t) : z :: q <:+: t := by
  have hlower : z.isLower = false := by
    by_contra hl
    rw [isNamePart_of_isLower (Bool.not_eq_false _ ▸ hl)] at hz
    cases hz
  induction prev, t using keywordCollapseRe.induct with
  | nil prev => exact h
  | put prev g r hg ih =>
    have hg' : gluedAt prev (keywordCollapseRe.whole g ++ r) = some g := hg
    rw [SubPattern.sub_put hg] at h
    have hword := (isWord_kwList (gluedAt_eq_some hg').2.1).2
    rcases infix_spaced_cases hword hlower hblank h with hin | ⟨u, v, hname, hv, hpre⟩
    · exact (ih hin).trans (List.suffix_append ..).isInfix
    · obtain ⟨d, v, rfl⟩ := List.exists_cons_of_ne_nil hv
      obtain ⟨rfl, -⟩ := List.cons_prefix_cons.1 hpre
      exact absurd (by simp [hname]) (not_mem_name hg' hz)
  | copy prev c t hnone ih =>
    have hsub : keywordCollapseRe.sub Glued.spaced prev (c :: t) = c :: _ := SubPattern.sub_copy hnone
    rw [hsub] at h
    rcases List.infix_cons_iff.1 h with hpre | hin
    · rw [← hsub, Glued.spaced_eq] at hpre
      exact (prefix_of_apart hq hpre).isInfix
    · exact (ih hin).trans (List.suffix_cons c t).isInfix

/-- A torn seam whose left half is one piece: no keyword in it stands at the beginning of a word. -/
theorem torn_of_keywords {x y : Text} (hx : ∀ c ∈ x, isLetter c = true) (hy : ' ' ∉ y) {prev : Option Char} {t : Text}
    (h : '_' :: x ++ ' ' :: y <:+: keywordCollapseRe.sub Glued.spaced prev t) : '_' :: x ++ ' ' :: y <:+: t := by
  have hletter : ∀ c ∈ '_' :: x, isLetter c = true := fun c hc => by
    rcases List.mem_cons.1 hc with rfl | hc
    · rfl
    · exact hx c hc
  -- a keyword has a letter before it wherever it stands in the left half, except at the front, where there is none
  have hfront : ∀ {prev : Option Char} (u x' : Text) {g : Glued} {t : Text}, '_' :: x = (u ++ x') ++ g.keyword →
      gluedAt (lastOf (lastOf prev u) x') t = some g → False := by
    intro prev u x' g t hcut hg
    obtain ⟨hopens, hk, -⟩ := gluedAt_eq_some hg
    obtain ⟨hne, hword⟩ := isWord_kwList hk
    rw [← lastOf_append] at hopens
    rcases List.eq_nil_or_concat (u ++ x') with hnil | ⟨v, c, hv⟩
    · obtain ⟨d, k, hkey⟩ := List.exists_cons_of_ne_nil hne
      rw [hnil, hkey] at hcut
      obtain ⟨rfl, -⟩ := List.cons.inj hcut
      exact absurd (by simp [hkey]) (hword.not_mem (c := '_') (by decide))
    · rw [hv, List.concat_eq_append, lastOf_concat, Option.any_some] at hopens
      rw [hletter c (by rw [hcut, hv]; simp)] at hopens
      cases hopens
  induction prev, t using keywordCollapseRe.induct with
  | nil prev => exact h
  | put prev g r hg ih =>
    have hg' : gluedAt prev (keywordCollapseRe.whole g ++ r) = some g := hg
    rw [SubPattern.sub_put hg] at h
    rcases infix_spaced_cases (isWord_kwList (gluedAt_eq_some hg').2.1).2 (by decide) (by decide) h with
      hin | ⟨u, v, hname, hv, hpre⟩
    · exact (ih hin).trans (List.suffix_append ..).isInfix
    · have hvblank : ' ' ∉ v := fun hmem =>
        not_mem_name hg' (c := ' ') (by decide) (by rw [hname]; exact List.mem_append_right u hmem)
      have hwhole : '_' :: x ++ ' ' :: y <+: v ++ _ := hpre
      obtain ⟨x', hx', hrest⟩ := gap_behind hvblank hwhole
      have hxblank : ' ' ∉ x' := fun hmem => by
        have := hletter ' ' (by rw [hx']; exact List.mem_append_right v hmem)
        cases this
      have hlast : lastOf prev (keywordCollapseRe.whole g) = lastOf (lastOf prev (g.keyword ++ u)) v := by
        rw [← lastOf_append, List.append_assoc, ← hname]
        rfl
      rw [Glued.spaced_eq] at hrest
      rcases torn_of_apart hxblank hy hrest with hpre | ⟨x'', g', t', rfl, -, -, hg''⟩
      · have hin : v ++ r <:+: g.keyword ++ (u ++ v) ++ r := ⟨g.keyword ++ u, [], by simp⟩
        show _ <:+: g.keyword ++ g.name ++ r
        rw [hname, hx', List.append_assoc]
        exact ((List.prefix_append_right_inj v).2 hpre).isInfix.trans hin
      · rw [hlast] at hg''
        rw [← List.append_assoc] at hx'
        exact (hfront _ _ hx' hg'').elim
  | copy prev c t hnone ih =>
    have hsub : keywordCollapseRe.sub Glued.spaced prev (c :: t) = c :: _ := SubPattern.sub_copy hnone
    rw [hsub] at h
    rcases List.infix_cons_iff.1 h with hpre | hin
    · rw [← hsub, Glued.spaced_eq] at hpre
      have hxblank : ' ' ∉ '_' :: x := fun hmem => by
        have := hletter ' ' hmem
        cases this
      rcases torn_of_apart hxblank hy hpre with hpre | ⟨x', g, t', hcut, -, -, hg⟩
      · exact hpre.isInfix
      · exact (hfront [] x' hcut hg).elim
    · exact (ih hin).trans (List.suffix_cons c t).isInfix

theorem respaces_keywords : Respaces keywordCollapseRe Glued.spaced where
  hash := by
    intro prev t g hg
    have hkey := (isWord_kwList (gluedAt_eq_some hg).2.1).2.not_mem (c := '#') (by decide)
    have hname := not_mem_name hg (c := '#') (by decide)
    constructor
    · show '#' ∉ g.keyword ++ g.name
      simp [hkey, hname]
    · simp [Glued.spaced, hkey, hname]
  solid := by
    intro prev t g _
    show g.spaced.filter isSolid = (g.keyword ++ g.name).filter isSolid
    rw [Glued.spaced, List.filter_append, List.filter_append]
    rfl
  head := by
    intro prev t g hg
    obtain ⟨hne, hword⟩ := isWord_kwList (gluedAt_eq_some hg).2.1
    obtain ⟨c, k, hkey⟩ := List.exists_cons_of_ne_nil hne
    exact ⟨c, k ++ ' ' :: g.name, by rw [Glued.spaced, hkey]; rfl, isLower_not_space (hword c (by simp [hkey]))⟩
  directive := by
    intro w u v hw hv prev s
    cases h : keywordCollapseRe.groups prev (v ++ ' ' :: s) with
    | none => rfl
    | some g =>
      obtain ⟨-, hk, c, cs, hc, ht, -⟩ := gluedAt_eq_some h
      obtain ⟨hne, hkey⟩ := isWord_kwList hk
      exfalso
      cases u with
      | nil =>
        rw [List.nil_append] at hv
        obtain ⟨d, k, hd⟩ := List.exists_cons_of_ne_nil hne
        rw [← hv, hd] at ht
        obtain ⟨rfl, -⟩ := List.cons.inj ht
        exact hkey.not_mem (c := '#') (by decide) (by simp [hd])
      | cons d u =>
        obtain ⟨-, rfl⟩ := List.cons.inj hv
        obtain ⟨-, rfl, -⟩ := word_unique ((isWord_cppDirectives hw).2.of_append_right) hkey (by decide)
          (isLower_of_isNameStart hc) ht
        cases hc
  words := by
    intro w hw prev t h
    rw [Glued.spaced_eq] at h
    exact prefix_of_apart (tight_of_not_mem ((isWord_cppDirectives hw).2.not_mem (by decide))) h

/-- A name in which a digit stands before a keyword that is glued to what follows: where such a name is glued to a
    keyword itself, the pass goes over what stands inside it. -/
structure Hides (k n k' : Text) (c : Char) : Prop where
  keyword : k ∈ kwList
  start : n.head?.any isNameStart = true
  parts : ∀ d ∈ n, isNamePart d = true
  digit : n.getLast?.any Char.isDigit = true
  inner : k' ∈ kwList
  glued : isNameStart c = true

theorem isLetter_or_isDigit {c : Char} (h : isNamePart c = true) : isLetter c = true ∨ c.isDigit = true := by
  simp only [isNamePart, isLetter, isAlphanum_def, Bool.or_eq_true] at h ⊢
  tauto

theorem gluedAt_maximal {prev : Option Char} {g : Glued} {r : Text} (h : gluedAt prev (g.text ++ r) = some g) :
    ∀ c ∈ r.head?, isNamePart c = false := by
  obtain ⟨-, -, c, cs, -, ht, hname⟩ := gluedAt_eq_some h
  rw [Glued.text, hname, List.append_assoc, List.append_cancel_left_eq, List.cons_append] at ht
  have hr : r = cs.dropWhile isNamePart := by
    obtain ⟨-, ht⟩ := List.cons.inj ht
    have hcs := List.takeWhile_append_dropWhile (p := isNamePart) (l := cs)
    exact List.append_cancel_left (ht.trans hcs.symm)
  intro d hd
  have hnot := List.head?_dropWhile_not isNamePart cs
  rw [← hr, Option.mem_def.1 hd] at hnot
  exact hnot

theorem head?_keywords (prev : Option Char) (t : Text) :
    (keywordCollapseRe.sub Glued.spaced prev t).head? = t.head? := by
  refine SubPattern.head?_sub (fun {prev t g} hg => ?_) prev t
  obtain ⟨c, k, hkey⟩ := List.exists_cons_of_ne_nil (isWord_kwList (gluedAt_eq_some hg).2.1).1
  show (g.keyword ++ ' ' :: g.name).head? = (g.keyword ++ g.name).head?
  rw [hkey]
  rfl

/-- A keyword inside a name of a match: only a digit can stand before it, so the name hides it. -/
theorem hides_of_name {prev : Option Char} {g : Glued} {r k' u v out : Text} {c : Char}
    (hg : gluedAt prev (g.text ++ r) = some g) (hname : g.name = u ++ v) (hu : u ≠ []) (hk' : k' ∈ kwList)
    (hc : isNameStart c = true) (hlast : u.getLast?.any isLetter = false) (hout : out.head? = r.head?)
    (hpre : k' ++ [c] <+: v ++ out) : Hides g.keyword u k' c ∧ k' ++ [c] <+: v := by
  obtain ⟨-, hk, d, ds, hd, -, hds⟩ := gluedAt_eq_some hg
  have hparts := isNamePart_name hg
  have hinner : ∀ e ∈ k' ++ [c], isNamePart e = true := by
    intro e he
    rcases List.mem_append.1 he with he | he
    · exact isNamePart_of_isLower ((isWord_kwList hk').2 e he)
    · rw [List.mem_singleton.1 he]
      exact isNamePart_of_isNameStart hc
  constructor
  · refine ⟨hk, ?_, fun e he => hparts e (by rw [hname]; exact List.mem_append_left v he), ?_, hk', hc⟩
    · obtain ⟨e, u, rfl⟩ := List.exists_cons_of_ne_nil hu
      rw [hname] at hds
      obtain ⟨rfl, -⟩ := List.cons.inj hds
      exact hd
    · rw [List.getLast?_eq_some_getLast hu, Option.any_some] at hlast ⊢
      have hpart := hparts (u.getLast hu) (by rw [hname]; exact List.mem_append_left v (List.getLast_mem hu))
      rcases isLetter_or_isDigit hpart with hl | hd
      · rw [hl] at hlast
        cases hlast
      · exact hd
  · rcases prefix_append_cases hpre with hv | ⟨q, hq, hrest⟩
    · exact hv
    · cases q with
      | nil => rw [hq, List.append_nil]
      | cons e q =>
        obtain ⟨s, hs⟩ := hrest
        have hhead : r.head? = some e := by rw [← hout, ← hs]; rfl
        have hpart := hinner e (by rw [hq]; simp)
        rw [gluedAt_maximal hg e hhead] at hpart
        cases hpart

/-- UNGLUED: where no name hides a keyword, no keyword is glued to a name any more. -/
theorem gluedAt_keywords {prev : Option Char} {t : Text}
    (hhides : ∀ k n k' c, Hides k n k' c → ¬ k ++ (n ++ (k' ++ [c])) <:+: t) {a b : Text}
    (hab : keywordCollapseRe.sub Glued.spaced prev t = a ++ b) : gluedAt (lastOf prev a) b = none := by
  cases hb : gluedAt (lastOf prev a) b with
  | none => rfl
  | some g' =>
    exfalso
    obtain ⟨hprev, hk', c, cs, hc, rfl, -⟩ := gluedAt_eq_some hb
    obtain ⟨hne', hword'⟩ := isWord_kwList hk'
    have hclower := isLower_of_isNameStart hc
    induction prev, t using keywordCollapseRe.induct generalizing a with
    | nil prev => simp at hab
    | put prev g r hg ih =>
      have hgText : gluedAt prev (g.text ++ r) = some g := hg
      have hword := (isWord_kwList (gluedAt_eq_some hgText).2.1).2
      have hne : g.name ≠ [] := by
        obtain ⟨-, -, d, ds, -, -, hname⟩ := gluedAt_eq_some hgText
        simp [hname]
      -- behind the name the pass goes on
      have hbehind : ∀ a' : Text, a = g.keyword ++ (' ' :: (g.name ++ a')) →
          keywordCollapseRe.sub Glued.spaced (lastOf prev (keywordCollapseRe.whole g)) r =
            a' ++ (g'.keyword ++ c :: cs) → False := by
        rintro a' rfl hout
        have hlast : lastOf prev (g.keyword ++ (' ' :: (g.name ++ a'))) =
            lastOf (lastOf prev (keywordCollapseRe.whole g)) a' := by
          show _ = lastOf (lastOf prev (g.keyword ++ g.name)) a'
          rw [lastOf_append, lastOf_cons, lastOf_append, lastOf_append prev,
            lastOf_of_ne hne (some ' ') (lastOf prev g.keyword)]
        rw [hlast] at hprev hb
        exact ih (fun k n k' c h hin => hhides k n k' c h (hin.trans (List.suffix_append ..).isInfix)) hprev hout hb
      rw [SubPattern.sub_put hg, Glued.spaced, List.append_assoc, List.cons_append] at hab
      rcases List.append_eq_append_iff.1 hab with ⟨a', rfl, hrest⟩ | ⟨k, hk, hrest⟩
      · cases a' with
        | nil =>
          obtain ⟨e, k, hkey⟩ := List.exists_cons_of_ne_nil hne'
          rw [List.nil_append, hkey] at hrest
          obtain ⟨rfl, -⟩ := List.cons.inj hrest
          exact hword'.not_mem (c := ' ') (by decide) (by simp [hkey])
        | cons e a' =>
          obtain ⟨rfl, hbody⟩ := List.cons.inj hrest
          rcases List.append_eq_append_iff.1 hbody with ⟨a'', rfl, hout⟩ | ⟨v, hname, hout⟩
          · exact hbehind _ rfl hout
          · by_cases hv : v = []
            · rw [hv, List.append_nil] at hname
              rw [hv, List.nil_append] at hout
              exact hbehind [] (by rw [hname, List.append_nil]) hout.symm
            · by_cases ha : a' = []
              · -- the name begins with no keyword
                obtain ⟨-, -, d, ds, hd, -, hds⟩ := gluedAt_eq_some hgText
                obtain ⟨e, k, hkey⟩ := List.exists_cons_of_ne_nil hne'
                rw [hname, ha, List.nil_append] at hds
                rw [hds, hkey] at hout
                obtain ⟨rfl, -⟩ := List.cons.inj hout
                exact hword'.not_mem (isLower_of_isNameStart hd) (by simp [hkey])
              · have hlast : a'.getLast?.any isLetter = false := by
                  rw [lastOf_append, lastOf_cons, lastOf, List.getLast?_eq_some_getLast ha] at hprev
                  rw [List.getLast?_eq_some_getLast ha]
                  exact hprev
                have hpre : g'.keyword ++ [c] <+: v ++ _ := ⟨cs, by rw [← hout]; simp⟩
                obtain ⟨hhide, hin⟩ := hides_of_name hgText hname ha hk' hc hlast (head?_keywords _ r) hpre
                refine hhides _ _ _ _ hhide ?_
                show _ <:+: g.keyword ++ g.name ++ r
                rw [hname]
                obtain ⟨s, rfl⟩ := hin
                exact ⟨[], s ++ r, by simp⟩
      · exact absurd (word_unique hword' (IsWord.of_append_right (hk ▸ hword)) hclower (by decide) hrest).2.1
          (by rintro rfl; cases hc)
    | copy prev d t hnone ih =>
      cases a with
      | nil =>
        have hpre : g'.keyword ++ [c] <+: keywordCollapseRe.sub Glued.spaced prev (d :: t) := ⟨cs, by rw [hab]; simp⟩
        have hblank : ' ' ∉ g'.keyword ++ [c] := by
          simp only [List.mem_append, List.mem_singleton, not_or]
          exact ⟨hword'.not_mem (by decide), by rintro rfl; cases hc⟩
        rw [Glued.spaced_eq] at hpre
        obtain ⟨s, hs⟩ := prefix_of_apart (tight_of_not_mem hblank) hpre
        have hglued := gluedAt_glued s hprev hk' hc
        rw [show g'.keyword ++ c :: s = d :: t by rw [← hs]; simp] at hglued
        have hnone' : gluedAt prev (d :: t) = none := hnone
        rw [lastOf_nil, hnone'] at hglued
        cases hglued
      | cons e a =>
        rw [SubPattern.sub_copy hnone] at hab
        obtain ⟨rfl, htail⟩ := List.cons.inj hab
        rw [lastOf_cons] at hb hprev
        exact ih (fun k n k' c h hin => hhides k n k' c h (hin.trans (List.suffix_cons d t).isInfix)) hprev htail hb

/-! ### The spellings as torn seams -/

def seams : List Seam :=
  [⟨"static".toList, "_cast".toList, ' ', by decide, by decide, by decide⟩,
    ⟨"dynamic".toList, "_cast".toList, ' ', by decide, by decide, by decide⟩,
    ⟨"const".toList, "_cast".toList, ' ', by decide, by decide, by decide⟩,
    ⟨"reinterpret".toList, "_cast".toList, ' ', by decide, by decide, by decide⟩,
    ⟨"std".toList, "::".toList, ' ', by decide, by decide, by decide⟩,
    ⟨"->".toList, [], ' ', by decide, by decide, by decide⟩]

theorem deterministicSourceFixups_eq : deterministicSourceFixups = seams.map fun s => (s.torn, s.whole) := by decide

theorem applyDeterministicCodeFixes_eq (content language : Text) : applyDeterministicCodeFixes content language =
    seams.foldl (fun t s => s.join t) (keywordCollapseRe.sub Glued.spaced none
      (cppDirectiveRe.sub Directive.spaced none content)) := by
  rw [applyDeterministicCodeFixes, deterministicSourceFixups_eq, List.foldl_map]
  rfl

theorem gap_seams {s : Seam} (hs : s ∈ seams) : s.gap = ' ' := by
  have hall : seams.all (fun s => s.gap = ' ') = true := by decide
  simpa using List.all_eq_true.1 hall s hs

/-- A seam of words, with no letter behind it, or one that begins with no letter. -/
theorem shape_seams {s : Seam} (hs : s ∈ seams) : (IsWord s.left ∧ ∃ d r, s.right = d :: r ∧ d.isLower = false) ∨
    ∃ z r, s.left = z :: r ∧ z.isLower = false := by
  have hall : seams.all (fun s => (s.left.all Char.isLower && s.right.head?.any fun d => !d.isLower) ||
      s.left.head?.any fun z => !z.isLower) = true := by decide
  have h := List.all_eq_true.1 hall s hs
  rw [Bool.or_eq_true, Bool.and_eq_true] at h
  rcases h with ⟨hl, hr⟩ | hl
  · cases hright : s.right with
    | nil => simp [hright] at hr
    | cons d r => exact Or.inl ⟨List.all_eq_true.1 hl, d, r, rfl, by simpa [hright] using hr⟩
  · cases hleft : s.left with
    | nil => simp [hleft] at hl
    | cons z r => exact Or.inr ⟨z, r, rfl, by simpa [hleft] using hl⟩

/-- The casts that are keywords by half. -/
def castWords : List Text := ["static".toList, "const".toList]

def castTail : Text := "_cast".toList

/-- The left half of a seam is no end of a keyword, if it is not one itself; then the seam is a cast. -/
theorem left_keyword {s : Seam} (hs : s ∈ seams) {u : Text} (h : u ++ s.left ∈ kwList) :
    u = [] ∧ s.left ∈ castWords ∧ s.right = castTail := by
  have hall : seams.all (fun s => kwList.all fun k => !s.left.isSuffixOf k ||
      (k = s.left && castWords.contains s.left && s.right = castTail)) = true := by decide
  have hk := List.all_eq_true.1 (List.all_eq_true.1 hall s hs) _ h
  have hsuf : s.left.isSuffixOf (u ++ s.left) = true := List.isSuffixOf_iff_suffix.2 (List.suffix_append u s.left)
  rw [hsuf] at hk
  simpa [and_assoc] using hk

/-- A cast word is no end of the left half of a seam, if it is not the whole of it. -/
theorem cast_left {s : Seam} (hs : s ∈ seams) {u k : Text} (hk : k ∈ castWords) (h : s.left = u ++ k) :
    u = [] ∧ s.right = castTail := by
  have hall : seams.all (fun s => castWords.all fun k => !k.isSuffixOf s.left ||
      (k = s.left && s.right = castTail)) = true := by decide
  have hcast := List.all_eq_true.1 (List.all_eq_true.1 hall s hs) k hk
  have hsuf : k.isSuffixOf s.left = true := List.isSuffixOf_iff_suffix.2 ⟨u, h.symm⟩
  rw [hsuf, h] at hcast
  simpa using hcast

theorem left_directive {s : Seam} (hs : s ∈ seams) {w : Text} (hw : w ∈ cppDirectives) : ¬ s.left <:+ '#' :: w := by
  have hall : seams.all (fun s => cppDirectives.all fun w => !s.left.isSuffixOf ('#' :: w)) = true := by decide
  intro hsuf
  have h := List.all_eq_true.1 (List.all_eq_true.1 hall s hs) w hw
  rw [List.isSuffixOf_iff_suffix.2 hsuf] at h
  cases h

/-- Inside a seam that is put together, a letter stands before every lower case letter. -/
theorem inside_seams {s : Seam} (hs : s ∈ seams) {u v : Text} {c d : Char} (h : s.whole = (u ++ [c]) ++ d :: v)
    (hd : d.isLower = true) : isLetter c = true := by
  have hall : seams.all (fun s => (s.whole.zip s.whole.tail).all fun p => !p.2.isLower || isLetter p.1) = true := by
    decide
  have hpair : (c, d) ∈ s.whole.zip s.whole.tail := by
    rw [h, List.append_assoc, List.singleton_append]
    cases u with
    | nil => simp
    | cons e u =>
      rw [List.cons_append, List.tail_cons, show e :: (u ++ c :: d :: v) = (e :: u) ++ c :: d :: v from rfl,
        show u ++ c :: d :: v = (u ++ [c]) ++ d :: v by simp, List.zip_append (by simp)]
      simp
  have hc := List.all_eq_true.1 (List.all_eq_true.1 hall s hs) _ hpair
  simpa [hd] using hc

theorem lastOf_seam {s : Seam} (hs : s ∈ seams) {prev : Option Char} (h : (lastOf prev s.whole).any isLetter = false) :
    (lastOf prev s.torn).any isLetter = false := by
  have hgap := gap_seams hs
  cases hr : s.right with
  | nil =>
    rw [Seam.torn, hr, hgap, lastOf_concat]
    rfl
  | cons d r =>
    rw [Seam.whole, hr, lastOf_append] at h
    rw [Seam.torn, hr, lastOf_append, lastOf_cons, lastOf_of_ne (by simp) (some s.gap) (lastOf prev s.left)]
    exact h

/-- What joins a seam has no part in a directive, or in another seam. -/
theorem joint_directive {s : Seam} (hs : s ∈ seams) {w : Text} (hw : w ∈ cppDirectives) : ¬ s.joint <:+: w := by
  have hall : seams.all (fun s => cppDirectives.all fun w => !decide (s.joint <:+: w)) = true := by decide
  simpa using List.all_eq_true.1 (List.all_eq_true.1 hall s hs) w hw

theorem joint_right {s : Seam} (hs : s ∈ seams) : ¬ s.joint <:+: s.right := by
  have hall : seams.all (fun s => !decide (s.joint <:+: s.right)) = true := by decide
  simpa using List.all_eq_true.1 hall s hs

theorem joint_torn {s s' : Seam} (hs : s ∈ seams) (hs' : s' ∈ seams) (hne : s.left ≠ s'.left) {v r : Text}
    (hleft : s'.left = v ++ r) : ¬ s.joint <:+: s'.torn ++ (r ++ s'.gap :: s'.right) := by
  have hall : seams.all (fun s => seams.all fun s' => s.left = s'.left ||
      s'.left.tails.all fun r => !decide (s.joint <:+: s'.torn ++ (r ++ s'.gap :: s'.right))) = true := by
    decide +kernel
  have h := List.all_eq_true.1 (List.all_eq_true.1 hall s hs) s' hs'
  rw [Bool.or_eq_true, decide_eq_true_iff, or_iff_right hne, List.all_eq_true] at h
  simpa using h r ((List.mem_tails _ _).2 ⟨v, hleft.symm⟩)

/-! ### Putting the spellings together -/

theorem join_eq_sub (s : Seam) (t : Text) :
    s.join t = (literal s.torn s.torn_ne).sub (fun _ => s.whole) none t := replace_eq_sub s.torn_ne

theorem not_mem_whole {s : Seam} {c : Char} (hc : c ∉ s.torn) : c ∉ s.whole := by
  rw [Seam.torn, List.mem_append, List.mem_cons, not_or, not_or] at hc
  rw [Seam.whole, List.mem_append, not_or]
  exact ⟨hc.1, hc.2.2⟩

theorem respaces_join {s : Seam} (hs : s ∈ seams) : Respaces (literal s.torn s.torn_ne) fun _ => s.whole where
  hash := by
    intro _ _ _ _
    have hall : seams.all (fun s => !s.torn.contains '#') = true := by decide
    have htorn : '#' ∉ s.torn := by simpa using List.all_eq_true.1 hall s hs
    exact ⟨htorn, not_mem_whole htorn⟩
  solid := by
    intro _ _ _ _
    show s.whole.filter isSolid = s.torn.filter isSolid
    rw [Seam.whole, Seam.torn, List.filter_append, List.filter_append, gap_seams hs]
    rfl
  head := by
    intro _ _ _ _
    have hall : seams.all (fun s => s.left.head?.any fun c => !isSpace c) = true := by decide
    have h := List.all_eq_true.1 hall s hs
    obtain ⟨c, x, hx⟩ := List.exists_cons_of_ne_nil s.left_ne
    rw [hx] at h
    exact ⟨c, x ++ s.right, by rw [Seam.whole, hx]; rfl, by simpa using h⟩
  directive := by
    intro w u v hw hv prev r
    refine if_neg fun hpre => ?_
    have hblank : ' ' ∉ v := fun hmem => by
      have hin : ' ' ∈ '#' :: w := hv ▸ List.mem_append_right u hmem
      rcases List.mem_cons.1 hin with heq | hin
      · exact absurd heq (by decide)
      · exact (isWord_cppDirectives hw).2.not_mem (by decide) hin
    have hgap := gap_seams hs
    rw [Seam.torn, hgap] at hpre
    obtain ⟨x, hx, hrest⟩ := gap_behind hblank hpre
    cases x with
    | nil => exact left_directive hs hw ⟨u, by rw [hx, hv, List.append_nil]⟩
    | cons c x =>
      obtain ⟨rfl, -⟩ := List.cons_prefix_cons.1 hrest
      exact s.left_gap (by rw [hgap, hx]; simp)
  words := by
    intro w hw prev t h
    rw [sub_literal_fresh, ← join_eq_sub] at h
    exact Seam.prefix_of_join (joint_directive hs hw) h

/-- Only casts are glued: what the pass over the keywords puts apart is put together again. -/
def CastsOnly (prev : Option Char) (t : Text) : Prop := ∀ a b g, t = a ++ b → gluedAt (lastOf prev a) b = some g →
  g.keyword ∈ castWords ∧ g.keyword ++ castTail <+: b

/-- A word and what is glued to it were there before, or the word ends with a half of a torn seam. -/
theorem glued_of_join {s : Seam} (hs : s ∈ seams) {c : Char} (hc : c.isLower = false) : ∀ {t k : Text}, IsWord k →
    k ++ [c] <+: s.join t → k ++ [c] <+: t ∨ ∃ u, k = u ++ s.left ∧ (u = [] → s.torn <+: t) := by
  intro t
  induction t using replace_induct s.torn_ne with
  | nil => intro k _ h; simp at h
  | put r ih =>
    intro k hk h
    rw [Seam.join_put] at h
    obtain ⟨q, hq⟩ := h
    rcases shape_seams hs with ⟨hleft, d, right, hright, hd⟩ | ⟨z, left, hleft, hz⟩
    · rw [hright, List.append_assoc] at hq
      obtain ⟨rfl, -⟩ := word_unique hk hleft hc hd hq
      exact Or.inr ⟨[], rfl, fun _ => List.prefix_append ..⟩
    · rw [hleft, List.append_assoc] at hq
      obtain ⟨rfl, rfl, -⟩ := word_unique (w := []) hk (fun _ hmem => absurd hmem List.not_mem_nil) hc hz hq
      rw [Seam.torn, hleft]
      exact Or.inl ⟨left ++ s.gap :: s.right ++ r, by simp⟩
  | copy d t hnot ih =>
    intro k hk h
    cases k with
    | nil =>
      rw [Seam.join_copy hnot] at h
      obtain ⟨rfl, -⟩ := List.cons_prefix_cons.1 h
      exact Or.inl ⟨t, rfl⟩
    | cons e k =>
      rw [Seam.join_copy hnot] at h
      obtain ⟨rfl, htail⟩ := List.cons_prefix_cons.1 h
      rcases ih (fun x hx => hk x (List.mem_cons_of_mem _ hx)) htail with hpre | ⟨u, rfl, -⟩
      · exact Or.inl (List.cons_prefix_cons.2 ⟨rfl, hpre⟩)
      · exact Or.inr ⟨e :: u, rfl, fun hu => by cases hu⟩

theorem gluedAt_of_prev {prev prev' : Option Char} {t : Text} {g : Glued} (h : gluedAt prev t = some g)
    (hprev : prev.any isLetter = false → prev'.any isLetter = false) : gluedAt prev' t = some g := by
  have hopens := (gluedAt_eq_some h).1
  rw [gluedAt, if_neg (by simp [hprev hopens])]
  rwa [gluedAt, if_neg (by simp [hopens])] at h

theorem CastsOnly.behind {prev : Option Char} {u r : Text} (h : CastsOnly prev (u ++ r)) :
    CastsOnly (lastOf prev u) r := fun a b g hr hg =>
  h (u ++ a) b g (by rw [hr, List.append_assoc]) (by rw [lastOf_append]; exact hg)

/-- CASTS: putting a spelling together glues nothing but casts. -/
theorem CastsOnly.join {s : Seam} (hs : s ∈ seams) {prev : Option Char} {t : Text} (h : CastsOnly prev t) :
    CastsOnly prev (s.join t) := by
  intro a b g hab hg
  obtain ⟨hprev, hk, c, cs, hc, rfl, -⟩ := gluedAt_eq_some hg
  obtain ⟨hne, hword⟩ := isWord_kwList hk
  have hclower := isLower_of_isNameStart hc
  induction t using replace_induct s.torn_ne generalizing prev a with
  | nil => simp at hab
  | put r ih =>
    have hput : s.whole ++ s.join r = a ++ (g.keyword ++ c :: cs) := by
      rw [← hab, Seam.join_put, ← List.append_assoc]
      rfl
    -- behind the seam nothing but the character before it has changed
    have hbehind : ∀ a' : Text, a = s.whole ++ a' → s.join r = a' ++ (g.keyword ++ c :: cs) →
        g.keyword ∈ castWords ∧ g.keyword ++ castTail <+: g.keyword ++ c :: cs := by
      rintro a' rfl hrest
      have hprev' : (lastOf (lastOf prev s.torn) a').any isLetter = false := by
        rw [lastOf_append] at hprev
        by_cases ha : a' = []
        · rw [ha, lastOf_nil] at hprev ⊢
          exact lastOf_seam hs hprev
        · rwa [lastOf_of_ne ha (lastOf prev s.torn) (lastOf prev s.whole)]
      exact ih h.behind a' hprev' hrest (gluedAt_of_prev hg fun _ => hprev')
    rcases List.append_eq_append_iff.1 hput with ⟨a', ha, hrest⟩ | ⟨v, hwhole, hrest⟩
    · exact hbehind a' ha hrest
    · obtain ⟨e, k, hkey⟩ := List.exists_cons_of_ne_nil hne
      cases v with
      | nil => exact hbehind [] (by rw [hwhole]; simp) hrest.symm
      | cons d v =>
        rcases List.eq_nil_or_concat a with rfl | ⟨a, f, rfl⟩
        · rw [List.nil_append] at hwhole
          rw [← hwhole, show s.whole = s.left ++ s.right from rfl] at hrest
          rcases shape_seams hs with ⟨hleft, d', right, hright, hd⟩ | ⟨z, left, hleft, hz⟩
          · rw [hright, List.append_assoc] at hrest
            obtain ⟨hkleft, -, -⟩ := word_unique hword hleft hclower hd hrest
            rw [hkleft] at hk
            obtain ⟨-, hcast, htail⟩ := left_keyword (u := []) hs hk
            rw [← hkleft] at hcast
            refine ⟨hcast, ?_⟩
            rw [hrest, hkleft, ← htail, hright]
            exact ⟨s.join r, by simp⟩
          · rw [hleft, hkey] at hrest
            obtain ⟨rfl, -⟩ := List.cons.inj hrest
            exact absurd (by simp [hkey]) (hword.not_mem hz)
        · rw [hkey] at hrest
          obtain ⟨rfl, -⟩ := List.cons.inj hrest
          rw [List.concat_eq_append] at hwhole hprev
          rw [lastOf_concat, Option.any_some, inside_seams hs hwhole (hword e (by simp [hkey]))] at hprev
          cases hprev
  | copy d t hnot ih =>
    cases a with
    | nil =>
      rw [List.nil_append] at hab
      have hpre : g.keyword ++ [c] <+: s.join (d :: t) := ⟨cs, by rw [hab]; simp⟩
      rcases glued_of_join hs hclower hword hpre with ⟨r, hr⟩ | ⟨u, hu, htorn⟩
      · have hglued := gluedAt_glued r hprev hk hc
        have hr' : g.keyword ++ c :: r = d :: t := by rw [← hr]; simp
        rw [hr'] at hglued
        obtain ⟨hcast, htail⟩ := h [] (d :: t) _ rfl hglued
        refine ⟨hcast, ?_⟩
        rw [← hab]
        refine Seam.prefix_join ?_ htail
        rw [gap_seams hs, List.mem_append, not_or]
        exact ⟨hword.not_mem (by decide), by decide⟩
      · rw [hu] at hk
        exact absurd (htorn (left_keyword hs hk).1) hnot
    | cons e a =>
      rw [Seam.join_copy hnot] at hab
      obtain ⟨rfl, htail⟩ := List.cons.inj hab
      rw [lastOf_cons] at hg hprev
      exact ih (h.behind (u := [d])) a hprev htail hg

/-! ### What is put apart is put together again -/

/-- A seam that stands nowhere in a text does not begin in the part of it that is copied. -/
theorem join_skip (s : Seam) {r : Text} : ∀ {w : Text},
    (∀ u v, w = u ++ v → v ≠ [] → ¬ s.torn <+: v ++ r) → s.join (w ++ r) = w ++ s.join r
  | [], _ => rfl
  | c :: w, h => by
    have hnot : ¬ s.torn <+: c :: (w ++ r) := h [] (c :: w) rfl (by simp)
    rw [List.cons_append, Seam.join_copy hnot, join_skip s fun u v hw => h (c :: u) v (by rw [hw]; rfl)]
    rfl

/-- A seam does not begin in what has no blank, unless it stood there before the pass over the keywords. -/
theorem torn_of_text {s : Seam} (hs : s ∈ seams) {prev : Option Char} {r v : Text} (hr : CastsOnly prev r)
    (hv : ' ' ∉ v) (hne : v ≠ []) (h : s.torn <+: v ++ keywordCollapseRe.sub (Glued.apart S) prev r) :
    s.torn <+: v ++ r := by
  have hgap := gap_seams hs
  have hleft := s.left_gap
  have hright := s.right_gap
  rw [hgap] at hleft hright
  rw [Seam.torn, hgap] at h ⊢
  obtain ⟨x, hx, hrest⟩ := gap_behind hv h
  have hxblank : ' ' ∉ x := fun hmem => hleft (by rw [hx]; exact List.mem_append_right v hmem)
  rw [hx, List.append_assoc]
  refine (List.prefix_append_right_inj v).2 ?_
  rcases torn_of_apart hxblank hright hrest with hpre | ⟨x', g, t', rfl, rfl, -, hg⟩
  · exact hpre
  · rw [← List.append_assoc] at hx
    have hnil := (cast_left hs (hr x' t' g rfl hg).1 hx).1
    exact absurd (List.append_eq_nil_iff.1 hnil).1 hne

theorem castTail_name {prev : Option Char} {g : Glued} {r : Text} (hg : gluedAt prev (g.text ++ r) = some g)
    (h : g.keyword ++ castTail <+: g.text ++ r) : castTail <+: g.name := by
  rw [Glued.text, List.append_assoc, List.prefix_append_right_inj] at h
  rcases prefix_append_cases h with hname | ⟨q, hq, hrest⟩
  · exact hname
  · cases q with
    | nil => rw [hq, List.append_nil]
    | cons c q =>
      obtain ⟨s, rfl⟩ := hrest
      have hall : castTail.all isNamePart = true := by decide
      have hpart := List.all_eq_true.1 hall c (by rw [hq]; simp)
      rw [gluedAt_maximal hg c rfl] at hpart
      cases hpart

/-- JOIN: the seam of a keyword is put together again, and all the others stay as they are. -/
theorem join_apart {s : Seam} (hs : s ∈ seams) {prev : Option Char} {t : Text} (hc : CastsOnly prev t)
    (habsent : ¬ s.torn <:+: t) : s.join (keywordCollapseRe.sub (Glued.apart S) prev t) =
      keywordCollapseRe.sub (Glued.apart fun k => S k && k ≠ s.left) prev t := by
  have hgap := gap_seams hs
  induction prev, t using keywordCollapseRe.induct with
  | nil prev => exact s.join_nil
  | put prev g r hg ih =>
    have hg' : gluedAt prev (g.text ++ r) = some g := hg
    have hword := (isWord_kwList (gluedAt_eq_some hg').2.1).2
    obtain ⟨hcast, htail⟩ := hc [] _ g rfl hg'
    have hr : CastsOnly (lastOf prev (keywordCollapseRe.whole g)) r := hc.behind
    have hjoin := ih hr fun hin => habsent (hin.trans (List.suffix_append ..).isInfix)
    have hblank : ' ' ∉ g.keyword ++ g.name := by
      rw [List.mem_append, not_or]
      exact ⟨hword.not_mem (by decide), not_mem_name hg' (by decide)⟩
    -- what has no blank is skipped
    have hskip : ∀ {u v : Text}, g.keyword ++ g.name = u ++ v →
        s.join (v ++ keywordCollapseRe.sub (Glued.apart S) (lastOf prev (keywordCollapseRe.whole g)) r) =
          v ++ s.join (keywordCollapseRe.sub (Glued.apart S) (lastOf prev (keywordCollapseRe.whole g)) r) := by
      intro u v huv
      refine join_skip s fun u' v' hv' hne hpre => habsent ?_
      have htext : g.keyword ++ g.name = (u ++ u') ++ v' := by rw [huv, hv', List.append_assoc]
      have hv'blank : ' ' ∉ v' := fun hmem => hblank (by rw [htext]; exact List.mem_append_right _ hmem)
      show _ <:+: g.keyword ++ g.name ++ r
      rw [htext, List.append_assoc]
      exact (torn_of_text hs hr hv'blank hne hpre).isInfix.trans (List.suffix_append ..).isInfix
    rw [SubPattern.sub_put hg, SubPattern.sub_put hg, ← hjoin, Glued.apart, Glued.apart]
    cases hS : S g.keyword with
    | false =>
      have hall := hskip (u := []) rfl
      simpa using hall
    | true =>
      by_cases hkey : g.keyword = s.left
      · rw [hkey] at hcast
        have hright := (cast_left hs (u := []) hcast rfl).2
        obtain ⟨n, hn⟩ := castTail_name hg' htail
        have htorn : g.keyword ++ ([' '] ++ g.name) = s.torn ++ n := by
          rw [hkey, ← hn, Seam.torn, hright, hgap]
          simp
        have hn' := hskip (u := g.keyword ++ castTail) (v := n) (by rw [← hn, List.append_assoc])
        rw [if_pos rfl, if_neg (by simp [hkey]), htorn, List.append_assoc, Seam.join_put, hn', hkey, ← hn, hright]
        simp
      · have hback : ∀ out : Text, s.join (g.keyword ++ [' '] ++ (g.name ++ out)) =
            g.keyword ++ [' '] ++ s.join (g.name ++ out) := by
          refine fun out => join_skip s fun u v huv hne hpre => ?_
          obtain ⟨v, c, rfl⟩ := (List.eq_nil_or_concat v).resolve_left hne
          rw [List.concat_eq_append, ← List.append_assoc] at huv
          obtain ⟨hkw, hc'⟩ := List.append_inj' huv rfl
          obtain ⟨rfl, -⟩ := List.cons.inj hc'
          have hvblank : ' ' ∉ v := fun hmem =>
            hword.not_mem (c := ' ') (by decide) (by rw [hkw]; exact List.mem_append_right u hmem)
          rw [List.concat_eq_append, List.append_assoc, Seam.torn, hgap] at hpre
          obtain ⟨x, hx, hrest⟩ := gap_behind hvblank hpre
          cases x with
          | nil =>
            rw [List.append_nil] at hx
            rw [← hx] at hkw
            have hnil := (left_keyword hs (hkw ▸ (gluedAt_eq_some hg').2.1)).1
            exact hkey (by rw [hkw, hnil, List.nil_append])
          | cons d x =>
            obtain ⟨rfl, -⟩ := List.cons_prefix_cons.1 hrest
            exact s.left_gap (by rw [hgap, hx]; simp)
        rw [if_pos rfl, if_pos (by simp [hkey])]
        have hall := hback (keywordCollapseRe.sub (Glued.apart S) (lastOf prev (keywordCollapseRe.whole g)) r)
        rw [hskip (u := g.keyword) rfl] at hall
        simpa using hall
  | copy prev c t hnone ih =>
    have hjoin := ih (hc.behind (u := [c])) fun hin => habsent (hin.trans (List.suffix_cons c t).isInfix)
    have hsub : keywordCollapseRe.sub (Glued.apart S) prev (c :: t) = c :: _ := SubPattern.sub_copy hnone
    rw [hsub, SubPattern.sub_copy hnone, Seam.join_copy, hjoin]
    intro hpre
    rw [← hsub, Seam.torn, hgap] at hpre
    have hleft := s.left_gap
    have hright := s.right_gap
    rw [hgap] at hleft hright
    rcases torn_of_apart hleft hright hpre with hpre | ⟨x', g, t', hx, ht, -, hg⟩
    · rw [← hgap] at hpre
      exact habsent hpre.isInfix
    · have hnil := (cast_left hs (hc x' t' g ht hg).1 hx).1
      rw [hnil, lastOf_nil] at hg
      rw [hnil, List.nil_append] at ht
      rw [← ht] at hg
      have hnone' : gluedAt prev (c :: t) = none := hnone
      rw [hnone'] at hg
      cases hg

theorem foldl_join_apart {ss : List Seam} (hss : ∀ s ∈ ss, s ∈ seams) {prev : Option Char} {t : Text}
    (hc : CastsOnly prev t) (habsent : ∀ s ∈ ss, ¬ s.torn <:+: t) :
    ss.foldl (fun t s => s.join t) (keywordCollapseRe.sub (Glued.apart S) prev t) =
      keywordCollapseRe.sub (Glued.apart fun k => S k && k ∉ ss.map Seam.left) prev t := by
  induction ss generalizing S with
  | nil => simp
  | cons s ss ih =>
    rw [List.foldl_cons, join_apart (hss s List.mem_cons_self) hc (habsent s List.mem_cons_self),
      ih (fun s' hs' => hss s' (List.mem_cons_of_mem _ hs')) fun s' hs' => habsent s' (List.mem_cons_of_mem _ hs')]
    congr 2
    funext k
    rw [List.map_cons, Bool.and_assoc]
    congr 1
    simp [not_or]

/-- FIXED: what the fixes leave as it is. -/
theorem applyDeterministicCodeFixes_of {t : Text} (language : Text) (hspaced : Spaced t) (hc : CastsOnly none t)
    (habsent : ∀ s ∈ seams, ¬ s.torn <:+: t) : applyDeterministicCodeFixes t language = t := by
  rw [applyDeterministicCodeFixes_eq, hspaced.sub_eq, Glued.spaced_eq, foldl_join_apart (fun s hs => hs) hc habsent]
  refine SubPattern.sub_eq_self fun a b g ht hg => ?_
  have hcast := (hc a b g ht hg).1
  have hall : castWords.all (fun k => (seams.map Seam.left).contains k) = true := by decide
  have hmem : g.keyword ∈ seams.map Seam.left := by simpa using List.all_eq_true.1 hall _ hcast
  show g.keyword ++ _ = g.keyword ++ g.name
  rw [if_neg (by simp only [Bool.true_and, decide_eq_true_eq, not_not]; exact hmem), List.nil_append]

/-! ### Once is enough -/

/-- No seam runs into the next. -/
def Mendable (s : Seam) (t : Text) : Prop :=
  ∀ u v r, s.whole = u ++ v → v ≠ [] → s.left = v ++ r → ¬ s.torn ++ (r ++ s.gap :: s.right) <:+: t

theorem Mendable.join {s s' : Seam} (hs : s ∈ seams) (hs' : s' ∈ seams) (hne : s.left ≠ s'.left) {t : Text}
    (h : Mendable s' t) : Mendable s' (s.join t) := fun u v r hwhole hv hleft hin =>
  h u v r hwhole hv hleft (Seam.infix_of_join (joint_torn hs hs' hne hleft) hin)

/-- MENDED: behind all the passes no seam is torn. -/
theorem torn_foldl {ss : List Seam} (hss : ∀ s ∈ ss, s ∈ seams) (hnodup : (ss.map Seam.left).Nodup) {t : Text}
    (hmend : ∀ s ∈ ss, Mendable s t) : (∀ s ∈ ss, ¬ s.torn <:+: ss.foldl (fun t s => s.join t) t) ∧
      ∀ s' ∈ seams, s'.left ∉ ss.map Seam.left → ¬ s'.torn <:+: t →
        ¬ s'.torn <:+: ss.foldl (fun t s => s.join t) t := by
  induction ss generalizing t with
  | nil => exact ⟨fun s hs => absurd hs List.not_mem_nil, fun _ _ _ h => h⟩
  | cons s ss ih =>
    have hs := hss s List.mem_cons_self
    rw [List.map_cons, List.nodup_cons] at hnodup
    have hmend' : ∀ s' ∈ ss, Mendable s' (s.join t) := fun s' hs' =>
      (hmend s' (List.mem_cons_of_mem _ hs')).join hs (hss s' (List.mem_cons_of_mem _ hs'))
        fun heq => hnodup.1 (heq ▸ List.mem_map_of_mem hs')
    obtain ⟨hmended, hkept⟩ := ih (fun s' hs' => hss s' (List.mem_cons_of_mem _ hs')) hnodup.2 hmend'
    rw [List.foldl_cons]
    constructor
    · intro s' hs'
      rcases List.mem_cons.1 hs' with rfl | hs'
      · exact hkept s' hs hnodup.1 (Seam.not_torn_join (joint_right hs) (hmend s' List.mem_cons_self))
      · exact hmended s' hs'
    · intro s' hs' hleft habsent
      rw [List.map_cons, List.mem_cons, not_or] at hleft
      refine hkept s' hs' hleft.2 fun hin => habsent (Seam.infix_of_join ?_ hin)
      intro hjoint
      exact joint_torn hs hs' (fun heq => hleft.1 heq.symm) (v := []) (r := s'.left) rfl
        (hjoint.trans ⟨[], s'.left ++ s'.gap :: s'.right, by simp⟩)

theorem CastsOnly.foldl {ss : List Seam} (hss : ∀ s ∈ ss, s ∈ seams) {prev : Option Char} {t : Text}
    (h : CastsOnly prev t) : CastsOnly prev (ss.foldl (fun t s => s.join t) t) := by
  induction ss generalizing t with
  | nil => exact h
  | cons s ss ih => exact ih (fun s' hs' => hss s' (List.mem_cons_of_mem _ hs')) (h.join (hss s List.mem_cons_self))

theorem Spaced.foldl {ss : List Seam} (hss : ∀ s ∈ ss, s ∈ seams) {t : Text} (h : Spaced t) :
    Spaced (ss.foldl (fun t s => s.join t) t) := by
  induction ss generalizing t with
  | nil => exact h
  | cons s ss ih =>
    refine ih (fun s' hs' => hss s' (List.mem_cons_of_mem _ hs')) ?_
    show Spaced (s.join t)
    rw [join_eq_sub]
    exact h.sub (respaces_join (hss s List.mem_cons_self)) none

/-- What the fixes would take apart in one step and put together in another, or in more than one step: blanks behind an
    arrow, a spelling that runs into the next, and a name that hides a keyword. -/
structure Settles (t : Text) : Prop where
  arrow : ¬ "->  ".toList <:+: t
  cast : ¬ "_castatic _cast".toList <:+: t
  hides : ∀ k n k' c, Hides k n k' c → ¬ k ++ (n ++ (k' ++ [c])) <:+: t

theorem mendable_of {s : Seam} (hs : s ∈ seams) {t : Text} (harrow : ¬ "->  ".toList <:+: t)
    (hcast : ¬ "_castatic _cast".toList <:+: t) : Mendable s t := by
  have hall : seams.all (fun s => s.left.tails.all fun r => s.left.inits.all fun v =>
      decide (v = [] ∨ ¬ s.left = v ++ r ∨ ¬ v <:+ s.whole ∨
        "->  ".toList <:+: s.torn ++ (r ++ s.gap :: s.right) ∨
        "_castatic _cast".toList <:+: s.torn ++ (r ++ s.gap :: s.right))) = true := by decide +kernel
  intro u v r hwhole hv hleft hin
  have h := List.all_eq_true.1 (List.all_eq_true.1 (List.all_eq_true.1 hall s hs) r
    ((List.mem_tails _ _).2 ⟨v, hleft.symm⟩)) v ((List.mem_inits _ _).2 ⟨r, hleft.symm⟩)
  rcases of_decide_eq_true h with hnil | hnot | hnot | ha | hb
  · exact hv hnil
  · exact hnot hleft
  · exact hnot ⟨u, hwhole.symm⟩
  · exact harrow (ha.trans hin)
  · exact hcast (hb.trans hin)

theorem castsOnly_of_none {prev : Option Char} {t : Text} (h : ∀ a b, t = a ++ b → gluedAt (lastOf prev a) b = none) :
    CastsOnly prev t := fun a b g ht hg => by
  rw [h a b ht] at hg
  cases hg

/-- ONCE: on such a text the fixes do nothing the second time. -/
theorem applyDeterministicCodeFixes_idempotent {t : Text} (language : Text) (h : Settles t) :
    applyDeterministicCodeFixes (applyDeterministicCodeFixes t language) language =
      applyDeterministicCodeFixes t language := by
  obtain ⟨harrow, hcast, hhides⟩ := h
  have hnil : IsWord [] := fun _ hmem => absurd hmem List.not_mem_nil
  -- what the hypotheses speak of is not brought about by the first two passes
  have hhides' : ∀ k n k' c, Hides k n k' c →
      ¬ k ++ (n ++ (k' ++ [c])) <:+: cppDirectiveRe.sub Directive.spaced none t := by
    intro k n k' c h hin
    refine hhides k n k' c h ?_
    obtain ⟨z, n, rfl⟩ : ∃ z m, n = z :: m := by
      cases n with
      | nil => exact absurd h.start (by simp)
      | cons z m => exact ⟨z, m, rfl⟩
    have hz : isNameStart z = true := by simpa using h.start
    have hhash : '#' ∉ k ++ z :: (n ++ (k' ++ [c])) := by
      have hk := (isWord_kwList h.keyword).2.not_mem (c := '#') (by decide)
      have hk' := (isWord_kwList h.inner).2.not_mem (c := '#') (by decide)
      have hn : '#' ∉ z :: n := fun hmem => absurd (h.parts '#' hmem) (by decide)
      have hc : '#' ≠ c := by
        rintro rfl
        exact absurd h.glued (by decide)
      rw [← List.cons_append]
      simp only [List.mem_append, List.mem_singleton, hk, hn, hk', hc, or_self, not_false_eq_true]
    refine infix_of_directives (isWord_kwList h.keyword).2 (isLower_of_isNameStart hz) ?_ hhash hin
    rintro rfl
    exact absurd hz (by decide)
  have harrow' : ¬ "->  ".toList <:+: keywordCollapseRe.sub Glued.spaced none
      (cppDirectiveRe.sub Directive.spaced none t) := by
    have htight : Tight "->  ".toList := by
      intro c hc hin
      have hmem : c ∈ "->  ".toList := hin.subset (by simp)
      have hall : "->  ".toList.all (fun d => !d.isLower) = true := by decide
      have hlower := List.all_eq_true.1 hall c hmem
      rw [hc] at hlower
      cases hlower
    exact fun hin => harrow (infix_of_directives hnil (by decide) (by decide) (by decide)
      (infix_of_keywords (by decide) (by decide) htight hin))
  have hcast' : ¬ "_castatic _cast".toList <:+: keywordCollapseRe.sub Glued.spaced none
      (cppDirectiveRe.sub Directive.spaced none t) := by
    have hletters : ∀ c ∈ "castatic".toList, isLetter c = true := List.all_eq_true.1 (by decide)
    exact fun hin => hcast (infix_of_directives hnil (by decide) (by decide) (by decide)
      (torn_of_keywords (y := castTail) hletters (by decide) hin))
  have hspaced := (spaced_directives none t).sub respaces_keywords none
  have hcasts : CastsOnly none (keywordCollapseRe.sub Glued.spaced none (cppDirectiveRe.sub Directive.spaced none t)) :=
    castsOnly_of_none fun a b hab => gluedAt_keywords hhides' hab
  have hnodup : (seams.map Seam.left).Nodup := by decide
  have htorn := (torn_foldl (fun s hs => hs) hnodup fun s hs => mendable_of hs harrow' hcast').1
  rw [applyDeterministicCodeFixes_eq t language]
  exact applyDeterministicCodeFixes_of language (hspaced.foldl fun s hs => hs) (hcasts.foldl fun s hs => hs) htorn

/-! ### What the fixes leave alone -/

/-- Behind a directive: one blank and then no white space, or nothing but white space up to the end of the text, where
    the directive does not begin with a shorter one. -/
def inOrder (word rest : Text) : Bool :=
  (match rest with
    | ' ' :: c :: _ => !isSpace c
    | _ => false) ||
    rest.all isSpace && word ≠ "ifndef".toList && word ≠ "ifdef".toList

def unspacedDirective : Text → Bool
  | '#' :: t => (cppDirectives.find? fun w => w.isPrefixOf t).any fun w => !inOrder w (t.drop w.length)
  | _ => false

/-- A keyword with a name behind it and no letter before it; `static_cast` and `const_cast` are no such thing. -/
def gluedKeyword (prev : Option Char) (t : Text) : Bool :=
  !prev.any isLetter && kwList.any fun k => k.isPrefixOf t && (t.drop k.length).head?.any isNameStart &&
    !(castWords.contains k && castTail.isPrefixOf (t.drop k.length))

def tornSpelling (t : Text) : Bool := deterministicSourceFixups.any fun p => p.1.isPrefixOf t

/-- Nowhere in the text is there something to fix. -/
def Untriggered (t : Text) : Prop := ∀ a b, t = a ++ b →
  unspacedDirective b = false ∧ gluedKeyword a.getLast? b = false ∧ tornSpelling b = false

instance (t : Text) : Decidable (Untriggered t) :=
  decidable_of_iff (∀ n < t.length + 1, unspacedDirective (t.drop n) = false ∧
      gluedKeyword (t.take n).getLast? (t.drop n) = false ∧ tornSpelling (t.drop n) = false) <| by
    constructor
    · rintro h a b rfl
      have hn := h a.length (by rw [List.length_append]; omega)
      rwa [List.drop_left, List.take_left] at hn
    · exact fun h n _ => h _ _ (List.take_append_drop n t).symm

theorem inOrder_cases {word rest : Text} (h : inOrder word rest = true) :
    (∃ c s, rest = ' ' :: c :: s ∧ isSpace c = false) ∨
      (∀ c ∈ rest, isSpace c = true) ∧ word ≠ "ifndef".toList ∧ word ≠ "ifdef".toList := by
  unfold inOrder at h
  rw [Bool.or_eq_true] at h
  rcases h with h | h
  · split at h
    · exact Or.inl ⟨_, _, rfl, by simpa using h⟩
    · cases h
  · simp only [Bool.and_eq_true, decide_eq_true_eq, List.all_eq_true] at h
    exact Or.inr ⟨h.1.1, h.1.2, h.2⟩

/-- A directive begins with no other one, these two apart. -/
theorem cppDirectives_prefix {v w : Text} (hv : v ∈ cppDirectives) (hw : w ∈ cppDirectives) (h : v <+: w) :
    v = w ∨ w = "ifndef".toList ∨ w = "ifdef".toList := by
  have hall : cppDirectives.all (fun v => cppDirectives.all fun w =>
      decide (¬ v <+: w ∨ v = w ∨ w = "ifndef".toList ∨ w = "ifdef".toList)) = true := by decide
  exact (of_decide_eq_true (List.all_eq_true.1 (List.all_eq_true.1 hall v hv) w hw)).resolve_left (not_not_intro h)

theorem spaced_of_inOrder {t : Text} (h : ∀ a b, t = a ++ b → unspacedDirective b = false) : Spaced t := by
  induction hn : t.length using Nat.strong_induction_on generalizing t with
  | _ n ih =>
    cases t with
    | nil => exact .nil
    | cons c t =>
      cases hd : directiveAt (c :: t) with
      | none =>
        refine .copy hd (ih t.length (by rw [← hn]; exact Nat.lt_succ_self _) (fun a b ht => ?_) rfl)
        exact h (c :: a) b (by rw [ht]; rfl)
      | some d =>
        obtain ⟨hdw, hgap, hnext, r, hr⟩ := directiveAt_eq_some hd
        rw [Directive.text_eq, List.cons_append] at hr
        obtain ⟨rfl, rfl⟩ := List.cons.inj hr
        have hfirst := h [] _ rfl
        rw [unspacedDirective] at hfirst
        have hdpre : d.word <+: d.word ++ d.gap ++ [d.next] ++ r := ⟨d.gap ++ [d.next] ++ r, by simp⟩
        cases hfind : cppDirectives.find? fun w => w.isPrefixOf (d.word ++ d.gap ++ [d.next] ++ r) with
        | none => exact absurd (List.isPrefixOf_iff_prefix.2 hdpre) (List.find?_eq_none.1 hfind d.word hdw)
        | some w =>
          have hw := List.mem_of_find?_eq_some hfind
          have hwpre : w.isPrefixOf (d.word ++ d.gap ++ [d.next] ++ r) = true :=
            List.find?_some (p := fun w : Text => w.isPrefixOf (d.word ++ d.gap ++ [d.next] ++ r)) hfind
          obtain ⟨rest, hrest⟩ := List.isPrefixOf_iff_prefix.1 hwpre
          rw [hfind, ← hrest, Option.any_some, List.drop_left, Bool.not_eq_false'] at hfirst
          rw [← hrest] at h hn ⊢
          rcases inOrder_cases hfirst with ⟨e, s, rfl, he⟩ | ⟨hblank, hlong⟩
          · refine .block hw he (ih s.length ?_ (fun a b hs => ?_) rfl)
            · rw [← hn]
              simp
              omega
            · exact h ('#' :: (w ++ ' ' :: e :: a)) b (by rw [hs]; simp)
          · -- only white space is left, and the words of the list are all different there
            exfalso
            have hdword : d.word <+: w := by
              rw [← hrest] at hdpre
              cases rest with
              | nil => rwa [List.append_nil] at hdpre
              | cons e s =>
                have he := hblank e List.mem_cons_self
                exact word_prefix (isWord_cppDirectives hdw).2 (isLower_of_isSpace he) hdpre
            have hsame := cppDirectives_prefix hdw hw hdword
            obtain rfl := hsame.resolve_right (not_or.2 hlong)
            rw [List.append_assoc, List.append_assoc, List.append_cancel_left_eq] at hrest
            rw [hblank d.next (by rw [hrest]; simp)] at hnext
            cases hnext

theorem Untriggered.castsOnly {t : Text} (h : Untriggered t) : CastsOnly none t := by
  intro a b g ht hg
  obtain ⟨hprev, hk, c, cs, hc, rfl, -⟩ := gluedAt_eq_some hg
  have hglued := (h a _ ht).2.1
  rw [lastOf, Option.or_none] at hprev
  rw [gluedKeyword, hprev, Bool.not_false, Bool.true_and, List.any_eq_false] at hglued
  have hkey := hglued g.keyword hk
  rw [List.isPrefixOf_iff_prefix.2 (List.prefix_append ..), List.drop_left, List.head?_cons, Option.any_some,
    hc] at hkey
  simp only [Bool.true_and, Bool.not_eq_true, Bool.not_eq_false', Bool.and_eq_true, List.contains_iff_mem,
    List.isPrefixOf_iff_prefix] at hkey
  exact ⟨hkey.1, (List.prefix_append_right_inj _).2 hkey.2⟩

theorem Untriggered.torn {t : Text} (h : Untriggered t) {s : Seam} (hs : s ∈ seams) : ¬ s.torn <:+: t := by
  rintro ⟨a, b, rfl⟩
  have hspelled := (h a (s.torn ++ b) (by rw [List.append_assoc])).2.2
  rw [tornSpelling, deterministicSourceFixups_eq, List.any_eq_false] at hspelled
  exact hspelled (s.torn, s.whole) (List.mem_map_of_mem hs) (List.isPrefixOf_iff_prefix.2 (List.prefix_append ..))

/-- UNTRIGGERED: what has nothing to fix stays as it is. -/
theorem applyDeterministicCodeFixes_eq_self {t : Text} (language : Text) (h : Untriggered t) :
    applyDeterministicCodeFixes t language = t :=
  applyDeterministicCodeFixes_of language (spaced_of_inOrder fun a b ht => (h a b ht).1) h.castsOnly fun _ => h.torn

/-! ### Each part on its own -/

/-- A character that is in none of the patterns and spellings, as the quotes, the brackets and the slash. -/
def isCut (q : Char) : Bool := !isSpace q && !isNamePart q && !"#->:".toList.contains q

/-- A text without the character, and one character more, stands at the front of what ends with the character. -/
theorem prefix_cut {q c : Char} (b' : Text) {b : Text} : ∀ {p s : Text}, q ∉ p → p ++ [c] <+: s ++ q :: b →
    p ++ [c] <+: s ++ q :: b'
  | [], [], _, h => by
    obtain ⟨rfl, -⟩ := List.cons_prefix_cons.1 h
    exact ⟨b', rfl⟩
  | [], e :: s, _, h => by
    obtain ⟨rfl, -⟩ := List.cons_prefix_cons.1 h
    exact ⟨s ++ q :: b', rfl⟩
  | d :: p, [], hq, h => by
    obtain ⟨rfl, -⟩ := List.cons_prefix_cons.1 h
    exact absurd List.mem_cons_self hq
  | d :: p, e :: s, hq, h => by
    obtain ⟨rfl, htail⟩ := List.cons_prefix_cons.1 h
    exact List.cons_prefix_cons.2 ⟨rfl, prefix_cut b' (fun hmem => hq (List.mem_cons_of_mem _ hmem)) htail⟩

structure IsCut (q : Char) : Prop where
  space : isSpace q = false
  part : isNamePart q = false
  mark : q ∉ "#->:".toList

theorem isCut_iff {q : Char} : isCut q = true ↔ IsCut q := by
  rw [isCut, List.contains_eq_mem, Bool.and_eq_true, Bool.and_eq_true, Bool.not_eq_true', Bool.not_eq_true',
    Bool.not_eq_true', decide_eq_false_iff_not]
  exact ⟨fun h => ⟨h.1.1, h.1.2, h.2⟩, fun h => ⟨⟨h.space, h.part⟩, h.mark⟩⟩

theorem IsCut.not_mem_word {q : Char} (h : IsCut q) {w : Text} (hw : IsWord w) : q ∉ w := fun hmem => by
  have hpart := isNamePart_of_isLower (hw q hmem)
  rw [h.part] at hpart
  cases hpart

theorem IsCut.ne_hash {q : Char} (h : IsCut q) : q ≠ '#' := by
  rintro rfl
  exact h.mark (by decide)

theorem directiveWith_cut {q : Char} (hq : IsCut q) {w : Text} (hw : IsWord w) (s b : Text) :
    directiveWith (s ++ q :: b) w = directiveWith (s ++ [q]) w := by
  refine Option.ext fun d => ?_
  have hgap : (∀ c ∈ d.gap, isSpace c = true) → q ∉ w ++ d.gap := by
    intro hd hmem
    rcases List.mem_append.1 hmem with hmem | hmem
    · exact hq.not_mem_word hw hmem
    · have hspace := hd q hmem
      rw [hq.space] at hspace
      cases hspace
  rw [directiveWith_eq_some_iff, directiveWith_eq_some_iff]
  constructor
  · rintro ⟨hword, hd, hnext, hpre⟩
    exact ⟨hword, hd, hnext, prefix_cut [] (hgap hd) hpre⟩
  · rintro ⟨hword, hd, hnext, hpre⟩
    exact ⟨hword, hd, hnext, prefix_cut b (hgap hd) hpre⟩

theorem findSome?_congr {α β : Type} {f g : α → Option β} : ∀ {l : List α}, (∀ a ∈ l, f a = g a) →
    l.findSome? f = l.findSome? g
  | [], _ => rfl
  | a :: l, h => by
    rw [List.findSome?_cons, List.findSome?_cons, h a List.mem_cons_self,
      findSome?_congr fun b hb => h b (List.mem_cons_of_mem _ hb)]

theorem endsAt_directives {q : Char} (hq : IsCut q) : cppDirectiveRe.EndsAt Directive.spaced q where
  groups := by
    intro prev s b
    show directiveAt (s ++ q :: b) = directiveAt (s ++ [q])
    cases s with
    | nil => rw [List.nil_append, List.nil_append, directiveAt_of_ne hq.ne_hash, directiveAt_of_ne hq.ne_hash]
    | cons c s =>
      rw [List.cons_append, List.cons_append]
      by_cases hc : c = '#'
      · subst hc
        exact findSome?_congr fun w hw => directiveWith_cut hq (isWord_cppDirectives hw).2 s b
      · rw [directiveAt_of_ne hc, directiveAt_of_ne hc]
  fresh _ := rfl
  keeps := by
    intro prev t d o hd ho
    have htext : '#' :: d.word ++ d.gap ++ [d.next] = o ++ [q] := ho
    obtain ⟨-, hnext⟩ := List.append_inj' htext rfl
    obtain ⟨hnext, -⟩ := List.cons.inj hnext
    exact ⟨'#' :: d.word ++ [' '], by rw [Directive.spaced, hnext]; simp⟩

theorem gluedWith_cut {q : Char} (hq : IsCut q) {k : Text} (hk : IsWord k) (s b : Text) :
    gluedWith (s ++ q :: b) k = gluedWith (s ++ [q]) k := by
  have hkey := hq.not_mem_word hk
  have hback : ∀ {b b' : Text} {g : Glued}, gluedWith (s ++ q :: b) k = some g →
      gluedWith (s ++ q :: b') k = some g := by
    intro b b' g hg
    obtain ⟨hword, c, cs, hc, ht, hname⟩ := gluedWith_eq_some_iff.1 hg
    have hqc : q ∉ k ++ [c] := by
      rw [List.mem_append, List.mem_singleton, not_or]
      refine ⟨hkey, ?_⟩
      rintro rfl
      have hpart := isNamePart_of_isNameStart hc
      rw [hq.part] at hpart
      cases hpart
    obtain ⟨a, rfl, rfl⟩ : ∃ a, s = k ++ [c] ++ a ∧ cs = a ++ q :: b := by
      have hcut : s ++ q :: b = k ++ [c] ++ cs := by rw [ht, List.append_assoc]; rfl
      rcases List.append_eq_append_iff.1 hcut with ⟨a, ha, hrest⟩ | ⟨a, ha, hrest⟩
      · cases a with
        | nil =>
          rw [List.append_nil] at ha
          exact ⟨[], by rw [ha, List.append_nil], hrest.symm⟩
        | cons d a =>
          obtain ⟨rfl, -⟩ := List.cons.inj hrest
          exact absurd (by rw [ha]; simp) hqc
      · exact ⟨a, ha, hrest⟩
    refine gluedWith_eq_some_iff.2 ⟨hword, c, a ++ q :: b', hc, by simp, ?_⟩
    rw [hname, List.takeWhile_append, List.takeWhile_append, List.takeWhile_cons_of_neg (by simp [hq.part]),
      List.takeWhile_cons_of_neg (by simp [hq.part])]
  refine Option.ext fun g => ⟨fun h => hback h, fun h => hback h⟩

theorem endsAt_keywords {q : Char} (hq : IsCut q) : keywordCollapseRe.EndsAt Glued.spaced q where
  groups := by
    intro prev s b
    show gluedAt prev (s ++ q :: b) = gluedAt prev (s ++ [q])
    rw [gluedAt, gluedAt, findSome?_congr fun k hk => gluedWith_cut hq (isWord_kwList hk).2 s b]
  fresh := by
    intro t
    have hletter : isLetter q = false := by
      cases hl : isLetter q with
      | false => rfl
      | true =>
        have hpart := hq.part
        rw [isLetter, Bool.or_eq_true] at hl
        rw [isNamePart, isAlphanum_def] at hpart
        rcases hl with hl | hl <;> simp [hl] at hpart
    show gluedAt (some q) t = gluedAt none t
    rw [gluedAt, gluedAt, Option.any_some, hletter, Option.any_none]
  keeps := by
    intro prev t g o hg ho
    have htext : g.keyword ++ g.name = o ++ [q] := ho
    have hmem : q ∈ g.keyword ++ g.name := by rw [htext]; simp
    rcases List.mem_append.1 hmem with hmem | hmem
    · exact absurd hmem (hq.not_mem_word (isWord_kwList (gluedAt_eq_some hg).2.1).2)
    · exact absurd hmem (not_mem_name hg hq.part)

theorem not_mem_torn {q : Char} (hq : IsCut q) {s : Seam} (hs : s ∈ seams) : q ∉ s.torn := by
  have hall : seams.all (fun s => s.torn.all fun c =>
      isNamePart c || isSpace c || "#->:".toList.contains c) = true := by
    decide
  intro hmem
  have hc := List.all_eq_true.1 (List.all_eq_true.1 hall s hs) q hmem
  rw [hq.part, hq.space, Bool.false_or, Bool.false_or, List.contains_iff_mem] at hc
  exact hq.mark hc

theorem endsAt_join {q : Char} (hq : IsCut q) {s : Seam} (hs : s ∈ seams) :
    (literal s.torn s.torn_ne).EndsAt (fun _ => s.whole) q where
  groups := by
    intro prev r b
    have htorn := not_mem_torn hq hs
    obtain ⟨t, c, ht⟩ := (List.eq_nil_or_concat s.torn).resolve_left s.torn_ne
    rw [List.concat_eq_append] at ht
    have hnot : q ∉ t := fun hmem => htorn (by rw [ht]; exact List.mem_append_left _ hmem)
    rw [literal_groups, literal_groups, ht]
    exact if_congr ⟨prefix_cut [] hnot, prefix_cut b hnot⟩ rfl rfl
  fresh _ := rfl
  keeps := by
    intro prev t g o _ ho
    have htext : s.torn = o ++ [q] := ho
    exact absurd (by rw [htext]; simp) (not_mem_torn hq hs)

theorem splitsAt_foldl {q : Char} (hq : IsCut q) : ∀ {ss : List Seam}, (∀ s ∈ ss, s ∈ seams) →
    SplitsAt q fun t => ss.foldl (fun t s => s.join t) t
  | [], _ => ⟨rfl, fun a => ⟨a, fun _ => rfl⟩⟩
  | s :: ss, hss => by
    have hone : SplitsAt q s.join := by
      have h := (endsAt_join hq (hss s List.mem_cons_self)).splitsAt
      rwa [← funext (join_eq_sub s)] at h
    exact hone.comp (splitsAt_foldl hq fun s' hs' => hss s' (List.mem_cons_of_mem _ hs'))

/-- PARTS: at such a character a text can be cut, and each part be fixed on its own. -/
theorem splitsAt_fixes {q : Char} (hq : IsCut q) (language : Text) :
    SplitsAt q fun t => applyDeterministicCodeFixes t language := by
  have h := ((endsAt_directives hq).splitsAt.comp (endsAt_keywords hq).splitsAt).comp
    (splitsAt_foldl hq fun s (hs : s ∈ seams) => hs)
  rwa [← funext fun t => applyDeterministicCodeFixes_eq t language] at h

theorem filter_foldl {ss : List Seam} (hss : ∀ s ∈ ss, s ∈ seams) (t : Text) :
    (ss.foldl (fun t s => s.join t) t).filter isSolid = t.filter isSolid := by
  induction ss generalizing t with
  | nil => rfl
  | cons s ss ih =>
    rw [List.foldl_cons, ih fun s' hs' => hss s' (List.mem_cons_of_mem _ hs'), join_eq_sub]
    exact SubPattern.filter_sub (respaces_join (hss s List.mem_cons_self)).solid _ _

/-- SOLID: nothing but white space is put in or taken out. -/
theorem filter_fixes (t language : Text) :
    (applyDeterministicCodeFixes t language).filter isSolid = t.filter isSolid := by
  rw [applyDeterministicCodeFixes_eq, filter_foldl fun s hs => hs, SubPattern.filter_sub respaces_keywords.solid,
    SubPattern.filter_sub (m := cppDirectiveRe) solid_spaced]

/-! ### The fixes -/

/-- The fixes take a name for a keyword, in a literal too, and run over what they have written. -/
theorem fixes_of_newFoo :
    applyDeterministicCodeFixes "f(\"newFoo\")".toList [] = "f(\"new Foo\")".toList ∧
      applyDeterministicCodeFixes "auto f() -> int".toList [] = "auto f() ->int".toList ∧
      applyDeterministicCodeFixes (applyDeterministicCodeFixes "->  x".toList []) [] ≠
        applyDeterministicCodeFixes "->  x".toList [] := by
  decide +kernel

/-- FIXES: nothing but white space changes; each part of a text is fixed on its own, and stays where it has nothing to
    fix, whatever stands around it; and once is enough. -/
theorem fixes_respace (language : Text) :
    (∀ t, (applyDeterministicCodeFixes t language).filter isSolid = t.filter isSolid) ∧
    (∀ q a b, isCut q = true → applyDeterministicCodeFixes (a ++ q :: b) language =
      applyDeterministicCodeFixes (a ++ [q]) language ++ applyDeterministicCodeFixes b language) ∧
    (∀ t, Untriggered t → applyDeterministicCodeFixes t language = t) ∧
    (∀ q q' a t b, isCut q = true → isCut q' = true → Untriggered (t ++ [q']) →
      applyDeterministicCodeFixes (a ++ q :: (t ++ q' :: b)) language =
        applyDeterministicCodeFixes (a ++ [q]) language ++ (t ++ q' :: applyDeterministicCodeFixes b language)) ∧
    (∀ t, Settles t → applyDeterministicCodeFixes (applyDeterministicCodeFixes t language) language =
      applyDeterministicCodeFixes t language) := by
  have hparts : ∀ q a b, isCut q = true → applyDeterministicCodeFixes (a ++ q :: b) language =
      applyDeterministicCodeFixes (a ++ [q]) language ++ applyDeterministicCodeFixes b language :=
    fun q a b hq => (splitsAt_fixes (isCut_iff.1 hq) language).append a b
  refine ⟨fun t => filter_fixes t language, hparts, fun t => applyDeterministicCodeFixes_eq_self language, ?_,
    fun t => applyDeterministicCodeFixes_idempotent language⟩
  intro q q' a t b hq hq' ht
  rw [hparts q a _ hq, hparts q' t b hq', applyDeterministicCodeFixes_eq_self language ht]
  simp

/-- A cast in a call, between its brackets. -/
theorem fixes_respace_cast : applyDeterministicCodeFixes "newFoo(static_cast<T>(x))".toList [] =
    "new Foo(static_cast<T>(x))".toList := by
  have h := (fixes_respace []).2.2.2.1 '(' ')' "newFoo".toList "static_cast<T>(x".toList ")".toList
    (by decide) (by decide) (by decide +kernel)
  exact h.trans (by decide +kernel)

/-! ### The code of an answer -/

open AgentLangraph.Artifact.Verify

/-- `item["content"]` is written only where the fixes change it. -/
def sanitizeItem (item : Fields) : Fields :=
  let raw := Verify.textOr item "content" ""
  let sanitized := applyDeterministicCodeFixes raw (Verify.textOr item "language" "")
  if sanitized ≠ raw then item.put "content" (.str sanitized) else item

def sanitizeEntry : Verify.Entry → Verify.Entry
  | .dict d => .dict (if isCode d then sanitizeItem d else d)
  | .other v => .other v

/-- The first pass of `ensure_code_artifacts_quality`, and whether it repaired something. -/
def sanitizeArtifacts (artifacts : List Verify.Entry) : List Verify.Entry × Bool :=
  (artifacts.map sanitizeEntry, (iterCodeArtifacts artifacts).any fun item =>
    applyDeterministicCodeFixes (Verify.textOr item "content" "") (Verify.textOr item "language" "") ≠
      Verify.textOr item "content" "")

/-- Where the pass repairs nothing, it leaves all the entries as they are. -/
theorem sanitizeArtifacts_of_not (artifacts : List Verify.Entry) (h : (sanitizeArtifacts artifacts).2 = false) :
    (sanitizeArtifacts artifacts).1 = artifacts := by
  show artifacts.map sanitizeEntry = artifacts
  rw [sanitizeArtifacts, List.any_eq_false] at h
  conv_rhs => rw [← List.map_id artifacts]
  refine List.map_congr_left fun e he => ?_
  cases e with
  | other v => rfl
  | dict d =>
    by_cases hcode : isCode d = true
    · have hd := h d (List.mem_filterMap.2 ⟨.dict d, he, by rw [Verify.Entry.code, if_pos hcode]⟩)
      rw [sanitizeEntry, if_pos hcode, sanitizeItem, if_neg (by simpa using hd)]
      rfl
    · rw [sanitizeEntry, if_neg hcode]
      rfl

end AgentLangraph.Artifact.Fixups
