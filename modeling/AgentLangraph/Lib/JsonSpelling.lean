import AgentLangraph.Lib.Json
import AgentLangraph.Lib.Occurrences
import Mathlib.Data.Bool.AllAny

/-! What a decoder can read from a place inside of a JSON text. A text that is written is made of quotes and of spelled
    characters, and from any of its braces a reader stays in step with them, even where it takes what stands between
    two strings for a string:

        {"a{": ": 1}"}
            ▲  read from here:  {": ": 1}

    So it reads no run of backticks where the text has none. -/

open PyText

namespace Json
open JsonText (Atom Hex4 IsPlain)

variable {ν : Type} {N : Numbers ν}

/-! ### Spelled texts -/

/-- Quotes (`none`) and characters, as they are written. -/
def spell : List (Option Char) → Text
  | [] => []
  | none :: ts => '"' :: spell ts
  | some c :: ts => (atomOf c).text ++ spell ts

def IsSpelled (t : Text) : Prop := ∃ ts, t = spell ts

/-- The front of a spelled text. -/
def Spelled (t : Text) : Prop := ∃ more, IsSpelled (t ++ more)

theorem isSpelled_nil : IsSpelled [] := ⟨[], rfl⟩

theorem isSpelled_quote {t : Text} (h : IsSpelled t) : IsSpelled ('"' :: t) := by
  obtain ⟨ts, rfl⟩ := h
  exact ⟨none :: ts, rfl⟩

theorem isSpelled_text (s : Text) {t : Text} (h : IsSpelled t) : IsSpelled (JsonText.text (atoms s) ++ t) := by
  obtain ⟨ts, rfl⟩ := h
  induction s with
  | nil => exact ⟨ts, rfl⟩
  | cons c s ih =>
    obtain ⟨ts', hts⟩ := ih
    refine ⟨some c :: ts', ?_⟩
    rw [spell, ← hts, ← List.append_assoc]
    rfl

/-- A character that is written as it is. -/
def IsBare (c : Char) : Prop := IsPlain c ∧ c.toNat < 0x7f

instance : DecidablePred IsBare := fun _ => inferInstanceAs (Decidable (_ ∧ _))

theorem atomOf_text_of_bare {c : Char} (h : IsBare c) : (atomOf c).text = [c] := by
  have hfind : writtenEscapes.find? (fun e => e.point = c.toNat) = none := by
    rw [List.find?_eq_none]
    intro e he hpoint
    have hpoint : e.point = c.toNat := of_decide_eq_true hpoint
    have hplain : ∀ e ∈ writtenEscapes, e.point < 0x20 ∨ e.point = '"'.toNat ∨ e.point = '\\'.toNat := by decide
    rcases hplain e he with hlt | hq | hb
    · have hle := h.1.2.2
      omega
    · exact h.1.1 (Char.toNat_inj.1 (hpoint.symm.trans hq))
    · exact h.1.2.1 (Char.toNat_inj.1 (hpoint.symm.trans hb))
  have hbare : IsPlain c ∧ c.toNat < 0x7f := h
  rw [atomOf, hfind]
  simp only
  rw [dif_pos hbare]
  rfl

theorem isSpelled_bare {x : Text} (hx : ∀ c ∈ x, IsBare c) {t : Text} (h : IsSpelled t) : IsSpelled (x ++ t) := by
  induction x with
  | nil => exact h
  | cons c x ih =>
    obtain ⟨ts, hts⟩ := ih fun d hd => hx d (List.mem_cons_of_mem c hd)
    refine ⟨some c :: ts, ?_⟩
    rw [spell, atomOf_text_of_bare (hx c List.mem_cons_self), ← hts]
    rfl

theorem isSpelled_quoted (s : Text) {t : Text} (h : IsSpelled t) : IsSpelled (quoted s ++ t) := by
  rw [quoted, List.cons_append, List.append_assoc]
  exact isSpelled_quote (isSpelled_text s (isSpelled_quote h))

theorem isSpelled_all {x : Text} (hx : (x.all fun c => decide (IsBare c)) = true) {t : Text} (h : IsSpelled t) :
    IsSpelled (x ++ t) :=
  isSpelled_bare (List.all_iff_forall_prop.1 hx) h

theorem isSpelled_keyText (k : Text) {t : Text} (h : IsSpelled t) : IsSpelled (keyText k ++ t) := by
  rw [keyText, List.append_assoc]
  exact isSpelled_quoted k (isSpelled_all (by decide) h)

theorem bare_of_literal {c : Char} (h : JsonNumber.isLiteralChar c) : IsBare c := by
  simp only [JsonNumber.isLiteralChar, Bool.or_eq_true, decide_eq_true_eq] at h
  rcases h with hd | hmem
  · simp only [Char.isDigit, Bool.and_eq_true, decide_eq_true_eq, UInt32.le_iff_toNat_le, ge_iff_le] at hd
    change 0x30 ≤ c.toNat ∧ c.toNat ≤ 0x39 at hd
    refine ⟨⟨?_, ?_, by omega⟩, by omega⟩
    · rintro rfl
      exact absurd hd (by decide)
    · rintro rfl
      exact absurd hd (by decide)
  · have hall : ∀ c ∈ "+-.eENaIfinity".toList, IsBare c := List.all_iff_forall_prop.1 (by decide)
    exact hall c hmem

theorem isSpelled_number (n : ν) {t : Text} (h : IsSpelled t) : IsSpelled (N.text n ++ t) :=
  isSpelled_bare (fun c hc => bare_of_literal (JsonNumber.scan_chars (N.literal n) c hc)) h

mutual

theorem isSpelled_dumps : ∀ (v : Json ν) {t : Text}, IsSpelled t → IsSpelled (dumps N v ++ t)
  | null, _, h => isSpelled_all (by rw [dumps]; decide) h
  | bool true, _, h => isSpelled_all (by rw [dumps]; decide) h
  | bool false, _, h => isSpelled_all (by rw [dumps]; decide) h
  | num n, _, h => isSpelled_number n h
  | str s, _, h => isSpelled_quoted s h
  | arr [], _, h => isSpelled_all (by rw [dumps]; decide) h
  | arr (v :: vs), _, h => by
    rw [dumps, List.cons_append, List.append_assoc]
    exact isSpelled_all (x := ['[']) (by decide) (isSpelled_dumps v (isSpelled_dumpsElements vs h))
  | obj [], _, h => isSpelled_all (by rw [dumps]; decide) h
  | obj ((k, v) :: es), _, h => by
    rw [dumps, List.cons_append, List.append_assoc, List.append_assoc]
    exact isSpelled_all (x := ['{']) (by decide)
      (isSpelled_keyText k (isSpelled_dumps v (isSpelled_dumpsMembers es h)))

theorem isSpelled_dumpsElements : ∀ (vs : List (Json ν)) {t : Text}, IsSpelled t →
    IsSpelled (dumps.dumpsElements N vs ++ t)
  | [], _, h => isSpelled_all (by rw [dumps.dumpsElements]; decide) h
  | v :: vs, _, h => by
    rw [dumps.dumpsElements, List.cons_append, List.cons_append, List.append_assoc]
    exact isSpelled_all (x := [',', ' ']) (by decide) (isSpelled_dumps v (isSpelled_dumpsElements vs h))

theorem isSpelled_dumpsMembers : ∀ (es : List (Text × Json ν)) {t : Text}, IsSpelled t →
    IsSpelled (dumps.dumpsMembers N es ++ t)
  | [], _, h => isSpelled_all (by rw [dumps.dumpsMembers]; decide) h
  | (k, v) :: es, _, h => by
    rw [dumps.dumpsMembers, List.cons_append, List.cons_append, List.append_assoc, List.append_assoc]
    exact isSpelled_all (x := [',', ' ']) (by decide)
      (isSpelled_keyText k (isSpelled_dumps v (isSpelled_dumpsMembers es h)))

end

/-! ### In step with the spelling -/

/-- What is written for a character is the character, or an escape without a brace. -/
theorem atom_text_cases (a : Atom) : (∃ c, a.text = [c]) ∨ (∃ r, a.text = '\\' :: r) ∧ '{' ∉ a.text := by
  have hhex (u : Hex4) : '{' ∉ u.digits := fun h => absurd (u.hex _ h) (by decide)
  cases a with
  | plain c h => exact Or.inl ⟨c, rfl⟩
  | short e => exact Or.inr ⟨⟨_, rfl⟩, by cases e <;> decide⟩
  | unicode u => exact Or.inr ⟨⟨_, rfl⟩, by simp [Atom.text, hhex]⟩
  | pair hi lo h => exact Or.inr ⟨⟨_, rfl⟩, by simp [Atom.text, hhex]⟩

theorem isSpelled_of_brace {x t : Text} (h : IsSpelled (x ++ '{' :: t)) : IsSpelled ('{' :: t) := by
  obtain ⟨ts, hts⟩ := h
  induction ts generalizing x with
  | nil => simp [spell] at hts
  | cons a ts ih =>
    cases a with
    | none =>
      cases x with
      | nil => cases hts
      | cons d x => exact ih (List.cons.inj hts).2
    | some c =>
      rcases List.append_eq_append_iff.1 hts with ⟨m, hatom, hm⟩ | ⟨m, -, hm⟩
      · cases m with
        | nil => exact ⟨ts, hm⟩
        | cons d m =>
          obtain ⟨rfl, hrest⟩ := List.cons.inj hm
          rcases atom_text_cases (atomOf c) with ⟨e, he⟩ | ⟨-, hno⟩
          · have hlen := congrArg List.length (he.symm.trans hatom)
            simp only [List.length_cons, List.length_append, List.length_nil] at hlen
            have hx : x = [] := List.eq_nil_of_length_eq_zero (by omega)
            have hm : m = [] := List.eq_nil_of_length_eq_zero (by omega)
            refine ⟨some c :: ts, ?_⟩
            rw [spell, hatom, hrest, hx, hm]
            rfl
          · exact absurd (hatom ▸ List.mem_append_right _ List.mem_cons_self) hno
      · exact ih hm.symm

theorem spelled_cons {c : Char} (hc : c ≠ '\\') {t : Text} (h : Spelled (c :: t)) : Spelled t := by
  obtain ⟨more, ts, hts⟩ := h
  cases ts with
  | nil => cases hts
  | cons a ts =>
    cases a with
    | none => exact ⟨more, ts, (List.cons.inj hts).2⟩
    | some d =>
      rcases atom_text_cases (atomOf d) with ⟨e, he⟩ | ⟨⟨r, hr⟩, -⟩
      · rw [spell, he] at hts
        exact ⟨more, ts, (List.cons.inj hts).2⟩
      · rw [spell, hr] at hts
        exact absurd (List.cons.inj hts).1 hc

theorem spelled_append {x : Text} (hx : '\\' ∉ x) {t : Text} (h : Spelled (x ++ t)) : Spelled t := by
  induction x with
  | nil => exact h
  | cons c x ih =>
    rw [List.mem_cons, not_or] at hx
    exact ih hx.2 (spelled_cons (Ne.symm hx.1) h)

theorem bodyOf_append (u : Text) {t : Text} : ∀ {p : Text × Text}, bodyOf t = some p →
    bodyOf (t ++ u) = some (p.1, p.2 ++ u) := by
  induction t using bodyOf.induct with
  | case1 => rintro p ⟨⟩
  | case2 t =>
    intro p h
    rw [bodyOf] at h
    cases h
    rfl
  | case3 c t ih =>
    intro p h
    rw [bodyOf_escaped] at h
    obtain ⟨q, hq, rfl⟩ := Option.map_eq_some_iff.1 h
    rw [List.cons_append, List.cons_append, bodyOf_escaped, ih hq]
    rfl
  | case4 c t hq hb ih =>
    intro p h
    rw [bodyOf.eq_4 c t hq hb] at h
    obtain ⟨q, hbody, rfl⟩ := Option.map_eq_some_iff.1 h
    have hback : c ≠ '\\' := by
      rintro rfl
      cases t with
      | nil => cases hbody
      | cons d t => exact hb d t rfl rfl
    rw [List.cons_append, bodyOf_plain hq hback, ih hbody]
    rfl

/-- A string that is read is spelled as it would be written. -/
theorem bodyOf_spell {ts : List (Option Char)} : ∀ {p : Text × Text}, bodyOf (spell ts) = some p →
    (∃ s, p.1 = JsonText.text (atoms s)) ∧ IsSpelled p.2 := by
  induction ts with
  | nil => rintro p ⟨⟩
  | cons a ts ih =>
    intro p h
    cases a with
    | none =>
      rw [spell, bodyOf] at h
      cases h
      exact ⟨⟨[], rfl⟩, ts, rfl⟩
    | some c =>
      rw [spell, bodyOf_atom] at h
      obtain ⟨q, hq, rfl⟩ := Option.map_eq_some_iff.1 h
      obtain ⟨⟨s, hs⟩, hrest⟩ := ih hq
      exact ⟨⟨c :: s, congrArg ((atomOf c).text ++ ·) hs⟩, hrest⟩

theorem spelled_bodyOf {t : Text} (h : Spelled t) {p : Text × Text} (hp : bodyOf t = some p) :
    (∃ s, p.1 = JsonText.text (atoms s)) ∧ Spelled p.2 := by
  obtain ⟨more, ts, hts⟩ := h
  have hbody := bodyOf_append more hp
  rw [hts] at hbody
  obtain ⟨hs, hrest⟩ := bodyOf_spell hbody
  exact ⟨hs, more, hrest⟩

/-! ### Texts without a run of backticks -/

def tick : Char := Char.ofNat 0x60

/-- Backticks, one at least. -/
structure Ticks where
  text : Text
  ne_nil : text ≠ []
  eq_tick : ∀ c ∈ text, c = tick

variable (f : Ticks)

def Free (t : Text) : Prop := ¬ f.text <:+: t

variable {f}

theorem Free.part {s t : Text} (h : Free f t) (hs : s <:+: t) : Free f s := fun hf => h (hf.trans hs)

theorem free_nil : Free f [] := fun h => f.ne_nil (List.infix_nil.1 h)

theorem free_append_cons {c : Char} (hc : c ≠ tick) {s t : Text} (hs : Free f s) (ht : Free f t) :
    Free f (s ++ c :: t) := by
  intro h
  have hmem : c ∉ f.text := fun hmem => hc (f.eq_tick c hmem)
  rcases infix_append_cons hmem h with h | h
  · exact hs h
  · exact ht h

theorem free_append {x : Text} (hx : tick ∉ x) {t : Text} (ht : Free f t) : Free f (x ++ t) := by
  induction x with
  | nil => exact ht
  | cons c x ih =>
    rw [List.mem_cons, not_or] at hx
    exact free_append_cons (s := []) (Ne.symm hx.1) free_nil (ih hx.2)

variable (f)

/-- No string of a value is written with the backticks. -/
def Clean : Json ν → Prop
  | str s => Free f (JsonText.text (atoms s))
  | arr vs => elementsClean vs
  | obj es => membersClean es
  | _ => True
where
  elementsClean : List (Json ν) → Prop
    | [] => True
    | v :: vs => Clean v ∧ elementsClean vs
  membersClean : List (Text × Json ν) → Prop
    | [] => True
    | (k, v) :: es => Free f (JsonText.text (atoms k)) ∧ Clean v ∧ membersClean es

variable {f}

theorem membersClean_iff {es : List (Text × Json ν)} :
    Clean.membersClean f es ↔ ∀ e ∈ es, Free f (JsonText.text (atoms e.1)) ∧ Clean f e.2 := by
  induction es with
  | nil => simp [Clean.membersClean]
  | cons e es ih => simp [Clean.membersClean, ih, and_assoc]

/-! ### Reading -/

variable (f)

/-- A place in a spelled text from which the backticks are not to be found. -/
def Good (t : Text) : Prop := Spelled t ∧ Free f t

variable {f}

theorem good_append {x : Text} (hx : '\\' ∉ x) {t : Text} (h : Good f (x ++ t)) : Good f t :=
  ⟨spelled_append hx h.1, h.2.part (List.suffix_append x t).isInfix⟩

theorem good_cons {c : Char} (hc : c ≠ '\\') {t : Text} (h : Good f (c :: t)) : Good f t :=
  good_append (x := [c]) (by simpa using Ne.symm hc) h

theorem good_skipBlanks {t : Text} (h : Good f t) : Good f (skipBlanks t) := by
  have hblank : '\\' ∉ t.takeWhile isBlank := by
    intro hmem
    have hb : isBlank '\\' = true := List.mem_takeWhile_imp hmem
    revert hb
    decide
  rw [← List.takeWhile_append_dropWhile (p := isBlank) (l := t)] at h
  exact good_append hblank h

theorem bodyOf_split {t : Text} : ∀ {p : Text × Text}, bodyOf t = some p → t = p.1 ++ '"' :: p.2 := by
  induction t using bodyOf.induct with
  | case1 => rintro p ⟨⟩
  | case2 t =>
    intro p h
    rw [bodyOf] at h
    cases h
    rfl
  | case3 c t ih =>
    intro p h
    rw [bodyOf_escaped] at h
    obtain ⟨q, hq, rfl⟩ := Option.map_eq_some_iff.1 h
    rw [ih hq]
    rfl
  | case4 c t hq hb ih =>
    intro p h
    rw [bodyOf.eq_4 c t hq hb] at h
    obtain ⟨q, hbody, rfl⟩ := Option.map_eq_some_iff.1 h
    rw [ih hbody]
    rfl

theorem scanString_clean {t : Text} (h : Good f t) {p : Text × Text} (hp : scanString t = some p) :
    Free f (JsonText.text (atoms p.1)) ∧ Good f p.2 := by
  obtain ⟨q, hq, hp⟩ := Option.bind_eq_some_iff.1 hp
  obtain ⟨⟨s, hs⟩, hrest⟩ := spelled_bodyOf h.1 hq
  have hsplit := bodyOf_split hq
  rw [hs, loads_atoms] at hp
  cases hp
  refine ⟨h.2.part ?_, hrest, h.2.part ?_⟩
  · rw [hsplit, hs]
    exact (List.prefix_append _ _).isInfix
  · rw [hsplit]
    exact (List.suffix_append_of_suffix (List.suffix_cons _ _)).isInfix

theorem clean_ofList {es : List (Text × Json ν)} (h : Clean.membersClean f es) :
    Clean.membersClean f (PyDict.ofList es).entries := by
  rw [membersClean_iff] at h ⊢
  intro e he
  rcases PyDict.mem_entries_foldl_set he with hmem | hmem
  · cases hmem
  · exact h e hmem

theorem keyword_clean {k : Text × Json ν} {t : Text} (h : Good f t)
    (hk : (keywords.find? fun k => k.1.isPrefixOf t) = some k) : Clean f k.2 ∧ Good f (t.drop k.1.length) := by
  have hall : ∀ k ∈ (keywords : List (Text × Json ν)), '\\' ∉ k.1 ∧ Clean f k.2 := by simp [keywords, Clean]
  obtain ⟨hplain, hclean⟩ := hall k (List.mem_of_find?_eq_some hk)
  have hpre := List.find?_some hk
  obtain ⟨r, rfl⟩ := List.isPrefixOf_iff_prefix.1 hpre
  rw [List.drop_left]
  exact ⟨hclean, good_append hplain h⟩

theorem number_good {t : Text} (h : Good f t) {q : Text × Text} (hq : JsonNumber.scan t = some q) : Good f q.2 := by
  rw [← (JsonNumber.scan_split hq).1] at h
  refine good_append (fun hmem => ?_) h
  exact (bare_of_literal (JsonNumber.scan_chars hq _ hmem)).1.2.1 rfl

mutual

/-- What is read from such a place holds no backticks, and such a place is left. -/
theorem value_clean : ∀ (n : ℕ) {t : Text} {p : Json ν × Text}, Good f t → value N n t = some p →
    Clean f p.1 ∧ Good f p.2
  | 0, _, _, _, h => by cases h
  | _ + 1, [], _, _, h => by cases h
  | n + 1, c :: t, p, hg, h => by
    rw [value] at h
    split_ifs at h with hq hb ha
    · obtain ⟨q, hs, rfl⟩ := Option.map_eq_some_iff.1 h
      subst hq
      exact scanString_clean (good_cons (by decide) hg) hs
    · subst hb
      have hin := good_skipBlanks (good_cons (by decide) hg)
      split at h
      · next r hr =>
        cases h
        rw [hr] at hin
        exact ⟨trivial, good_cons (by decide) hin⟩
      · obtain ⟨q, hs, rfl⟩ := Option.map_eq_some_iff.1 h
        obtain ⟨hclean, hrest⟩ := members_clean n hin hs
        exact ⟨clean_ofList hclean, hrest⟩
    · subst ha
      have hin := good_skipBlanks (good_cons (by decide) hg)
      split at h
      · next r hr =>
        cases h
        rw [hr] at hin
        exact ⟨trivial, good_cons (by decide) hin⟩
      · obtain ⟨q, hs, rfl⟩ := Option.map_eq_some_iff.1 h
        exact elements_clean n hin hs
    · split at h
      · next k hk =>
        cases h
        exact keyword_clean hg hk
      · obtain ⟨q, hs, rfl⟩ := Option.map_eq_some_iff.1 h
        exact ⟨trivial, number_good hg hs⟩

theorem elements_clean : ∀ (n : ℕ) {t : Text} {p : List (Json ν) × Text}, Good f t → elements N n t = some p →
    Clean.elementsClean f p.1 ∧ Good f p.2
  | 0, _, _, _, h => by cases h
  | n + 1, t, p, hg, h => by
    rw [elements] at h
    obtain ⟨q, hv, h⟩ := Option.bind_eq_some_iff.1 h
    obtain ⟨hclean, hrest⟩ := value_clean n hg hv
    have hnext := good_skipBlanks hrest
    split at h
    · next r hr =>
      obtain ⟨s, hs, rfl⟩ := Option.map_eq_some_iff.1 h
      rw [hr] at hnext
      obtain ⟨hmore, hend⟩ := elements_clean n (good_skipBlanks (good_cons (by decide) hnext)) hs
      exact ⟨⟨hclean, hmore⟩, hend⟩
    · next r hr =>
      cases h
      rw [hr] at hnext
      exact ⟨⟨hclean, trivial⟩, good_cons (by decide) hnext⟩
    · cases h

theorem members_clean : ∀ (n : ℕ) {t : Text} {p : List (Text × Json ν) × Text}, Good f t →
    members N n t = some p → Clean.membersClean f p.1 ∧ Good f p.2
  | 0, _, _, _, h => by cases h
  | n + 1, t, p, hg, h => by
    rcases t with _ | ⟨c, t⟩
    · simp [members] at h
    by_cases hc : c = '"'
    · subst hc
      rw [members] at h
      obtain ⟨k, hk, h⟩ := Option.bind_eq_some_iff.1 h
      obtain ⟨hkey, hafter⟩ := scanString_clean (good_cons (by decide) hg) hk
      have hcolon := good_skipBlanks hafter
      split at h
      · next r hr =>
        rw [hr] at hcolon
        obtain ⟨q, hv, h⟩ := Option.bind_eq_some_iff.1 h
        obtain ⟨hclean, hrest⟩ := value_clean n (good_skipBlanks (good_cons (by decide) hcolon)) hv
        have hnext := good_skipBlanks hrest
        split at h
        · next r' hr' =>
          obtain ⟨s, hs, rfl⟩ := Option.map_eq_some_iff.1 h
          rw [hr'] at hnext
          obtain ⟨hmore, hend⟩ := members_clean n (good_skipBlanks (good_cons (by decide) hnext)) hs
          exact ⟨⟨hkey, hclean, hmore⟩, hend⟩
        · next r' hr' =>
          cases h
          rw [hr'] at hnext
          exact ⟨⟨hkey, hclean, trivial⟩, good_cons (by decide) hnext⟩
        · cases h
      · cases h
    · simp [members, hc] at h

end

/-! ### Writing -/

theorem free_quoted {s t : Text} (hs : Free f (JsonText.text (atoms s))) (ht : Free f t) :
    Free f (quoted s ++ t) := by
  rw [quoted, List.cons_append, List.append_assoc]
  exact free_append_cons (s := []) (by decide) free_nil (free_append_cons (by decide) hs ht)

theorem free_keyText {k t : Text} (hk : Free f (JsonText.text (atoms k))) (ht : Free f t) :
    Free f (keyText k ++ t) := by
  rw [keyText, List.append_assoc]
  exact free_quoted hk (free_append (by decide) ht)

theorem free_number (n : ν) {t : Text} (ht : Free f t) : Free f (N.text n ++ t) := by
  refine free_append (fun hmem => ?_) ht
  exact absurd (JsonNumber.scan_chars (N.literal n) tick hmem) (by decide)

mutual

/-- The text of a value without the backticks has none. -/
theorem free_dumps : ∀ (v : Json ν) {t : Text}, Clean f v → Free f t → Free f (dumps N v ++ t)
  | null, _, _, ht => free_append (by rw [dumps]; decide) ht
  | bool true, _, _, ht => free_append (by rw [dumps]; decide) ht
  | bool false, _, _, ht => free_append (by rw [dumps]; decide) ht
  | num n, _, _, ht => free_number n ht
  | str s, _, hv, ht => free_quoted hv ht
  | arr [], _, _, ht => free_append (by rw [dumps]; decide) ht
  | arr (v :: vs), _, hv, ht => by
    rw [dumps, List.cons_append, List.append_assoc]
    exact free_append (x := ['[']) (by decide) (free_dumps v hv.1 (free_dumpsElements vs hv.2 ht))
  | obj [], _, _, ht => free_append (by rw [dumps]; decide) ht
  | obj ((k, v) :: es), _, hv, ht => by
    rw [dumps, List.cons_append, List.append_assoc, List.append_assoc]
    exact free_append (x := ['{']) (by decide)
      (free_keyText hv.1 (free_dumps v hv.2.1 (free_dumpsMembers es hv.2.2 ht)))

theorem free_dumpsElements : ∀ (vs : List (Json ν)) {t : Text}, Clean.elementsClean f vs → Free f t →
    Free f (dumps.dumpsElements N vs ++ t)
  | [], _, _, ht => free_append (by rw [dumps.dumpsElements]; decide) ht
  | v :: vs, _, hv, ht => by
    rw [dumps.dumpsElements, List.cons_append, List.cons_append, List.append_assoc]
    exact free_append (x := [',', ' ']) (by decide) (free_dumps v hv.1 (free_dumpsElements vs hv.2 ht))

theorem free_dumpsMembers : ∀ (es : List (Text × Json ν)) {t : Text}, Clean.membersClean f es → Free f t →
    Free f (dumps.dumpsMembers N es ++ t)
  | [], _, _, ht => free_append (by rw [dumps.dumpsMembers]; decide) ht
  | (k, v) :: es, _, hv, ht => by
    rw [dumps.dumpsMembers, List.cons_append, List.cons_append, List.append_assoc, List.append_assoc]
    exact free_append (x := [',', ' ']) (by decide)
      (free_keyText hv.1 (free_dumps v hv.2.1 (free_dumpsMembers es hv.2.2 ht)))

end

/-- What is read at a brace of a written text, from a part without backticks, holds none. -/
theorem clean_of_part {v : Json ν} {front part back : Text} (h : dumps N v = front ++ '{' :: (part ++ back))
    (hfree : Free f ('{' :: part)) {n : ℕ} {p : Json ν × Text} (hp : value N n ('{' :: part) = some p) :
    Clean f p.1 := by
  have hspelled := isSpelled_dumps (N := N) v isSpelled_nil
  rw [List.append_nil, h] at hspelled
  exact (value_clean n ⟨⟨back, isSpelled_of_brace hspelled⟩, hfree⟩ hp).1

end Json
