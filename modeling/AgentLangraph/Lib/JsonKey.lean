import AgentLangraph.Lib.PyText

/-! The pattern `"name"\s*:\s*"`, searched for in a text that is still coming in. A match is a match
    in every longer text, and the first match of the whole text is the first match of each of its
    beginnings that hold it; a shorter beginning has none. -/

namespace JsonKey
open PyText

variable {name : Text}

/-- The key in its quotes. -/
def quotedKey (name : Text) : Text := '"' :: (name ++ ['"'])

/-- A match at the front of a text: what follows it. -/
def matchField (name t : Text) : Option Text := do
  let t ← (quotedKey name).isPrefixOf? t
  let t ← [':'].isPrefixOf? (lstrip t)
  ['"'].isPrefixOf? (lstrip t)

/-- Where the first match ends. -/
def searchField (name : Text) : Text → Option ℕ
  | [] => none
  | c :: cs =>
    match matchField name (c :: cs) with
    | some rest => some ((c :: cs).length - rest.length)
    | none => (searchField name cs).map (· + 1)

/-! ### One match -/

theorem lstrip_append {w : Text} (hw : ∀ c ∈ w, isSpace c = true) {c : Char}
    (hc : isSpace c = false) (t : Text) : lstrip (w ++ c :: t) = c :: t := by
  induction w with
  | nil => exact lstrip_cons_of_not_space hc t
  | cons d w ih =>
    rw [List.cons_append, lstrip, List.dropWhile_cons_of_pos (hw d List.mem_cons_self)]
    exact ih fun e he => hw e (List.mem_cons_of_mem d he)

theorem exists_of_lstrip {t rest : Text} {c : Char} (h : lstrip t = c :: rest) :
    ∃ w, (∀ d ∈ w, isSpace d = true) ∧ t = w ++ c :: rest := by
  refine ⟨t.takeWhile isSpace, fun d hd => List.mem_takeWhile_imp hd, ?_⟩
  rw [← h, lstrip, List.takeWhile_append_dropWhile]

/-- What a match looks like. -/
theorem matchField_eq_some_iff {t rest : Text} : matchField name t = some rest ↔
    ∃ v w, (∀ c ∈ v, isSpace c = true) ∧ (∀ c ∈ w, isSpace c = true) ∧
      t = quotedKey name ++ (v ++ ':' :: (w ++ '"' :: rest)) := by
  simp only [matchField, Option.bind_eq_bind, Option.bind_eq_some_iff,
    List.isPrefixOf?_eq_some_iff_append_eq]
  constructor
  · rintro ⟨t₁, rfl, t₂, h₁, h₂⟩
    obtain ⟨v, hv, rfl⟩ := exists_of_lstrip h₁.symm
    obtain ⟨w, hw, rfl⟩ := exists_of_lstrip h₂.symm
    exact ⟨v, w, hv, hw, rfl⟩
  · rintro ⟨v, w, hv, hw, rfl⟩
    exact ⟨_, rfl, _, (lstrip_append hv rfl _).symm, (lstrip_append hw rfl _).symm⟩

theorem matchField_append {t rest : Text} (h : matchField name t = some rest) (u : Text) :
    matchField name (t ++ u) = some (rest ++ u) := by
  rw [matchField_eq_some_iff] at h ⊢
  obtain ⟨v, w, hv, hw, rfl⟩ := h
  exact ⟨v, w, hv, hw, by simp⟩

theorem matchField_none_of_append {t u : Text} (h : matchField name (t ++ u) = none) :
    matchField name t = none := by
  cases hm : matchField name t with
  | none => rfl
  | some rest => rw [matchField_append hm] at h; cases h

theorem matchField_cons_of_ne {c : Char} (h : c ≠ '"') (t : Text) :
    matchField name (c :: t) = none := by
  cases hm : matchField name (c :: t) with
  | none => rfl
  | some rest =>
    obtain ⟨v, w, -, -, heq⟩ := matchField_eq_some_iff.1 hm
    exact absurd (List.cons.inj heq).1 h

/-! ### No match -/

/-- No match begins inside `a`, where `v` follows. -/
def NoField (name : Text) : Text → Text → Prop
  | [], _ => True
  | c :: a, v => matchField name (c :: a ++ v) = none ∧ NoField name a v

theorem noField_append {a b v : Text} :
    NoField name (a ++ b) v ↔ NoField name a (b ++ v) ∧ NoField name b v := by
  induction a with
  | nil => simp [NoField]
  | cons c a ih => rw [List.cons_append, NoField, NoField, ih, and_assoc, List.cons_append,
      List.cons_append, List.append_assoc]

theorem NoField.of_append {a v u : Text} (h : NoField name a (v ++ u)) : NoField name a v := by
  induction a with
  | nil => trivial
  | cons c a ih =>
    rw [NoField, ← List.append_assoc] at h
    exact ⟨matchField_none_of_append h.1, ih h.2⟩

theorem noField_of_not_mem {a : Text} (h : '"' ∉ a) (v : Text) : NoField name a v := by
  induction a with
  | nil => trivial
  | cons c a ih =>
    rw [List.mem_cons, not_or] at h
    exact ⟨matchField_cons_of_ne (Ne.symm h.1) _, ih h.2⟩

/-! ### The first match -/

theorem searchField_append {a v : Text} (h : NoField name a v) :
    searchField name (a ++ v) = (searchField name v).map (· + a.length) := by
  induction a with
  | nil => simp
  | cons c a ih =>
    rw [NoField, List.cons_append] at h
    rw [List.cons_append, searchField, h.1, ih h.2]
    cases searchField name v <;> simp [Nat.add_assoc]

theorem searchField_of_match {t rest : Text} (h : matchField name t = some rest) :
    searchField name t = some (t.length - rest.length) := by
  cases t with
  | nil => cases h
  | cons c cs => rw [searchField, h]

theorem searchField_of_noField {a : Text} (h : NoField name a []) : searchField name a = none := by
  simpa [searchField] using searchField_append h

/-- A text is searched from the left. -/
theorem exists_of_searchField {t : Text} {n : ℕ} (h : searchField name t = some n) :
    ∃ a v rest, t = a ++ v ∧ NoField name a v ∧ matchField name v = some rest ∧
      n + rest.length = t.length := by
  induction t generalizing n with
  | nil => cases h
  | cons c cs ih =>
    rw [searchField] at h
    cases hm : matchField name (c :: cs) with
    | some rest =>
      rw [hm, Option.some_inj] at h
      obtain ⟨v, w, -, -, heq⟩ := matchField_eq_some_iff.1 hm
      have hlen : rest.length ≤ (c :: cs).length := by
        rw [heq]
        simp only [List.length_append, List.length_cons]
        omega
      exact ⟨[], c :: cs, rest, rfl, trivial, hm, by omega⟩
    | none =>
      rw [hm, Option.map_eq_some_iff] at h
      obtain ⟨m, hsearch, rfl⟩ := h
      obtain ⟨a, v, rest, rfl, hno, hmatch, hlen⟩ := ih hsearch
      exact ⟨c :: a, v, rest, rfl, ⟨hm, hno⟩, hmatch, by
        rw [List.length_cons]
        omega⟩

/-- A name without quotes that does not look like the gap after a key. -/
def IsName (name : Text) : Prop :=
  '"' ∉ name ∧ name.head?.any (fun c => !isSpace c && c != ':')

instance : Decidable (IsName name) := inferInstanceAs (Decidable (_ ∧ _))

/-- A match, but for its last quote, has no match inside. -/
theorem noField_key (hname : IsName name)
    {v w : Text} (hv : ∀ c ∈ v, isSpace c = true) (hw : ∀ c ∈ w, isSpace c = true) :
    NoField name (quotedKey name ++ (v ++ ':' :: w)) [] := by
  have hquote {u : Text} (hu : ∀ c ∈ u, isSpace c = true) : '"' ∉ u :=
    fun h => absurd (hu '"' h) (by decide)
  have hgap : NoField name (v ++ ':' :: w) [] := by
    refine noField_of_not_mem (fun h => ?_) _
    rcases List.mem_append.1 h with h | h
    · exact hquote hv h
    · exact (List.mem_cons.1 h).elim (by decide) (hquote hw)
  refine noField_append.2 ⟨?_, hgap⟩
  refine ⟨?_, noField_append.2 ⟨noField_of_not_mem hname.1 _, ?_, trivial⟩⟩
  · -- the whole is the match without its last quote
    cases hm : matchField name ('"' :: (name ++ ['"']) ++ (v ++ ':' :: w ++ [])) with
    | none => rfl
    | some rest =>
      have hlonger := matchField_append hm ['"']
      have hwhole : matchField name ('"' :: (name ++ ['"']) ++ (v ++ ':' :: w ++ []) ++ ['"']) =
          some [] := matchField_eq_some_iff.2 ⟨v, w, hv, hw, by simp [quotedKey]⟩
      rw [hwhole, Option.some_inj] at hlonger
      exact absurd hlonger.symm (by simp)
  · -- the quote that closes the key is followed by a blank or the colon
    cases hm : matchField name ('"' :: ([] ++ (v ++ ':' :: w ++ []))) with
    | none => exact hm
    | some rest =>
      obtain ⟨v', w', -, -, heq⟩ := matchField_eq_some_iff.1 hm
      have htail := (List.cons.inj heq).2
      have hhead := hname.2
      cases name with
      | nil => cases hhead
      | cons c cs =>
        simp only [List.head?_cons, Option.any_some, Bool.and_eq_true, Bool.not_eq_true',
          bne_iff_ne] at hhead
        cases v with
        | nil => exact absurd (List.cons.inj htail).1.symm hhead.2
        | cons d v =>
          have hd := hv d List.mem_cons_self
          rw [(List.cons.inj htail).1, hhead.1] at hd
          cases hd

/-- CUT: of a text cut anywhere the first match is found exactly when it is complete. -/
theorem searchField_take (hname : IsName name) {t : Text} {start : ℕ}
    (h : searchField name t = some start) (n : ℕ) :
    searchField name (t.take n) = if n < start then none else some start := by
  obtain ⟨a, x, rest, rfl, hno, hmatch, hlen⟩ := exists_of_searchField h
  obtain ⟨v, w, hv, hw, rfl⟩ := matchField_eq_some_iff.1 hmatch
  have hkey : ∀ y, quotedKey name ++ (v ++ ':' :: (w ++ '"' :: y)) =
      quotedKey name ++ (v ++ ':' :: w) ++ '"' :: y := fun y => by simp
  have hstart : start = (a ++ (quotedKey name ++ (v ++ ':' :: w))).length + 1 := by
    rw [hkey] at hlen
    simp only [List.length_append, List.length_cons] at hlen ⊢
    omega
  rw [hkey, ← List.append_assoc]
  split_ifs with hn
  · have hprefix : (a ++ (quotedKey name ++ (v ++ ':' :: w)) ++ '"' :: rest).take n <+:
        a ++ (quotedKey name ++ (v ++ ':' :: w)) := by
      rw [List.take_append_of_le_length (by omega)]
      exact List.take_prefix n _
    obtain ⟨u, hu⟩ := hprefix
    have hfree : NoField name (a ++ (quotedKey name ++ (v ++ ':' :: w))) [] := by
      refine noField_append.2 ⟨?_, noField_key hname hv hw⟩
      rw [hkey] at hno
      rw [List.append_nil]
      exact hno.of_append
    rw [← hu, noField_append] at hfree
    exact searchField_of_noField (NoField.of_append (by simpa using hfree.1))
  · obtain ⟨m, rfl⟩ : ∃ m, n = start + m := ⟨n - start, by omega⟩
    have hcut : (a ++ (quotedKey name ++ (v ++ ':' :: w)) ++ '"' :: rest).take (start + m) =
        a ++ (quotedKey name ++ (v ++ ':' :: (w ++ '"' :: rest.take m))) := by
      have hafter : start + m - (a ++ (quotedKey name ++ (v ++ ':' :: w))).length = m + 1 := by
        omega
      rw [List.take_append, List.take_of_length_le (by omega), hafter, List.take_succ_cons, hkey,
        List.append_assoc]
    have hno' : NoField name a (quotedKey name ++ (v ++ ':' :: (w ++ '"' :: rest.take m))) := by
      refine NoField.of_append (u := rest.drop m) ?_
      have hrest : quotedKey name ++ (v ++ ':' :: (w ++ '"' :: rest.take m)) ++ rest.drop m =
          quotedKey name ++ (v ++ ':' :: (w ++ '"' :: rest)) := by simp
      rw [hrest]
      exact hno
    have hmatch' : matchField name (quotedKey name ++ (v ++ ':' :: (w ++ '"' :: rest.take m))) =
        some (rest.take m) := matchField_eq_some_iff.2 ⟨v, w, hv, hw, rfl⟩
    rw [hcut, searchField_append hno', searchField_of_match hmatch', Option.map_some, hstart]
    simp only [List.length_append, List.length_cons, Option.some.injEq]
    omega

end JsonKey
