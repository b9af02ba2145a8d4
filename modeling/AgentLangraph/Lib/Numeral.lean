import AgentLangraph.Lib.PyText

/-! Chinese numerals below ten thousand, with their values. Each place has a sign in front, which may be left out
    for one; a zero stands where places are passed over.

        千  百  十
        一千零三十五 = 1035      百二十 = 120      十 = 10 -/

namespace Numeral
open PyText (Text)

def signs : List (Char × ℕ) :=
  [('一', 1), ('二', 2), ('两', 2), ('三', 3), ('四', 4), ('五', 5), ('六', 6), ('七', 7), ('八', 8), ('九', 9)]

/-- A digit that is not zero, with its value. -/
abbrev Sign := {s : Char × ℕ // s ∈ signs}

/-- How often a place counts. -/
abbrev Coef := Option Sign

def Coef.text : Coef → Text
  | none => []
  | some s => [s.val.1]

def Coef.value : Coef → ℕ
  | none => 1
  | some s => s.val.2

/-- The places of a numeral, one at least. -/
structure Places where
  thousands : Option Coef
  hundreds : Option Coef
  tens : Option Coef
  ones : Option Sign
  any : thousands.isSome ∨ hundreds.isSome ∨ tens.isSome ∨ ones.isSome

/-- A place, if it is there. -/
def part (sign : Char) : Option Coef → Text
  | none => []
  | some c => c.text ++ [sign]

def zeroIf (b : Bool) : Text := if b then ['零'] else []

def onesText : Option Sign → Text
  | none => []
  | some s => [s.val.1]

/-- What stands in front of the tens. -/
def Places.front (n : Places) : Text :=
  part '千' n.thousands ++ zeroIf (n.thousands.isSome && n.hundreds.isNone && (n.tens.isSome || n.ones.isSome)) ++
    part '百' n.hundreds ++ zeroIf (n.hundreds.isSome && n.tens.isNone && n.ones.isSome)

def Places.text (n : Places) : Text := n.front ++ part '十' n.tens ++ onesText n.ones

def Places.value (n : Places) : ℕ :=
  1000 * (n.thousands.elim 0 Coef.value) + 100 * (n.hundreds.elim 0 Coef.value) + 10 * (n.tens.elim 0 Coef.value) +
    n.ones.elim 0 fun s => s.val.2

/-- A numeral: zero, or some places. -/
inductive Cn
  | zero
  | places (n : Places)

def Cn.text : Cn → Text
  | .zero => ['零']
  | .places n => n.text

def Cn.value : Cn → ℕ
  | .zero => 0
  | .places n => n.value

example : (Cn.places ⟨some none, none, some (some ⟨('三', 3), by decide⟩), some ⟨('五', 5), by decide⟩, by decide⟩).text =
    "千零三十五".toList := by decide

/-! ### Values -/

theorem sign_pos (s : Sign) : 0 < s.val.2 := by
  have hall : ∀ x ∈ signs, 0 < x.2 := by decide
  exact hall _ s.property

theorem sign_lt (s : Sign) : s.val.2 < 10 := by
  have hall : ∀ x ∈ signs, x.2 < 10 := by decide
  exact hall _ s.property

theorem coef_pos (c : Coef) : 0 < c.value := by
  cases c with
  | none => exact Nat.one_pos
  | some s => exact sign_pos s

theorem coef_lt (c : Coef) : c.value < 10 := by
  cases c with
  | none => exact Nat.one_lt_succ_succ 8
  | some s => exact sign_lt s

theorem ones_lt (o : Option Sign) : (o.elim 0 fun s => s.val.2) < 10 := by
  cases o with
  | none => exact Nat.succ_pos 9
  | some s => exact sign_lt s

/-- Below a hundred there are tens and ones only. -/
theorem value_lt_hundred_iff (n : Places) : n.value < 100 ↔ n.thousands = none ∧ n.hundreds = none := by
  have hones := ones_lt n.ones
  have htens : n.tens.elim 0 Coef.value < 10 := by
    cases n.tens with
    | none => exact Nat.succ_pos 9
    | some c => exact coef_lt c
  rw [Places.value]
  constructor
  · intro hlt
    constructor
    · cases hth : n.thousands with
      | none => rfl
      | some c =>
        have hpos := coef_pos c
        rw [hth, Option.elim_some] at hlt
        omega
    · cases hh : n.hundreds with
      | none => rfl
      | some c =>
        have hpos := coef_pos c
        rw [hh, Option.elim_some] at hlt
        omega
  · rintro ⟨hth, hh⟩
    rw [hth, hh]
    dsimp only [Option.elim_none]
    omega

/-! ### Characters -/

theorem sign_ne_ten (s : Sign) : s.val.1 ≠ '十' := by
  have hall : ∀ x ∈ signs, x.1 ≠ '十' := by decide
  exact hall _ s.property

theorem ten_not_mem_coef (c : Coef) : '十' ∉ c.text := by
  cases c with
  | none => exact List.not_mem_nil
  | some s => exact fun h => sign_ne_ten s (List.mem_singleton.1 h).symm

theorem ten_not_mem_ones (o : Option Sign) : '十' ∉ onesText o := by
  cases o with
  | none => exact List.not_mem_nil
  | some s => exact fun h => sign_ne_ten s (List.mem_singleton.1 h).symm

theorem ten_not_mem_part {sign : Char} (hsign : sign ≠ '十') (o : Option Coef) : '十' ∉ part sign o := by
  cases o with
  | none => exact List.not_mem_nil
  | some c =>
    rw [part, List.mem_append, List.mem_singleton, not_or]
    exact ⟨ten_not_mem_coef c, hsign.symm⟩

theorem ten_not_mem_zeroIf (b : Bool) : '十' ∉ zeroIf b := by
  cases b <;> decide

theorem ten_not_mem_front (n : Places) : '十' ∉ n.front := by
  simp only [Places.front, List.mem_append, not_or]
  exact ⟨⟨⟨ten_not_mem_part (by decide) _, ten_not_mem_zeroIf _⟩, ten_not_mem_part (by decide) _⟩,
    ten_not_mem_zeroIf _⟩

/-- The sign of the tens stands in a numeral just where it has tens. -/
theorem ten_mem_iff (n : Places) : '十' ∈ n.text ↔ n.tens.isSome := by
  rw [Places.text, List.mem_append, List.mem_append]
  cases n.tens with
  | none => simp [ten_not_mem_front, ten_not_mem_ones, part]
  | some c => simp [part]

/-- From a hundred on there is a sign for it in front. -/
theorem big_mem_front {n : Places} (h : ¬ n.value < 100) : '千' ∈ n.front ∨ '百' ∈ n.front := by
  rw [value_lt_hundred_iff, not_and_or] at h
  rw [Places.front]
  rcases h with hth | hh
  · obtain ⟨c, hc⟩ := Option.ne_none_iff_exists'.1 hth
    rw [hc]
    simp [part]
  · obtain ⟨c, hc⟩ := Option.ne_none_iff_exists'.1 hh
    rw [hc]
    simp [part]

theorem front_of_small {n : Places} (h : n.value < 100) : n.front = [] := by
  obtain ⟨hth, hh⟩ := (value_lt_hundred_iff n).1 h
  simp [Places.front, hth, hh, part, zeroIf]

end Numeral
