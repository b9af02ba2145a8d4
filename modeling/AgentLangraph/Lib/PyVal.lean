import AgentLangraph.Lib.PyDict
import AgentLangraph.Lib.PyText

/-! Values of loosely typed Python dictionaries, as far as truth value, `str` and `int` look into
    them, and the dictionaries themselves. Containers and floats only ever go through `str` and truth
    value. -/

open PyText

inductive PyVal
  | none
  | bool (b : Bool)
  | int (n : ℤ)
  | str (t : Text)
  | other (repr : Text) (truthy : Bool)
  deriving DecidableEq

namespace PyVal

def truthy : PyVal → Bool
  | none => false
  | bool b => b
  | int n => n != 0
  | str t => t != []
  | other _ b => b

/-- `str(v)`. -/
def toText : PyVal → Text
  | none => "None".toList
  | bool true => "True".toList
  | bool false => "False".toList
  | int n => (toString n).toList
  | str t => t
  | other r _ => r

/-- `a or b`. -/
def orElse (a b : PyVal) : PyVal := if a.truthy then a else b

/-- The digits after the first one; a single underscore may stand between two digits. -/
def intDigits (digit : Char → Option ℕ) : ℕ → Text → Option ℕ
  | n, [] => some n
  | n, '_' :: c :: cs => (digit c).bind fun d => intDigits digit (10 * n + d) cs
  | n, c :: cs => (digit c).bind fun d => intDigits digit (10 * n + d) cs

def natOfText (digit : Char → Option ℕ) : Text → Option ℕ
  | [] => Option.none
  | c :: cs => (digit c).bind fun d => intDigits digit d cs

/-- `int(text)`, which raises where there is no value. -/
def intOfText (digit : Char → Option ℕ) (t : Text) : Option ℤ :=
  match strip t with
  | '-' :: ds => (natOfText digit ds).map fun n => -(n : ℤ)
  | '+' :: ds => (natOfText digit ds).map fun n => (n : ℤ)
  | ds => (natOfText digit ds).map fun n => (n : ℤ)

/-- `int(v)`. -/
def toInt? (digit : Char → Option ℕ) : PyVal → Option ℤ
  | none => Option.none
  | bool b => some (if b then 1 else 0)
  | int n => some n
  | str t => intOfText digit t
  | other _ _ => Option.none

/-- `int(n or 0)` of a number. -/
theorem toInt?_orElse_int (digit : Char → Option ℕ) (n : ℤ) :
    ((int n).orElse (int 0)).toInt? digit = some n := by
  rw [orElse]
  split_ifs with h
  · rfl
  · have hzero : n = 0 := by simpa [truthy] using h
    rw [hzero]
    rfl

end PyVal

/-- A dictionary with text keys. -/
abbrev Fields := PyDict Text PyVal

namespace PyDict

/-- `d.get(key)`. -/
def field (d : Fields) (key : String) : PyVal := d.getD key.toList .none

/-- `d[key] = v`. -/
def put (d : Fields) (key : String) (v : PyVal) : Fields := d.set key.toList v

/-- `d.pop(key, None)`. -/
def pop (d : Fields) (key : String) : Fields := d.erase key.toList

/-- `key in d`. -/
def has (d : Fields) (key : String) : Bool := (d.get? key.toList).isSome

/-- `d.pop(key, None); d[key] = None`: a shallow merge cannot bring the old value back. -/
def clear (d : Fields) (key : String) : Fields := (d.pop key).put key .none

@[simp] theorem field_put_self (d : Fields) (key : String) (v : PyVal) :
    (d.put key v).field key = v := by
  simp [field, put, PyDict.getD]

/-- What has no value is not true. -/
theorem has_of_truthy {d : Fields} {key : String} (h : (d.field key).truthy) : d.has key := by
  rw [has]
  cases hget : d.get? key.toList with
  | none => simp [field, getD, hget, PyVal.truthy] at h
  | some v => rfl

theorem field_congr {d e : Fields} {key : String} (h : d.get? key.toList = e.get? key.toList) :
    d.field key = e.field key := by
  rw [field, field, getD, getD, h]

/-- A value that is not `None` is there. -/
theorem get?_of_field {d : Fields} {key : String} {v : PyVal} (h : d.field key = v)
    (hv : v ≠ .none) : d.get? key.toList = some v := by
  rw [field, getD] at h
  cases hget : d.get? key.toList with
  | none => rw [hget] at h; exact absurd h.symm hv
  | some u => rw [hget] at h; exact congrArg some h

theorem get?_put_ne (d : Fields) {key key' : String} (h : key ≠ key') (v : PyVal) :
    (d.put key v).get? key'.toList = d.get? key'.toList :=
  get?_set_ne _ (fun he => h (String.toList_inj.1 he)) v

theorem get?_pop_ne (d : Fields) {key key' : String} (h : key ≠ key') :
    (d.pop key).get? key'.toList = d.get? key'.toList :=
  get?_erase_ne _ fun he => h (String.toList_inj.1 he)

theorem get?_clear_ne (d : Fields) {key key' : String} (h : key ≠ key') :
    (d.clear key).get? key'.toList = d.get? key'.toList := by
  rw [clear, get?_put_ne _ h, get?_pop_ne _ h]

theorem field_put_ne (d : Fields) {key key' : String} (h : key ≠ key') (v : PyVal) :
    (d.put key v).field key' = d.field key' := field_congr (get?_put_ne d h v)

theorem field_pop_ne (d : Fields) {key key' : String} (h : key ≠ key') :
    (d.pop key).field key' = d.field key' := field_congr (get?_pop_ne d h)

/-- In `{**d, **e}` the entries of `e` win. -/
theorem field_update (d e : Fields) (key : String) :
    (d.update e).field key = if (e.get? key.toList).isSome then e.field key else d.field key := by
  rw [field, field, field, getD, getD, getD, get?_update]
  cases e.get? key.toList <;> rfl

/-- A copy with other entries, merged back, keeps what it did not touch. -/
theorem field_update_of_eq {d e : Fields} {key : String} (h : e.field key = d.field key) :
    (d.update e).field key = d.field key := by
  rw [field_update]
  split
  · exact h
  · rfl

@[simp] theorem field_update_put_self (d : Fields) (key : String) (v : PyVal) :
    (d.update (d.put key v)).field key = v := by
  rw [field_update, put, get?_set_self]
  exact field_put_self d key v

theorem pop_sub (d : Fields) (key : String) : (d.pop key).Sub d := erase_sub d key.toList

end PyDict
