import AgentLangraph.Lib.PyEdit

/-! `pathlib.PurePosixPath`: the root and the parts of a path, without empty ones and dots. Children of one
    path are told apart by their names, also as texts. -/

open PyText

/-- `PurePosixPath`: the root is empty, `/` or `//`. -/
structure PurePath where
  root : Text
  parts : List Text
  deriving DecidableEq

namespace PurePath

/-- `PurePosixPath(text)`. -/
def ofText (t : Text) : PurePath where
  root :=
    if startswith t "/".toList then
      if startswith t "//".toList && !startswith t "///".toList then "//".toList else "/".toList
    else []
  parts := (splitSlash t).filter fun part => part ≠ [] ∧ part ≠ ".".toList

/-- `path.parent`. -/
def parent (p : PurePath) : PurePath := { p with parts := p.parts.dropLast }

/-- `path / text`. -/
def join (p : PurePath) (t : Text) : PurePath :=
  if startswith t "/".toList then ofText t else { p with parts := p.parts ++ (ofText t).parts }

/-- `str(path)`. -/
def toText (p : PurePath) : Text :=
  if p.root = [] ∧ p.parts = [] then ".".toList else p.root ++ List.intercalate "/".toList p.parts

/-! ### Children -/

/-- The name of a child: one part, as it is. -/
structure IsName (t : Text) : Prop where
  ne_nil : t ≠ []
  ne_dot : t ≠ ".".toList
  slash : '/' ∉ t

theorem splitSlash_of_not_mem : ∀ {t : Text}, '/' ∉ t → splitSlash t = [t]
  | [], _ => rfl
  | c :: t, h => by
      rw [List.mem_cons, not_or] at h
      rw [splitSlash, if_neg (Ne.symm h.1), splitSlash_of_not_mem h.2]

theorem IsName.join_eq {t : Text} (h : IsName t) (p : PurePath) :
    p.join t = { p with parts := p.parts ++ [t] } := by
  have hroot : startswith t "/".toList = false := by
    cases t with
    | nil => exact absurd rfl h.ne_nil
    | cons c t =>
      have hc : '/' ≠ c := fun heq => h.slash (heq ▸ List.mem_cons_self ..)
      simp [startswith, List.isPrefixOf, hc]
  have hparts : (ofText t).parts = [t] := by
    rw [ofText, splitSlash_of_not_mem h.slash, List.filter_cons_of_pos (by simpa using ⟨h.ne_nil, h.ne_dot⟩),
      List.filter_nil]
  rw [join, hroot, if_neg Bool.false_ne_true, hparts]

theorem intercalate_concat (sep t : Text) : ∀ parts : List Text,
    List.intercalate sep (parts ++ [t]) = (parts.flatMap fun part => part ++ sep) ++ t
  | [] => by simp [List.intercalate]
  | [part] => by simp [List.intercalate]
  | part :: next :: parts => by
      have ih := intercalate_concat sep t (next :: parts)
      rw [List.flatMap_cons, List.append_assoc, ← ih]
      simp [List.intercalate, List.intersperse]

/-- CHILDREN RULE: a child is written as the path, and its name behind it. -/
theorem IsName.toText_join {t : Text} (h : IsName t) (p : PurePath) :
    (p.join t).toText = p.root ++ (p.parts.flatMap fun part => part ++ "/".toList) ++ t := by
  rw [h.join_eq, toText, if_neg (by simp), intercalate_concat, List.append_assoc]

/-- Children that are written alike have the same name. -/
theorem IsName.join_inj {t u : Text} (ht : IsName t) (hu : IsName u) {p : PurePath} :
    (p.join t).toText = (p.join u).toText ↔ t = u := by
  rw [ht.toText_join, hu.toText_join, List.append_cancel_left_eq]

theorem IsName.toText_ne_nil {t : Text} (h : IsName t) (p : PurePath) : (p.join t).toText ≠ [] := by
  rw [h.toText_join]
  simp [h.ne_nil]

end PurePath
