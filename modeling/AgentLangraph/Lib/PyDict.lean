import Mathlib.Data.List.Nodup
import Mathlib.Data.List.Induction

/-! Python `dict`: an association list in insertion order whose keys are distinct. `set` keeps the
    position of a key that is already there, `del` removes it, `update` is `{**old, **new}`, and
    `groupBy` is the `defaultdict(list)` loop that sorts a list into buckets. -/

/-- Insertion-ordered dictionary. -/
structure PyDict (κ ν : Type*) where
  entries : List (κ × ν)
  nodup : (entries.map Prod.fst).Nodup

namespace PyDict

variable {κ ν α : Type*}

@[ext] theorem ext' {d e : PyDict κ ν} (h : d.entries = e.entries) : d = e := by
  cases d; cases e; simp only at h; subst h; rfl

instance [DecidableEq κ] [DecidableEq ν] : DecidableEq (PyDict κ ν) := fun d e =>
  decidable_of_iff (d.entries = e.entries) ⟨ext', fun h => h ▸ rfl⟩

def empty : PyDict κ ν := ⟨[], List.nodup_nil⟩

variable [DecidableEq κ]

/-! ### Association lists -/

def assocGet (k : κ) : List (κ × ν) → Option ν
  | [] => none
  | e :: es => if e.1 = k then some e.2 else assocGet k es

def assocSet (k : κ) (v : ν) : List (κ × ν) → List (κ × ν)
  | [] => [(k, v)]
  | e :: es => if e.1 = k then (k, v) :: es else e :: assocSet k v es

theorem keys_assocSet (k : κ) (v : ν) : ∀ es : List (κ × ν),
    (assocSet k v es).map Prod.fst =
      if k ∈ es.map Prod.fst then es.map Prod.fst else es.map Prod.fst ++ [k]
  | [] => by simp [assocSet]
  | e :: es => by
      by_cases he : e.1 = k
      · simp [assocSet, he]
      · have hk : k ≠ e.1 := fun h => he h.symm
        simp only [assocSet, if_neg he, List.map_cons, keys_assocSet k v es, List.mem_cons, hk,
          false_or]
        split <;> simp

theorem nodup_assocSet (k : κ) (v : ν) {es : List (κ × ν)} (h : (es.map Prod.fst).Nodup) :
    ((assocSet k v es).map Prod.fst).Nodup := by
  rw [keys_assocSet]
  split
  · exact h
  · rename_i hk
    exact List.nodup_append.2 ⟨h, List.nodup_singleton k, by
      intro a ha b hb hab
      rw [List.mem_singleton] at hb
      exact hk (hb ▸ hab ▸ ha)⟩

theorem mem_assocSet {k : κ} {v : ν} {e : κ × ν} : ∀ {es : List (κ × ν)}, e ∈ assocSet k v es → e ∈ es ∨ e = (k, v)
  | [], h => Or.inr (List.mem_singleton.1 h)
  | e' :: es, h => by
      rw [assocSet] at h
      split_ifs at h
      · exact (List.mem_cons.1 h).elim Or.inr fun hmem => Or.inl (List.mem_cons_of_mem _ hmem)
      · rcases List.mem_cons.1 h with rfl | h
        · exact Or.inl List.mem_cons_self
        · exact (mem_assocSet h).imp_left (List.mem_cons_of_mem _)

theorem assocGet_assocSet (k k' : κ) (v : ν) : ∀ es : List (κ × ν),
    assocGet k' (assocSet k v es) = if k = k' then some v else assocGet k' es
  | [] => by simp [assocSet, assocGet]
  | e :: es => by
      by_cases he : e.1 = k
      · by_cases hk : k = k'
        · simp [assocSet, assocGet, he, hk]
        · simp [assocSet, assocGet, he, hk]
      · by_cases hk : k = k'
        · subst hk
          simp [assocSet, assocGet, he, assocGet_assocSet k k v es]
        · simp [assocSet, assocGet, he, assocGet_assocSet k k' v es, hk]

theorem assocSet_of_get {k : κ} {v : ν} : ∀ {es : List (κ × ν)}, assocGet k es = some v →
    assocSet k v es = es
  | [], h => by simp [assocGet] at h
  | e :: es, h => by
      by_cases he : e.1 = k
      · rw [assocGet, if_pos he, Option.some.injEq] at h
        rw [assocSet, if_pos he, ← he, ← h]
      · rw [assocGet, if_neg he] at h
        rw [assocSet, if_neg he, assocSet_of_get h]

theorem mem_iff_assocGet {k : κ} {v : ν} : ∀ {es : List (κ × ν)}, (es.map Prod.fst).Nodup →
    ((k, v) ∈ es ↔ assocGet k es = some v)
  | [], _ => by simp [assocGet]
  | e :: es, h => by
      rw [List.map_cons, List.nodup_cons] at h
      by_cases he : e.1 = k
      · have hnot : (k, v) ∉ es := fun hmem => h.1 (List.mem_map.2 ⟨(k, v), hmem, he.symm⟩)
        rw [assocGet, if_pos he, List.mem_cons]
        constructor
        · rintro (rfl | hmem)
          · rfl
          · exact absurd hmem hnot
        · intro hv
          exact Or.inl (Prod.ext he.symm (Option.some.inj hv).symm)
      · have hne : (k, v) ≠ e := by rintro rfl; exact he rfl
        rw [assocGet, if_neg he, List.mem_cons, ← mem_iff_assocGet h.2]
        simp [hne]

theorem assocGet_eq_none {k : κ} : ∀ {es : List (κ × ν)}, k ∉ es.map Prod.fst → assocGet k es = none
  | [], _ => rfl
  | e :: es, h => by
      rw [List.map_cons, List.mem_cons, not_or] at h
      rw [assocGet, if_neg (Ne.symm h.1), assocGet_eq_none h.2]

/-! ### Operations -/

/-- `d.get(k)`. -/
def get? (d : PyDict κ ν) (k : κ) : Option ν := assocGet k d.entries

/-- `d.get(k, default)`. -/
def getD (d : PyDict κ ν) (k : κ) (default : ν) : ν := (d.get? k).getD default

/-- `d[k] = v`. -/
def set (d : PyDict κ ν) (k : κ) (v : ν) : PyDict κ ν :=
  ⟨assocSet k v d.entries, nodup_assocSet k v d.nodup⟩

/-- `d.pop(k, None)`, the dictionary that is left. -/
def erase (d : PyDict κ ν) (k : κ) : PyDict κ ν :=
  ⟨d.entries.filter fun e => e.1 ≠ k, d.nodup.sublist (List.filter_sublist.map _)⟩

/-- `{k: v for k, v in d.items() if p(k)}`. -/
def filterKeys (d : PyDict κ ν) (p : κ → Bool) : PyDict κ ν :=
  ⟨d.entries.filter fun e => p e.1, d.nodup.sublist (List.filter_sublist.map _)⟩

/-- A dict display `{k: v, …}`. -/
def ofList (es : List (κ × ν)) : PyDict κ ν := es.foldl (fun acc kv => acc.set kv.1 kv.2) empty

/-- `{**d, **e}`. -/
def update (d e : PyDict κ ν) : PyDict κ ν := e.entries.foldl (fun acc kv => acc.set kv.1 kv.2) d

@[simp] theorem get?_empty (k : κ) : (empty : PyDict κ ν).get? k = none := rfl

@[simp] theorem get?_set_self (d : PyDict κ ν) (k : κ) (v : ν) : (d.set k v).get? k = some v := by
  simp [get?, set, assocGet_assocSet]

theorem mem_entries_set {d : PyDict κ ν} {k : κ} {v : ν} {e : κ × ν} (h : e ∈ (d.set k v).entries) :
    e ∈ d.entries ∨ e = (k, v) := mem_assocSet h

theorem get?_set_ne (d : PyDict κ ν) {k k' : κ} (h : k ≠ k') (v : ν) :
    (d.set k v).get? k' = d.get? k' := by
  simp [get?, set, assocGet_assocSet, h]

theorem get?_set (d : PyDict κ ν) (k k' : κ) (v : ν) :
    (d.set k v).get? k' = if k = k' then some v else d.get? k' :=
  assocGet_assocSet k k' v d.entries

theorem assocGet_filter_ne {k k' : κ} (h : k ≠ k') (es : List (κ × ν)) :
    assocGet k' (es.filter fun e => e.1 ≠ k) = assocGet k' es := by
  induction es with
  | nil => rfl
  | cons e es ih =>
    by_cases he : e.1 = k
    · have hk : e.1 ≠ k' := fun hk => h (he.symm.trans hk)
      rw [List.filter_cons_of_neg (by simp [he]), ih, assocGet, if_neg hk]
    · rw [List.filter_cons_of_pos (by simp [he]), assocGet, ih, assocGet]

theorem assocGet_filter (p : κ → Bool) (k : κ) (es : List (κ × ν)) :
    assocGet k (es.filter fun e => p e.1) = if p k then assocGet k es else none := by
  induction es with
  | nil => simp [assocGet]
  | cons e es ih =>
    rw [List.filter_cons, assocGet]
    by_cases he : e.1 = k
    · subst he
      cases hp : p e.1 with
      | true => simp [assocGet]
      | false => simpa [hp] using ih
    · rw [if_neg he, ← ih]
      split_ifs
      · rw [assocGet, if_neg he]
      · rfl

theorem get?_filterKeys (d : PyDict κ ν) (p : κ → Bool) (k : κ) :
    (d.filterKeys p).get? k = if p k then d.get? k else none := assocGet_filter p k d.entries

theorem get?_erase_ne (d : PyDict κ ν) {k k' : κ} (h : k ≠ k') :
    (d.erase k).get? k' = d.get? k' := assocGet_filter_ne h d.entries

@[simp] theorem get?_erase_self (d : PyDict κ ν) (k : κ) : (d.erase k).get? k = none := by
  cases hk : (d.erase k).get? k with
  | none => rfl
  | some v =>
    have hmem := (mem_iff_assocGet (d.erase k).nodup).2 hk
    have hne := (List.mem_filter.1 hmem).2
    simp at hne

/-- Every entry of `e` is one of `d`. -/
def Sub (e d : PyDict κ ν) : Prop := ∀ k v, e.get? k = some v → d.get? k = some v

theorem Sub.refl (d : PyDict κ ν) : d.Sub d := fun _ _ h => h

theorem Sub.trans {d e f : PyDict κ ν} (h : d.Sub e) (h' : e.Sub f) : d.Sub f :=
  fun k v hk => h' k v (h k v hk)

theorem erase_sub (d : PyDict κ ν) (k : κ) : (d.erase k).Sub d := by
  intro k' v h
  by_cases hk : k = k'
  · subst hk
    simp at h
  · rwa [get?_erase_ne d hk] at h

theorem Sub.get?_none {d e : PyDict κ ν} (h : e.Sub d) {k : κ} (hk : d.get? k = none) :
    e.get? k = none := by
  cases he : e.get? k with
  | none => rfl
  | some v => rw [h k v he] at hk; cases hk

theorem get?_foldl_set (es : List (κ × ν)) (k : κ) (hnodup : (es.map Prod.fst).Nodup) :
    ∀ d : PyDict κ ν, (es.foldl (fun acc kv => acc.set kv.1 kv.2) d).get? k =
      (assocGet k es).or (d.get? k) := by
  induction es with
  | nil => intro d; rfl
  | cons e es ih =>
    intro d
    rw [List.map_cons, List.nodup_cons] at hnodup
    rw [List.foldl_cons, ih hnodup.2, get?_set, assocGet]
    by_cases he : e.1 = k
    · have hnone : assocGet k es = none := assocGet_eq_none (he ▸ hnodup.1)
      rw [if_pos he, if_pos he, hnone]
      rfl
    · rw [if_neg he, if_neg he]

/-- `{**d, **e}` has the values of `e`, and those of `d` where `e` has none. -/
theorem get?_update (d e : PyDict κ ν) (k : κ) :
    (d.update e).get? k = (e.get? k).or (d.get? k) :=
  get?_foldl_set e.entries k e.nodup d

/-- Merging leaves what the other dictionary has the same or does not have. -/
theorem get?_update_of_eq {d e : PyDict κ ν} {k : κ} (h : e.get? k = d.get? k) :
    (d.update e).get? k = d.get? k := by
  rw [get?_update, h, Option.or_self]

theorem get?_update_of_none {d e : PyDict κ ν} {k : κ} (h : e.get? k = none) :
    (d.update e).get? k = d.get? k := by
  rw [get?_update, h, Option.none_or]

/-- Merging some of its own entries back changes no value. -/
theorem Sub.get?_update {d e : PyDict κ ν} (h : e.Sub d) (k : κ) :
    (d.update e).get? k = d.get? k := by
  rw [PyDict.get?_update]
  cases hk : e.get? k with
  | none => rfl
  | some v => exact (h k v hk).symm

/-- Storing what is already there changes nothing, the order included. -/
theorem set_eq_self {d : PyDict κ ν} {k : κ} {v : ν} (h : d.get? k = some v) : d.set k v = d :=
  ext' (assocSet_of_get h)

theorem foldl_set_eq_self {d : PyDict κ ν} : ∀ {es : List (κ × ν)},
    (∀ e ∈ es, d.get? e.1 = some e.2) → es.foldl (fun acc kv => acc.set kv.1 kv.2) d = d
  | [], _ => rfl
  | e :: es, h => by
      rw [List.foldl_cons, set_eq_self (h e List.mem_cons_self)]
      exact foldl_set_eq_self fun e' he' => h e' (List.mem_cons_of_mem _ he')

theorem mem_entries {d : PyDict κ ν} {k : κ} {v : ν} :
    (k, v) ∈ d.entries ↔ d.get? k = some v := mem_iff_assocGet d.nodup

/-- Some of its own entries merged back are the dictionary itself. -/
theorem Sub.update_eq_self {d e : PyDict κ ν} (h : e.Sub d) : d.update e = d :=
  foldl_set_eq_self fun kv hkv => h kv.1 kv.2 (mem_entries.1 hkv)

theorem assocSet_of_not_mem {k : κ} {v : ν} : ∀ {es : List (κ × ν)}, k ∉ es.map Prod.fst →
    assocSet k v es = es ++ [(k, v)]
  | [], _ => rfl
  | e :: es, h => by
      rw [List.map_cons, List.mem_cons, not_or] at h
      rw [assocSet, if_neg fun he => h.1 he.symm, assocSet_of_not_mem h.2, List.cons_append]

theorem entries_foldl_set : ∀ (es : List (κ × ν)) (d : PyDict κ ν),
    ((d.entries ++ es).map Prod.fst).Nodup →
      (es.foldl (fun acc kv => acc.set kv.1 kv.2) d).entries = d.entries ++ es
  | [], d, _ => (List.append_nil d.entries).symm
  | e :: es, d, h => by
      have hnot : e.1 ∉ d.entries.map Prod.fst := by
        rw [List.map_append, List.nodup_append] at h
        exact fun hmem => h.2.2 e.1 hmem e.1 List.mem_cons_self rfl
      have hset : (d.set e.1 e.2).entries = d.entries ++ [e] := assocSet_of_not_mem hnot
      rw [List.foldl_cons, entries_foldl_set es _ (by rw [hset, List.append_assoc]; exact h), hset,
        List.append_assoc]
      rfl

/-- A dictionary rebuilt from its entries is the same one. -/
@[simp] theorem ofList_entries (d : PyDict κ ν) : ofList d.entries = d :=
  ext' ((entries_foldl_set d.entries empty d.nodup).trans (List.nil_append d.entries))

theorem get?_foldl_set_of_not_mem {k : κ} : ∀ {es : List (κ × ν)} {d : PyDict κ ν}, k ∉ es.map Prod.fst →
    (es.foldl (fun acc kv => acc.set kv.1 kv.2) d).get? k = d.get? k
  | [], _, _ => rfl
  | e :: es, d, h => by
      rw [List.map_cons, List.mem_cons, not_or] at h
      rw [List.foldl_cons, get?_foldl_set_of_not_mem h.2, get?_set_ne _ (Ne.symm h.1)]

/-- The last entry of a key counts. -/
theorem get?_ofList_append {before after : List (κ × ν)} {k : κ} {v : ν} (h : k ∉ after.map Prod.fst) :
    (ofList (before ++ (k, v) :: after)).get? k = some v := by
  rw [ofList, List.foldl_append, List.foldl_cons, get?_foldl_set_of_not_mem h, get?_set_self]

/-- Entries with different keys are those of the dictionary. -/
theorem entries_ofList {es : List (κ × ν)} (h : (es.map Prod.fst).Nodup) : (ofList es).entries = es :=
  (entries_foldl_set es empty h).trans (List.nil_append es)

theorem mem_entries_foldl_set {e : κ × ν} : ∀ {es : List (κ × ν)} {d : PyDict κ ν},
    e ∈ (es.foldl (fun acc kv => acc.set kv.1 kv.2) d).entries → e ∈ d.entries ∨ e ∈ es
  | [], _, h => Or.inl h
  | kv :: es, d, h => by
      rcases @mem_entries_foldl_set e es (d.set kv.1 kv.2) h with h | h
      · exact (mem_entries_set h).imp_right fun he => List.mem_cons.2 (Or.inl he)
      · exact Or.inr (List.mem_cons_of_mem _ h)

theorem mem_entries_update {d f : PyDict κ ν} {e : κ × ν} (h : e ∈ (d.update f).entries) :
    e ∈ d.entries ∨ e ∈ f.entries := mem_entries_foldl_set h

/-! ### Dictionaries that grow at their end -/

/-- `e` begins with the keys of `d`. -/
def Extends (d e : PyDict κ ν) : Prop := d.entries.map Prod.fst <+: e.entries.map Prod.fst

omit [DecidableEq κ] in
theorem Extends.refl (d : PyDict κ ν) : d.Extends d := List.prefix_rfl

omit [DecidableEq κ] in
theorem Extends.trans {d e f : PyDict κ ν} (h : d.Extends e) (h' : e.Extends f) : d.Extends f :=
  List.IsPrefix.trans h h'

theorem extends_set (d : PyDict κ ν) (k : κ) (v : ν) : d.Extends (d.set k v) := by
  rw [Extends, set, keys_assocSet]
  split
  · exact List.prefix_rfl
  · exact List.prefix_append _ _

omit [DecidableEq κ] in
theorem extends_foldl {f : PyDict κ ν → α → PyDict κ ν} (hf : ∀ (d : PyDict κ ν) a, d.Extends (f d a)) (l : List α) :
    ∀ d : PyDict κ ν, d.Extends (l.foldl f d) := by
  induction l with
  | nil => exact Extends.refl
  | cons a l ih => exact fun d => (hf d a).trans (ih (f d a))

theorem extends_update (d e : PyDict κ ν) : d.Extends (d.update e) := by
  have hset (acc : PyDict κ ν) (kv : κ × ν) : acc.Extends (acc.set kv.1 kv.2) := extends_set acc kv.1 kv.2
  exact extends_foldl hset e.entries d

theorem mem_keys_iff {d : PyDict κ ν} {k : κ} : k ∈ d.entries.map Prod.fst ↔ ∃ v, d.get? k = some v := by
  constructor
  · intro h
    obtain ⟨⟨l, v⟩, hmem, rfl⟩ := List.mem_map.1 h
    exact ⟨v, mem_entries.1 hmem⟩
  · rintro ⟨v, hv⟩
    exact List.mem_map_of_mem (mem_entries.2 hv)

theorem eq_of_keys_eq : ∀ {es fs : List (κ × ν)}, es.map Prod.fst = fs.map Prod.fst → (es.map Prod.fst).Nodup →
    (∀ k, assocGet k es = assocGet k fs) → es = fs
  | [], fs, h, _, _ => (List.map_eq_nil_iff.1 h.symm).symm
  | e :: es, [], h, _, _ => by cases h
  | (k, v) :: es, (l, w) :: fs, h, hd, hget => by
    obtain ⟨rfl, htail⟩ := List.cons.inj h
    rw [List.map_cons, List.nodup_cons] at hd
    have hv := hget k
    simp only [assocGet, if_true, Option.some.injEq] at hv
    have hrest : es = fs := by
      refine eq_of_keys_eq htail hd.2 fun l => ?_
      by_cases hl : k = l
      · subst hl
        rw [assocGet_eq_none hd.1, assocGet_eq_none (htail ▸ hd.1)]
      · have hl' := hget l
        simpa [assocGet, hl] using hl'
    rw [hv, hrest]

/-- A dictionary that has only grown, and in which every key has its old value, is the old one. -/
theorem Extends.eq_of_get? {d e : PyDict κ ν} (h : d.Extends e) (hget : ∀ k, e.get? k = d.get? k) : e = d := by
  obtain ⟨more, hmore⟩ := h
  have hnil : more = [] := by
    rw [List.eq_nil_iff_forall_not_mem]
    intro k hk
    have hmem : k ∈ e.entries.map Prod.fst := hmore ▸ List.mem_append_right _ hk
    obtain ⟨v, hv⟩ := mem_keys_iff.1 hmem
    have hold := mem_keys_iff.2 ⟨v, (hget k).symm.trans hv⟩
    have hnodup := e.nodup
    rw [← hmore, List.nodup_append] at hnodup
    exact hnodup.2.2 k hold k hk rfl
  rw [hnil, List.append_nil] at hmore
  exact ext' (eq_of_keys_eq hmore.symm e.nodup hget)

/-! ### Grouping -/

/-- `by = defaultdict(list); for x in xs: by[f(x)].append(x)`. -/
def groupBy (f : α → κ) (xs : List α) : PyDict κ (List α) :=
  xs.foldl (fun d x => d.set (f x) (d.getD (f x) [] ++ [x])) empty

theorem groupBy_concat (f : α → κ) (xs : List α) (x : α) :
    groupBy f (xs ++ [x]) =
      (groupBy f xs).set (f x) ((groupBy f xs).getD (f x) [] ++ [x]) := by
  simp [groupBy, List.foldl_append]

/-- A bucket holds the elements that belong to it, in their original order. -/
theorem get?_groupBy (f : α → κ) (xs : List α) (k : κ) :
    (groupBy f xs).get? k =
      if xs.filter (fun x => f x = k) = [] then none else some (xs.filter fun x => f x = k) := by
  induction xs using List.reverseRec with
  | nil => rfl
  | append_singleton xs x ih =>
    rw [groupBy_concat, get?_set, List.filter_append]
    by_cases hx : f x = k
    · rw [if_pos hx, hx, getD, ih]
      by_cases hnil : xs.filter (fun x => f x = k) = []
      · simp [hnil, hx]
      · simp [hnil, hx]
    · rw [if_neg hx, ih]
      simp [hx]

theorem mem_groupBy {f : α → κ} {xs : List α} {k : κ} {ys : List α} :
    (k, ys) ∈ (groupBy f xs).entries ↔
      ys = xs.filter (fun x => f x = k) ∧ ∃ x ∈ xs, f x = k := by
  rw [mem_entries, get?_groupBy]
  constructor
  · intro h
    split at h
    · simp at h
    · rename_i hne
      rw [Option.some.injEq] at h
      obtain ⟨x, hx⟩ := List.exists_mem_of_ne_nil _ hne
      rw [List.mem_filter] at hx
      exact ⟨h.symm, x, hx.1, by simpa using hx.2⟩
  · rintro ⟨rfl, x, hx, hk⟩
    have hne : xs.filter (fun x => f x = k) ≠ [] :=
      List.ne_nil_of_mem (List.mem_filter.2 ⟨hx, by simpa using hk⟩)
    rw [if_neg hne]

theorem flatMap_assocSet (k : κ) (x : α) : ∀ es : List (κ × List α),
    ((assocSet k ((assocGet k es).getD [] ++ [x]) es).flatMap Prod.snd).Perm
      (es.flatMap Prod.snd ++ [x])
  | [] => by simp [assocSet, assocGet]
  | e :: es => by
      by_cases he : e.1 = k
      · rw [assocSet, if_pos he, assocGet, if_pos he]
        simp only [List.flatMap_cons, Option.getD_some, List.append_assoc]
        exact List.perm_append_comm.append_left e.2
      · rw [assocSet, if_neg he, assocGet, if_neg he]
        simp only [List.flatMap_cons, List.append_assoc]
        exact (flatMap_assocSet k x es).append_left e.2

/-- The buckets together hold every element once. -/
theorem flatMap_groupBy_perm (f : α → κ) (xs : List α) :
    ((groupBy f xs).entries.flatMap Prod.snd).Perm xs := by
  induction xs using List.reverseRec with
  | nil => rfl
  | append_singleton xs x ih =>
    rw [groupBy_concat]
    exact (flatMap_assocSet (f x) x (groupBy f xs).entries).trans (ih.append_right [x])

end PyDict
