import Mathlib

/-!
Insertion-ordered dictionaries: overwriting a key keeps its place, a new key goes to the end,
and a deleted key comes back at the end.
-/

namespace Vllm

/-- Key-value pairs in insertion order, each key once. -/
structure Dict (K V : Type) where
  items : List (K × V)
  nodup : (items.map Prod.fst).Nodup

namespace Dict

variable {K V : Type} [DecidableEq K]

/-- The value under `k` in a list of pairs. -/
def lookup (k : K) : List (K × V) → Option V
  | [] => none
  | (k', v) :: rest => if k' = k then some v else lookup k rest

/-- Overwrite `k` in place, or append it. -/
def put (k : K) (v : V) : List (K × V) → List (K × V)
  | [] => [(k, v)]
  | (k', v') :: rest => if k' = k then (k, v) :: rest else (k', v') :: put k v rest

def drop (k : K) : List (K × V) → List (K × V)
  | [] => []
  | (k', v') :: rest => if k' = k then rest else (k', v') :: drop k rest

variable {k : K} {v : V}

theorem mem_keys_put {j : K} {xs : List (K × V)} :
    j ∈ (put k v xs).map Prod.fst ↔ j = k ∨ j ∈ xs.map Prod.fst := by
  induction xs with
  | nil => simp [put]
  | cons x rest ih =>
    obtain ⟨k', v'⟩ := x
    by_cases same : k' = k
    · simp [put, same]
    · simp only [put, same, ↓reduceIte, List.map_cons, List.mem_cons, ih]
      tauto

theorem nodup_put {xs : List (K × V)} (h : (xs.map Prod.fst).Nodup) :
    ((put k v xs).map Prod.fst).Nodup := by
  induction xs with
  | nil => simp [put]
  | cons x rest ih =>
    obtain ⟨k', v'⟩ := x
    simp only [List.map_cons, List.nodup_cons] at h
    by_cases same : k' = k
    · subst same
      simpa [put] using h
    · rw [put, if_neg same, List.map_cons, List.nodup_cons, mem_keys_put, not_or]
      exact ⟨⟨same, h.1⟩, ih h.2⟩

theorem drop_sublist (k : K) (xs : List (K × V)) : (drop k xs).Sublist xs := by
  induction xs with
  | nil => exact List.Sublist.refl _
  | cons x rest ih =>
    simp only [drop]
    split
    · exact List.sublist_cons_self _ _
    · exact ih.cons_cons _

def empty : Dict K V := ⟨[], by simp⟩

instance : EmptyCollection (Dict K V) := ⟨empty⟩

instance : Inhabited (Dict K V) := ⟨∅⟩

def get? (d : Dict K V) (k : K) : Option V := lookup k d.items

def contains (d : Dict K V) (k : K) : Bool := (d.get? k).isSome

/-- `d[k] = v` -/
def insert (d : Dict K V) (k : K) (v : V) : Dict K V := ⟨put k v d.items, nodup_put d.nodup⟩

/-- `d.pop(k, None)` -/
def erase (d : Dict K V) (k : K) : Dict K V :=
  ⟨drop k d.items, d.nodup.sublist ((drop_sublist k d.items).map _)⟩

def size (d : Dict K V) : ℕ := d.items.length

def keys (d : Dict K V) : List K := d.items.map Prod.fst

def values (d : Dict K V) : List V := d.items.map Prod.snd

/-- Every value replaced, keys and order kept. -/
def mapVal {W : Type} (f : K → V → W) (d : Dict K V) : Dict K W :=
  ⟨d.items.map fun x => (x.1, f x.1 x.2), by simpa [Function.comp_def] using d.nodup⟩

variable {d : Dict K V}

theorem mem_items_iff : (k, v) ∈ d.items ↔ d.get? k = some v := by
  obtain ⟨xs, h⟩ := d
  simp only [get?]
  induction xs with
  | nil => simp [lookup]
  | cons x rest ih =>
    obtain ⟨k', v'⟩ := x
    simp only [List.map_cons, List.nodup_cons] at h
    by_cases same : k' = k
    · subst same
      have absent : (k', v) ∉ rest := fun m => h.1 (List.mem_map_of_mem (f := Prod.fst) m)
      simp [lookup, absent, eq_comm]
    · simp [lookup, same, ih h.2, Ne.symm same]

theorem mem_keys_iff : k ∈ d.keys ↔ ∃ v, d.get? k = some v := by
  simp [keys, ← mem_items_iff]

omit [DecidableEq K] in
@[simp] theorem items_empty : (∅ : Dict K V).items = [] := rfl

@[simp] theorem get?_empty (k : K) : (∅ : Dict K V).get? k = none := rfl

@[simp] theorem get?_insert_self (d : Dict K V) (k : K) (v : V) : (d.insert k v).get? k = some v := by
  obtain ⟨xs, h⟩ := d
  simp only [get?, insert]
  clear h
  induction xs with
  | nil => simp [put, lookup]
  | cons x rest ih =>
    simp only [put]
    split
    · simp [lookup]
    · rename_i different
      simpa [lookup, different] using ih

theorem get?_insert_ne {j : K} (different : j ≠ k) : (d.insert k v).get? j = d.get? j := by
  obtain ⟨xs, h⟩ := d
  simp only [get?, insert]
  clear h
  induction xs with
  | nil => simp [put, lookup, Ne.symm different]
  | cons x rest ih =>
    obtain ⟨k', v'⟩ := x
    by_cases same : k' = k
    · subst same
      simp [put, lookup, Ne.symm different]
    · simp [put, lookup, same, ih]

theorem put_put (k : K) (v w : V) (xs : List (K × V)) : put k w (put k v xs) = put k w xs := by
  induction xs with
  | nil => simp [put]
  | cons x rest ih =>
    by_cases same : x.1 = k
    · simp [put, same]
    · simp [put, same, ih]

@[simp] theorem insert_insert (d : Dict K V) (k : K) (v w : V) :
    (d.insert k v).insert k w = d.insert k w := by
  simp [insert, put_put]

theorem get?_insert (d : Dict K V) (k j : K) (v : V) :
    (d.insert k v).get? j = if j = k then some v else d.get? j := by
  split
  · rename_i same; subst same; simp
  · rename_i different; exact get?_insert_ne different

@[simp] theorem get?_erase_self (d : Dict K V) (k : K) : (d.erase k).get? k = none := by
  obtain ⟨xs, h⟩ := d
  simp only [get?, erase]
  induction xs with
  | nil => rfl
  | cons x rest ih =>
    obtain ⟨k', v'⟩ := x
    simp only [List.map_cons, List.nodup_cons] at h
    by_cases same : k' = k
    · subst same
      have absent : lookup k' rest = none := by
        cases found : lookup k' rest with
        | none => rfl
        | some v =>
          exact (h.1 (List.mem_map_of_mem (f := Prod.fst)
            ((mem_items_iff (d := ⟨rest, h.2⟩)).mpr found))).elim
      simpa [drop] using absent
    · simpa [drop, lookup, same] using ih h.2

theorem get?_erase_ne {j : K} (different : j ≠ k) : (d.erase k).get? j = d.get? j := by
  obtain ⟨xs, h⟩ := d
  simp only [get?, erase]
  clear h
  induction xs with
  | nil => rfl
  | cons x rest ih =>
    obtain ⟨k', v'⟩ := x
    by_cases same : k' = k
    · subst same
      simp [drop, lookup, Ne.symm different]
    · simp [drop, lookup, same, ih]

theorem get?_erase (d : Dict K V) (k j : K) :
    (d.erase k).get? j = if j = k then none else d.get? j := by
  split
  · rename_i same; subst same; simp
  · rename_i different; exact get?_erase_ne different

@[simp] theorem get?_mapVal {W : Type} (f : K → V → W) (d : Dict K V) (k : K) :
    (d.mapVal f).get? k = (d.get? k).map (f k) := by
  obtain ⟨xs, h⟩ := d
  simp only [get?, mapVal]
  clear h
  induction xs with
  | nil => rfl
  | cons x rest ih =>
    obtain ⟨k', v'⟩ := x
    by_cases same : k' = k
    · subst same; simp [lookup]
    · simp [lookup, same, ih]

omit [DecidableEq K] in
@[simp] theorem size_mapVal {W : Type} (f : K → V → W) (d : Dict K V) :
    (d.mapVal f).size = d.size := by simp [size, mapVal]

omit [DecidableEq K] in
@[simp] theorem size_empty : (∅ : Dict K V).size = 0 := rfl

theorem size_eq_zero_iff : d.size = 0 ↔ ∀ k, d.get? k = none := by
  obtain ⟨xs, h⟩ := d
  cases xs with
  | nil => simp [size, get?, lookup]
  | cons x rest =>
    obtain ⟨k, v⟩ := x
    refine ⟨fun none => by simp [size] at none, fun absent => ?_⟩
    have present := absent k
    simp [get?, lookup] at present

theorem size_pos_of_get? (h : d.get? k = some v) : 0 < d.size := by
  rcases Nat.eq_zero_or_pos d.size with none | pos
  · rw [size_eq_zero_iff.mp none k] at h; cases h
  · exact pos

theorem size_erase_of_some (h : d.get? k = some v) : (d.erase k).size + 1 = d.size := by
  obtain ⟨xs, nodup⟩ := d
  simp only [get?, erase, size] at h ⊢
  clear nodup
  induction xs with
  | nil => cases h
  | cons x rest ih =>
    by_cases same : x.1 = k
    · simp [drop, same]
    · simp only [lookup, same, ↓reduceIte] at h
      simp [drop, same, ih h]

theorem contains_iff : d.contains k = true ↔ ∃ v, d.get? k = some v := by
  simp [contains, Option.isSome_iff_exists]

theorem not_contains_iff : d.contains k = false ↔ d.get? k = none := by
  simp [contains]

def ofKeys (v : V) (ks : List K) : Dict K V := ks.foldl (fun d k => d.insert k v) ∅

theorem get?_ofKeys (v : V) (ks : List K) (j : K) :
    (ofKeys v ks).get? j = if j ∈ ks then some v else none := by
  have grown : ∀ (ks : List K) (d : Dict K V),
      (ks.foldl (fun d k => d.insert k v) d).get? j = if j ∈ ks then some v else d.get? j := by
    intro ks
    induction ks with
    | nil => simp
    | cons k rest ih =>
      intro d
      rw [List.foldl_cons, ih, get?_insert]
      by_cases here : j = k <;> simp [here]
  exact grown ks ∅

end Dict
end Vllm
