import Mathlib

/-!
Tensors as lists of rows: rows read and written through a list of indices, and cut to one length; blocks of
one size, and lists in which some items have a second one in front of them. `none` is where PyTorch raises.
-/

namespace Vllm.Chunks

variable {α : Type}

/-- The `i`-th stretch of `n` items. -/
def chunk (n : ℕ) (xs : List α) (i : ℕ) : List α := (xs.drop (i * n)).take n

/-- What `m` blocks of size `n` contain. -/
def spread (n m : ℕ) (xs : List α) : List (List α) := (List.range m).map (chunk n xs)

theorem spread_succ (n m : ℕ) (xs : List α) : spread n (m + 1) xs = xs.take n :: spread n m (xs.drop n) := by
  have later : ∀ i, chunk n xs (i + 1) = chunk n (xs.drop n) i := by
    intro i
    unfold chunk
    rw [List.drop_drop, Nat.succ_mul, Nat.add_comm n]
  unfold spread
  rw [List.range_succ_eq_map, List.map_cons, List.map_map]
  congr 1
  · simp [chunk]
  · exact List.map_congr_left fun i _ => later i

theorem modify_append_cons (before after : List α) (x : α) (f : α → α) :
    (before ++ x :: after).modify before.length f = before ++ f x :: after := by
  induction before with
  | nil => rfl
  | cons y before ih => simp [ih]

end Vllm.Chunks

namespace Vllm.IndexedRows

variable {α β : Type}

def gather (rows : List α) : List ℕ → Option (List α)
  | [] => some []
  | i :: indices => do
    let row ← rows[i]?
    let others ← gather rows indices
    return row :: others

/-- The rows at the given places rewritten, one after another. -/
def scatter (write : α → β → α) (rows : List α) (entries : List (ℕ × β)) : List α :=
  entries.foldl (fun rows entry => rows.modify entry.1 (write · entry.2)) rows

/-- `rows[indices, ..] = values`, where `write` puts a value into a row; one value is used for all indices. -/
def assignWith (write : α → β → α) (rows : List α) (indices : List ℕ) (values : List β) : Option (List α) :=
  if indices.all (· < rows.length) then
    if values.length = indices.length then some (scatter write rows (indices.zip values))
    else
      match values with
      | [value] => some (scatter write rows (indices.map fun i => (i, value)))
      | _ => none
  else none

def assign (rows : List α) (indices : List ℕ) (values : List α) : Option (List α) :=
  assignWith (fun _ value => value) rows indices values

def reshape (m n : ℕ) (xs : List α) : Option (List (List α)) :=
  if xs.length = m * n then some (Chunks.spread n m xs) else none

/-- `xs.split((m, n))` -/
def split (m : ℤ) (n : ℕ) (xs : List α) : Option (List α × List α) :=
  if 0 ≤ m ∧ m + n = xs.length then some (xs.take m.toNat, xs.drop m.toNat) else none

variable {rows : List α} {indices : List ℕ} {f : ℕ → α}

theorem gather_map (read : ∀ i ∈ indices, rows[i]? = some (f i)) : gather rows indices = some (indices.map f) := by
  induction indices with
  | nil => rfl
  | cons i indices ih =>
    rw [gather, read i List.mem_cons_self, ih fun j member => read j (List.mem_cons_of_mem i member)]
    rfl

theorem gather_range' (before rows : List α) :
    gather (before ++ rows) (List.range' before.length rows.length) = some rows := by
  induction rows generalizing before with
  | nil => rfl
  | cons row rows ih =>
    have later := ih (before ++ [row])
    rw [List.length_append, List.append_assoc] at later
    have here : (before ++ row :: rows)[before.length]? = some row := by
      rw [List.getElem?_append_right le_rfl, Nat.sub_self]
      rfl
    rw [List.length_cons, List.range'_succ, gather, here]
    exact congrArg (fun others => do return row :: (← others)) later

/-- Every row, in order. -/
theorem gather_range (rows : List α) : gather rows (List.range rows.length) = some rows := by
  rw [List.range_eq_range']
  exact gather_range' [] rows

/-- The order of the places does not matter. -/
theorem scatter_map (write : α → β → α) (rows : List α) (g : ℕ → β) (distinct : indices.Nodup) :
    scatter write rows (indices.map fun i => (i, g i)) =
      rows.mapIdx fun i row => if i ∈ indices then write row (g i) else row := by
  induction indices generalizing rows with
  | nil => exact List.ext_getElem (by simp [scatter]) fun i _ _ => by simp [scatter]
  | cons j indices ih =>
    obtain ⟨notLater, distinct⟩ := List.nodup_cons.mp distinct
    have next : scatter write rows ((j :: indices).map fun i => (i, g i)) =
        scatter write (rows.modify j (write · (g j))) (indices.map fun i => (i, g i)) := rfl
    rw [next, ih _ distinct]
    apply List.ext_getElem
    · simp
    · intro i _ inside
      rw [List.getElem_mapIdx, List.getElem_mapIdx, List.getElem_modify]
      by_cases here : j = i
      · subst here
        simp [notLater]
      · have other : i ≠ j := Ne.symm here
        simp [here, other]

theorem assignWith_map (write : α → β → α) (g : ℕ → β) (inside : ∀ i ∈ indices, i < rows.length)
    (distinct : indices.Nodup) :
    assignWith write rows indices (indices.map g) =
      some (rows.mapIdx fun i row => if i ∈ indices then write row (g i) else row) := by
  have pairs : indices.zip (indices.map g) = indices.map fun i => (i, g i) := by
    rw [List.zip_map_right, List.zip_eq_zipWith, List.zipWith_self, List.map_map]
    rfl
  unfold assignWith
  rw [if_pos (by simpa using inside), if_pos (by simp), pairs, scatter_map _ _ _ distinct]

theorem assign_map (g : ℕ → α) (inside : ∀ i ∈ indices, i < rows.length) (distinct : indices.Nodup) :
    assign rows indices (indices.map g) = some (rows.mapIdx fun i row => if i ∈ indices then g i else row) :=
  assignWith_map _ g inside distinct

/-- One value for all of the places. -/
theorem assign_one (value : α) (inside : ∀ i ∈ indices, i < rows.length) (distinct : indices.Nodup) :
    assign rows indices [value] = some (rows.mapIdx fun i row => if i ∈ indices then value else row) := by
  by_cases single : indices.length = 1
  · obtain ⟨i, rfl⟩ := List.length_eq_one_iff.mp single
    exact assign_map (fun _ => value) inside distinct
  · unfold assign assignWith
    rw [if_pos (by simpa using inside), if_neg (fun same => single same.symm)]
    exact congrArg some (scatter_map _ rows (fun _ => value) distinct)

theorem zipIdx_eq_idxOf {rows : List ℕ} (distinct : rows.Nodup) :
    rows.zipIdx = rows.map fun i => (i, rows.idxOf i) := by
  apply List.ext_getElem
  · simp
  · intro r left right
    have inside : r < rows.length := by simpa using right
    simp [distinct.idxOf_getElem r inside]

variable {xs : List β} {g : β → List α}

/-- Pieces of one length, one after another, are cut back into the pieces. -/
theorem spread_flatMap {n : ℕ} (length : ∀ x ∈ xs, (g x).length = n) :
    Chunks.spread n xs.length (xs.flatMap g) = xs.map g := by
  induction xs with
  | nil => rfl
  | cons x xs ih =>
    have first := length x List.mem_cons_self
    rw [List.length_cons, Chunks.spread_succ, List.flatMap_cons, List.map_cons, ← first, List.take_left',
      List.drop_left', first, ih fun y member => length y (List.mem_cons_of_mem x member)]
    · rfl
    · rfl

theorem length_flatMap_const {n : ℕ} (length : ∀ x ∈ xs, (g x).length = n) :
    (xs.flatMap g).length = xs.length * n := by
  induction xs with
  | nil => simp
  | cons x xs ih =>
    rw [List.flatMap_cons, List.length_append, length x List.mem_cons_self,
      ih fun y member => length y (List.mem_cons_of_mem x member), List.length_cons, Nat.succ_mul, Nat.add_comm]

theorem reshape_flatMap {n : ℕ} (length : ∀ x ∈ xs, (g x).length = n) :
    reshape xs.length n (xs.flatMap g) = some (xs.map g) := by
  unfold reshape
  rw [if_pos (length_flatMap_const length), spread_flatMap length]

theorem split_append (xs ys : List α) :
    split ((xs ++ ys).length - ys.length : ℤ) ys.length (xs ++ ys) = some (xs, ys) := by
  have first : ((xs ++ ys).length - ys.length : ℤ) = xs.length := by
    rw [List.length_append]
    push_cast
    ring
  unfold split
  rw [first, if_pos ⟨Int.natCast_nonneg _, by rw [List.length_append]; push_cast; ring⟩, Int.toNat_natCast,
    List.take_left, List.drop_left]

end Vllm.IndexedRows

namespace Vllm.Doubled

variable {α β : Type}

/-- The items, each after the one in front of it, if there is one. -/
def flat (pairs : List (Option α × α)) : List α := pairs.flatMap fun pair => pair.1.toList ++ [pair.2]

/-- The places of the items, from place `i` on. -/
def places : ℕ → List (Option α × α) → List ℕ
  | _, [] => []
  | i, (front, _) :: pairs => (i + front.toList.length) :: places (i + front.toList.length + 1) pairs

def mapPair (f : α → β) (pair : Option α × α) : Option β × β := (pair.1.map f, f pair.2)

/-- What is kept of a list are its items: those in front of others, for the items that have one, are left out. -/
def Keeps (fronts : List Bool) (all kept : List α) : Prop :=
  ∃ pairs : List (Option α × α), all = flat pairs ∧ kept = pairs.map Prod.snd ∧ pairs.map (·.1.isSome) = fronts

variable {pairs : List (Option α × α)} {i : ℕ}

@[simp] theorem flat_nil : flat ([] : List (Option α × α)) = [] := rfl

@[simp] theorem flat_cons (pair : Option α × α) (pairs : List (Option α × α)) :
    flat (pair :: pairs) = pair.1.toList ++ pair.2 :: flat pairs := by
  simp [flat]

@[simp] theorem flat_append (first second : List (Option α × α)) :
    flat (first ++ second) = flat first ++ flat second := by
  simp [flat]

theorem mem_flat {x : α} : x ∈ flat pairs ↔ ∃ pair ∈ pairs, x ∈ pair.1 ∨ x = pair.2 := by
  simp [flat, List.mem_flatMap]

theorem map_flat (f : α → β) (pairs : List (Option α × α)) : (flat pairs).map f = flat (pairs.map (mapPair f)) := by
  induction pairs with
  | nil => rfl
  | cons pair pairs ih => cases front : pair.1 <;> simp [mapPair, front, ih]

theorem places_map (f : α → β) (i : ℕ) (pairs : List (Option α × α)) :
    places i (pairs.map (mapPair f)) = places i pairs := by
  induction pairs generalizing i with
  | nil => rfl
  | cons pair pairs ih => cases front : pair.1 <;> simp [places, mapPair, front, ih]

/-- The places depend on nothing but which items have one in front. -/
theorem places_congr {first : List (Option α × α)} {second : List (Option β × β)}
    (same : first.map (·.1.isSome) = second.map (·.1.isSome)) (i : ℕ) : places i first = places i second := by
  induction first generalizing second i with
  | nil =>
    rw [List.map_nil, eq_comm, List.map_eq_nil_iff] at same
    rw [same]
    rfl
  | cons pair first ih =>
    cases second with
    | nil => cases same
    | cons other second =>
      rw [List.map_cons, List.map_cons] at same
      obtain ⟨here, later⟩ := List.cons.inj same
      have length : pair.1.toList.length = other.1.toList.length := by
        revert here
        cases pair.1 <;> cases other.1 <;> simp
      rw [places, places, length, ih later]

theorem gather_places (before : List α) (pairs : List (Option α × α)) :
    IndexedRows.gather (before ++ flat pairs) (places before.length pairs) = some (pairs.map Prod.snd) := by
  induction pairs generalizing before with
  | nil => rfl
  | cons pair pairs ih =>
    have here : (before ++ flat (pair :: pairs))[before.length + pair.1.toList.length]? = some pair.2 := by
      rw [flat_cons, ← List.append_assoc, ← List.length_append, List.getElem?_append_right le_rfl, Nat.sub_self]
      rfl
    have later := ih (before ++ (pair.1.toList ++ [pair.2]))
    have size : (before ++ (pair.1.toList ++ [pair.2])).length = before.length + pair.1.toList.length + 1 := by
      simp [Nat.add_assoc]
    have same : before ++ (pair.1.toList ++ [pair.2]) ++ flat pairs = before ++ flat (pair :: pairs) := by simp
    rw [size, same] at later
    rw [places, IndexedRows.gather, here, later]
    rfl

/-- A list of as many entries, one for each. -/
theorem exists_zip (pairs : List (Option α × α)) {ys : List β} (size : ys.length = (flat pairs).length) :
    ∃ zipped : List (Option (α × β) × (α × β)),
      zipped.map (mapPair Prod.fst) = pairs ∧ (flat zipped).map Prod.snd = ys := by
  induction pairs generalizing ys with
  | nil =>
    rw [List.eq_nil_of_length_eq_zero size]
    exact ⟨[], rfl, rfl⟩
  | cons pair pairs ih =>
    obtain ⟨front, item⟩ := pair
    cases front with
    | none =>
      obtain ⟨y, ys, rfl⟩ := List.exists_cons_of_length_eq_add_one size
      obtain ⟨zipped, firsts, seconds⟩ := ih (by simpa using size)
      exact ⟨(none, (item, y)) :: zipped, by simp [mapPair, firsts], by simp [seconds]⟩
    | some lead =>
      have size : ys.length = (flat pairs).length + 1 + 1 := size
      obtain ⟨x, ys, rfl⟩ := List.exists_cons_of_length_eq_add_one size
      obtain ⟨y, ys, rfl⟩ := List.exists_cons_of_length_eq_add_one (by simpa using size)
      obtain ⟨zipped, firsts, seconds⟩ := ih (by simpa using size)
      exact ⟨(some (lead, x), (item, y)) :: zipped, by simp [mapPair, firsts], by simp [seconds]⟩

/-- Reading a list of as many entries through the places. -/
theorem gather_keeps (pairs : List (Option α × α)) {ys : List β} (size : ys.length = (flat pairs).length) :
    ∃ kept, IndexedRows.gather ys (places 0 pairs) = some kept ∧ Keeps (pairs.map (·.1.isSome)) ys kept := by
  obtain ⟨zipped, firsts, seconds⟩ := exists_zip pairs size
  have shape : (zipped.map (mapPair Prod.snd)).map (·.1.isSome) = pairs.map (·.1.isSome) := by
    rw [← firsts, List.map_map, List.map_map]
    exact List.map_congr_left fun pair _ => by simp [mapPair]
  have read := gather_places [] (zipped.map (mapPair Prod.snd))
  rw [List.nil_append, ← map_flat, seconds, List.length_nil, places_congr shape] at read
  exact ⟨_, read, _, by rw [← map_flat, seconds], rfl, shape⟩

end Vllm.Doubled
