import Mathlib

/-!
Ragged rows laid out one after another: `np.repeat`, `np.cumsum` and a matrix read through its flat index.
-/

namespace Vllm.FlatArrays

variable {α β : Type}

def repeatEach : List α → List ℕ → List α
  | x :: xs, n :: counts => List.replicate n x ++ repeatEach xs counts
  | _, _ => []

/-- The running totals of `xs`, from `total` on. -/
def cumsumFrom (total : ℕ) : List ℕ → List ℕ
  | [] => []
  | x :: xs => (total + x) :: cumsumFrom (total + x) xs

def cumsum (xs : List ℕ) : List ℕ := cumsumFrom 0 xs

/-- The items of the rows from the `k`-th on, each as its row and its place in the row. -/
def itemsFrom (k : ℕ) : List ℕ → List (ℕ × ℕ)
  | [] => []
  | n :: counts => (List.range n).map (fun j => (k, j)) ++ itemsFrom (k + 1) counts

/-- The items of rows with these many items, row by row. -/
def items (counts : List ℕ) : List (ℕ × ℕ) := itemsFrom 0 counts

/-- `M.flatten()[index]` of a matrix; a negative index is out of range. -/
def flatAt (rows width : ℕ) (M : ℕ → ℕ → α) (index : ℤ) : Option α :=
  if 0 ≤ index ∧ index < rows * width then some (M (index.toNat / width) (index.toNat % width)) else none

def gather (read : ℤ → Option α) : List ℤ → Option (List α)
  | [] => some []
  | index :: rest => do
    let x ← read index
    let xs ← gather read rest
    return x :: xs

variable {counts : List ℕ} {i j k n rows width : ℕ} {index : ℤ} {M : ℕ → ℕ → α}

/-- Windows that follow one another. -/
theorem flatMap_windows {f : ℕ → ℕ} (grows : ∀ {i j}, i ≤ j → f i ≤ f j) (n : ℕ) :
    ((List.range n).flatMap fun i => List.range' (f i) (f (i + 1) - f i)) = List.range' (f 0) (f n - f 0) := by
  induction n with
  | zero => simp
  | succ n ih =>
    have first := grows (Nat.zero_le n)
    have next := grows (Nat.le_succ n)
    have joined := @List.range'_append_1 (f 0) (f n - f 0) (f (n + 1) - f n)
    rw [Nat.add_sub_cancel' first] at joined
    rw [List.range_succ, List.flatMap_append, ih, List.flatMap_singleton, joined,
      Nat.add_comm (f n - f 0), Nat.sub_add_sub_cancel next first]

theorem forall₂_range' {R : ℕ → ℕ → Prop} {a b n : ℕ} (related : ∀ i < n, R (a + i) (b + i)) :
    List.Forall₂ R (List.range' a n) (List.range' b n) := by
  induction n generalizing a b with
  | zero => exact .nil
  | succ n ih =>
    refine .cons (related 0 (Nat.succ_pos n)) (ih fun i less => ?_)
    have next := related (i + 1) (Nat.succ_lt_succ less)
    rwa [← Nat.add_assoc, ← Nat.add_assoc, Nat.add_right_comm, Nat.add_right_comm b] at next

theorem forall₂_flatMap {R : β → β → Prop} {f g : α → List β} (related : ∀ x, List.Forall₂ R (f x) (g x)) (xs : List α) :
    List.Forall₂ R (xs.flatMap f) (xs.flatMap g) :=
  List.rel_flatMap (R := Eq) (List.forall₂_refl xs) (by rintro x _ rfl; exact related x)

theorem repeatEach_range (k : ℕ) (counts : List ℕ) :
    repeatEach (List.range' k counts.length) counts = (itemsFrom k counts).map Prod.fst := by
  induction counts generalizing k with
  | nil => rfl
  | cons n counts ih =>
    rw [List.length_cons, List.range'_succ, repeatEach, itemsFrom, List.map_append, List.map_map, ih (k + 1)]
    congr 1
    apply List.ext_getElem <;> simp

/-- An item's place in its row is its place in the whole less the items of the rows before. -/
theorem arange_sub_offsets (total k : ℕ) (counts : List ℕ) :
    List.zipWith (· - ·) (List.range' total counts.sum)
      (repeatEach (List.zipWith (· - ·) (cumsumFrom total counts) counts) counts) =
      (itemsFrom k counts).map Prod.snd := by
  induction counts generalizing total k with
  | nil => rfl
  | cons n counts ih =>
    rw [List.sum_cons, ← List.range'_append_1, cumsumFrom, List.zipWith_cons_cons, Nat.add_sub_cancel, repeatEach,
      itemsFrom, List.map_append, List.map_map, List.zipWith_append, ih (total + n) (k + 1)]
    · congr 1
      apply List.ext_getElem <;> simp
    · simp

theorem mem_itemsFrom : (i, j) ∈ itemsFrom k counts ↔ k ≤ i ∧ ∃ n, counts[i - k]? = some n ∧ j < n := by
  induction counts generalizing k with
  | nil => simp [itemsFrom]
  | cons n counts ih =>
    rw [itemsFrom, List.mem_append, ih]
    constructor
    · rintro (here | ⟨le, m, found, less⟩)
      · obtain ⟨j', less, same⟩ := List.mem_map.mp here
        cases same
        exact ⟨le_refl _, n, by simp, List.mem_range.mp less⟩
      · refine ⟨by omega, m, ?_, less⟩
        obtain ⟨d, rfl⟩ := Nat.exists_eq_add_of_le le
        rw [Nat.add_assoc, Nat.add_sub_cancel_left, Nat.add_comm 1, List.getElem?_cons_succ]
        rw [Nat.add_sub_cancel_left] at found
        exact found
    · rintro ⟨le, m, found, less⟩
      rcases Nat.eq_or_lt_of_le le with rfl | later
      · left
        rw [Nat.sub_self, List.getElem?_cons_zero, Option.some.injEq] at found
        subst found
        exact List.mem_map.mpr ⟨j, List.mem_range.mpr less, rfl⟩
      · right
        refine ⟨later, m, ?_, less⟩
        rw [show i - k = (i - (k + 1)) + 1 by omega, List.getElem?_cons_succ] at found
        exact found

theorem mem_items : (i, j) ∈ items counts ↔ ∃ n, counts[i]? = some n ∧ j < n := by
  rw [items, mem_itemsFrom]
  simp

theorem flatAt_cell (M : ℕ → ℕ → α) (row : i < rows) (column : j < width) :
    flatAt rows width M (i * width + j : ℕ) = some (M i j) := by
  have below : i * width + j < rows * width := by
    calc i * width + j < i * width + width := by omega
      _ = (i + 1) * width := (Nat.succ_mul i width).symm
      _ ≤ rows * width := Nat.mul_le_mul_right width row
  have positive : 0 < width := by omega
  unfold flatAt
  rw [if_pos ⟨Int.natCast_nonneg _, by exact_mod_cast below⟩, Int.toNat_natCast, Nat.add_comm,
    Nat.add_mul_div_right _ _ positive, Nat.add_mul_mod_self_right, Nat.div_eq_of_lt column, Nat.mod_eq_of_lt column,
    Nat.zero_add]

/-- Only the flat index of a cell reads the cell. -/
theorem eq_of_flatAt {x y : α} (apart : x ≠ y)
    (found : flatAt rows width (fun r c => if r = i ∧ c = j then x else y) index = some x) :
    index = (i * width + j : ℕ) := by
  unfold flatAt at found
  split at found
  · rename_i inside
    have here := Option.some.inj found
    dsimp only at here
    split at here
    · rename_i cell
      obtain ⟨rfl, rfl⟩ := cell
      rw [Nat.mul_comm, Nat.div_add_mod, Int.toNat_of_nonneg inside.1]
    · exact absurd here.symm apart
  · cases found

theorem mem_zipWith {γ : Type} {f : α → β → γ} {xs : List α} {ys : List β} {z : γ} (member : z ∈ List.zipWith f xs ys) :
    ∃ x y, z = f x y := by
  rw [← List.map_uncurry_zip_eq_zipWith] at member
  obtain ⟨⟨x, y⟩, -, rfl⟩ := List.mem_map.mp member
  exact ⟨x, y, rfl⟩

theorem gather_map {read : ℤ → Option α} {xs : List β} {f : β → ℤ} {g : β → α}
    (each : ∀ x ∈ xs, read (f x) = some (g x)) : gather read (xs.map f) = some (xs.map g) := by
  induction xs with
  | nil => rfl
  | cons x xs ih =>
    rw [List.map_cons, gather, each x List.mem_cons_self, ih fun y member => each y (List.mem_cons_of_mem x member)]
    rfl

theorem read_of_gather {read : ℤ → Option α} {xs : List β} {f : β → ℤ} {g : β → α}
    (gathered : gather read (xs.map f) = some (xs.map g)) : ∀ x ∈ xs, read (f x) = some (g x) := by
  induction xs with
  | nil =>
    intro x member
    cases member
  | cons x xs ih =>
    rw [List.map_cons, gather] at gathered
    obtain ⟨first, here, gathered⟩ := Option.bind_eq_some_iff.mp gathered
    obtain ⟨others, there, same⟩ := Option.bind_eq_some_iff.mp gathered
    cases same
    intro y member
    rcases List.mem_cons.mp member with rfl | later
    · exact here
    · exact ih there y later

end Vllm.FlatArrays
