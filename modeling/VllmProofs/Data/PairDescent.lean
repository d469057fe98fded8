import Mathlib

/-!
A list of values of which, again and again, two are replaced by values below the larger one. That comes to
an end when the values are from a finite set.
-/

namespace Vllm

theorem sum_set_add {M : Type} [AddCommMonoid M] {xs : List M} {i : ℕ} {x : M} (found : xs[i]? = some x) (y : M) :
    (xs.set i y).sum + x = xs.sum + y := by
  induction xs generalizing i with
  | nil => cases found
  | cons z rest ih =>
    cases i with
    | zero =>
      cases found
      rw [List.set_cons_zero, List.sum_cons, List.sum_cons, add_right_comm, add_comm y x, add_right_comm]
    | succ i =>
      rw [List.getElem?_cons_succ] at found
      rw [List.set_cons_succ, List.sum_cons, List.sum_cons, add_assoc, ih found, add_assoc]

theorem sum_modify_add {α M : Type} [AddCommMonoid M] {xs : List α} {i : ℕ} {x : α} (found : xs[i]? = some x)
    (f : α → α) (g : α → M) : ((xs.modify i f).map g).sum + g x = (xs.map g).sum + g (f x) := by
  have here : (xs.map g)[i]? = some (g x) := by
    rw [List.getElem?_map, found]
    rfl
  have set : (xs.modify i f).map g = (xs.map g).set i (g (f x)) := by
    apply List.ext_getElem?
    intro j
    rw [List.getElem?_map, List.getElem?_modify, List.getElem?_set, List.getElem?_map, List.length_map]
    split
    · rename_i same
      rw [← same, found, if_pos (List.getElem?_eq_some_iff.mp found).1]
      rfl
    · rw [Option.map_eq_map, Option.map_id']
  rw [set]
  exact sum_set_add here _

theorem sum_mapIdx_modify {α M : Type} [AddCommMonoid M] {xs : List α} {i : ℕ} {x : α} (found : xs[i]? = some x)
    (f : α → α) (g : ℕ → α → M) : ((xs.modify i f).mapIdx g).sum + g i x = (xs.mapIdx g).sum + g i (f x) := by
  have here : (xs.mapIdx g)[i]? = some (g i x) := by
    rw [List.getElem?_mapIdx, found]
    rfl
  have set : (xs.modify i f).mapIdx g = (xs.mapIdx g).set i (g i (f x)) := by
    apply List.ext_getElem?
    intro j
    rw [List.getElem?_mapIdx, List.getElem?_modify, List.getElem?_set, List.getElem?_mapIdx, List.length_mapIdx]
    split
    · rename_i same
      rw [← same, found, if_pos (List.getElem?_eq_some_iff.mp found).1]
      rfl
    · rw [Option.map_eq_map, Option.map_id']
  rw [set]
  exact sum_set_add here _

end Vllm

namespace Vllm

variable {α : Type} [LinearOrder α]

def Lowers (xs ys : List α) : Prop :=
  ∃ i j x y a b, i ≠ j ∧ xs[i]? = some x ∧ xs[j]? = some y ∧ ys = (xs.set i a).set j b ∧ max a b < max x y

/-- How many of the values are smaller. -/
def rank (values : Finset α) (x : α) : ℕ := {y ∈ values | y < x}.card

variable {values : Finset α} {x y : α} {xs ys : List α}

theorem rank_lt (there : y ∈ values) (less : y < x) : rank values y < rank values x := by
  apply Finset.card_lt_card
  rw [Finset.ssubset_iff_of_subset]
  · refine ⟨y, Finset.mem_filter.mpr ⟨there, less⟩, fun member => ?_⟩
    exact lt_irrefl y (Finset.mem_filter.mp member).2
  · intro z member
    obtain ⟨known, below⟩ := Finset.mem_filter.mp member
    exact Finset.mem_filter.mpr ⟨known, below.trans less⟩

/-- A value counts three times as much as the one below it. -/
def weight (values : Finset α) (xs : List α) : ℕ := (xs.map fun x => 3 ^ rank values x).sum

theorem weight_lt (known : ∀ y ∈ ys, y ∈ values) (lowers : Lowers xs ys) : weight values ys < weight values xs := by
  obtain ⟨i, j, x, y, a, b, different, atI, atJ, rfl, less⟩ := lowers
  have atJ' : (xs.set i a)[j]? = some y := by
    rw [List.getElem?_set_ne different]
    exact atJ
  have knownA : a ∈ values := by
    apply known
    have inside : i < (xs.set i a).length := by
      rw [List.length_set]
      exact (List.getElem?_eq_some_iff.mp atI).1
    apply List.mem_of_getElem? (i := i)
    rw [List.getElem?_set_ne (Ne.symm different), List.getElem?_set_self (by simpa using inside)]
  have knownB : b ∈ values := by
    apply known
    apply List.mem_of_getElem? (i := j)
    rw [List.getElem?_set_self (List.getElem?_eq_some_iff.mp atJ').1]
  have weighs : ∀ {zs : List α} {k : ℕ} {z : α} (c : α), zs[k]? = some z →
      weight values (zs.set k c) + 3 ^ rank values z = weight values zs + 3 ^ rank values c := by
    intro zs k z c found
    unfold weight
    rw [List.map_set]
    apply sum_set_add
    rw [List.getElem?_map, found]
    rfl
  have first := weighs a atI
  have second := weighs b atJ'
  have smaller : ∀ c, c ∈ values → c < max x y → 3 * 3 ^ rank values c ≤ 3 ^ rank values (max x y) := by
    intro c there below
    rw [← pow_succ']
    exact Nat.pow_le_pow_right (by norm_num) (rank_lt there below)
  have one := smaller a knownA ((le_max_left a b).trans_lt less)
  have two := smaller b knownB ((le_max_right a b).trans_lt less)
  have large : 3 ^ rank values (max x y) ≤ 3 ^ rank values x + 3 ^ rank values y := by
    rcases max_choice x y with same | same
    · rw [same]
      exact Nat.le_add_right _ _
    · rw [same]
      exact Nat.le_add_left _ _
  have positive : 0 < 3 ^ rank values a := by positivity
  omega

end Vllm
