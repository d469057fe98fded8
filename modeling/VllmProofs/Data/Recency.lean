import Mathlib

/-!
The most recently used of a list of uses, oldest first. Using an element again moves it to the
front, and only the front of the old order matters for the front of the new one.
-/

namespace Vllm

variable {α : Type} [DecidableEq α] {n m : ℕ} {a : α} {uses : List α}

/-- The last `n` distinct elements that were used, latest first. -/
def mostRecent (n : ℕ) (uses : List α) : List α := uses.dedup.reverse.take n

theorem dedup_concat (uses : List α) (a : α) : (uses ++ [a]).dedup = uses.dedup.erase a ++ [a] := by
  induction uses with
  | nil => simp
  | cons b rest ih =>
    rw [List.cons_append]
    by_cases again : b ∈ rest
    · rw [List.dedup_cons_of_mem (List.mem_append_left _ again), List.dedup_cons_of_mem again, ih]
    · rw [List.dedup_cons_of_notMem again]
      by_cases same : b = a
      · subst same
        rw [List.dedup_cons_of_mem (List.mem_append_right _ List.mem_cons_self), ih,
          List.erase_cons_head, List.erase_of_not_mem (fun member => again (List.mem_dedup.mp member))]
      · have absent : b ∉ rest ++ [a] := by
          rw [List.mem_append, List.mem_singleton]
          exact not_or.mpr ⟨again, same⟩
        rw [List.dedup_cons_of_notMem absent, ih, List.erase_cons_tail (by simpa using same),
          List.cons_append]

/-- Elements past the first `n` do not matter for the first `n` after a use. -/
theorem take_erase_take (n : ℕ) (a : α) (order : List α) :
    ((order.take (n + 1)).erase a).take n = (order.erase a).take n := by
  induction order generalizing n with
  | nil => simp
  | cons b rest ih =>
    rw [List.take_succ_cons]
    by_cases same : b = a
    · subst same
      rw [List.erase_cons_head, List.erase_cons_head, List.take_take, min_self]
    · rw [List.erase_cons_tail (by simpa using same), List.erase_cons_tail (by simpa using same)]
      cases n with
      | zero => rfl
      | succ n => rw [List.take_succ_cons, List.take_succ_cons, ih n]

theorem mostRecent_nil (n : ℕ) : mostRecent n ([] : List α) = [] := by
  simp [mostRecent]

theorem nodup_mostRecent (n : ℕ) (uses : List α) : (mostRecent n uses).Nodup :=
  (List.nodup_reverse.mpr (List.nodup_dedup uses)).sublist (List.take_sublist _ _)

/-- A use comes first, and pushes out the last of `n` others. -/
theorem mostRecent_concat (positive : 1 ≤ n) (uses : List α) (a : α) :
    mostRecent n (uses ++ [a]) = (a :: (mostRecent n uses).erase a).take n := by
  obtain ⟨n, rfl⟩ := Nat.exists_eq_add_of_le' positive
  have distinct := List.nodup_dedup uses
  have reversed : (uses.dedup.erase a).reverse = uses.dedup.reverse.erase a := by
    rw [distinct.erase_eq_filter, (List.nodup_reverse.mpr distinct).erase_eq_filter,
      List.filter_reverse]
  unfold mostRecent
  rw [dedup_concat, List.reverse_append, List.reverse_singleton, List.singleton_append, reversed,
    List.take_succ_cons, List.take_succ_cons, take_erase_take]

theorem mostRecent_subset (more : n ≤ m) (uses : List α) : mostRecent n uses ⊆ mostRecent m uses :=
  (List.take_prefix_take_left more).subset

end Vllm
