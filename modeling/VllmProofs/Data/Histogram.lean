import VllmProofs.Data.Dict

/-!
A dictionary of counts as the histogram of a list.
-/

namespace Vllm

variable {K : Type} [DecidableEq K] {counts : Dict K ℤ} {xs : List K} {k : K}

/-- The dictionary counts the values of the list, and has no other key. -/
def Histogram (counts : Dict K ℤ) (xs : List K) : Prop :=
  ∀ k, counts.get? k = if k ∈ xs then some (xs.count k : ℤ) else none

namespace Histogram

theorem empty : Histogram (∅ : Dict K ℤ) [] := fun k => by simp

section
variable (histogram : Histogram counts xs)
include histogram

/-- Counting one value more. -/
theorem cons (k : K) : Histogram (counts.insert k ((counts.get? k).getD 0 + 1)) (k :: xs) := by
  intro j
  rw [Dict.get?_insert]
  by_cases same : j = k
  · subst same
    rw [if_pos rfl, if_pos List.mem_cons_self, histogram j, List.count_cons_self]
    by_cases member : j ∈ xs
    · simp [member]
    · simp [member, List.count_eq_zero_of_not_mem member]
  · rw [if_neg same, histogram j, List.count_cons_of_ne (Ne.symm same)]
    simp [same]

theorem mem_keys : k ∈ counts.keys ↔ k ∈ xs := by
  rw [Dict.mem_keys_iff, histogram k]
  by_cases member : k ∈ xs <;> simp [member]

theorem size_eq_zero : counts.size = 0 ↔ xs = [] := by
  rw [Dict.size_eq_zero_iff]
  constructor
  · intro none
    apply List.eq_nil_iff_forall_not_mem.mpr
    intro k member
    have found := histogram k
    rw [none k, if_pos member] at found
    cases found
  · rintro rfl k
    rw [histogram k]
    simp

/-- A sum over the values, taken key by key. -/
theorem sum (f : K → ℤ) :
    (counts.items.map fun item => f item.1 * item.2).sum = (xs.map f).sum := by
  have keyed : (counts.items.map fun item => f item.1 * item.2) =
      counts.keys.map fun k => f k * (xs.count k : ℤ) := by
    unfold Dict.keys
    rw [List.map_map]
    apply List.map_congr_left
    intro item member
    have found := histogram item.1
    rw [Dict.mem_items_iff.mp member] at found
    split at found
    · rw [Option.some.inj found]
      rfl
    · cases found
  have same : counts.keys.toFinset = xs.toFinset := by
    ext k
    rw [List.mem_toFinset, List.mem_toFinset, histogram.mem_keys]
  have nodup : counts.keys.Nodup := counts.nodup
  rw [keyed, ← List.sum_toFinset _ nodup, same, Finset.sum_list_map_count]
  exact Finset.sum_congr rfl fun k _ => by rw [nsmul_eq_mul, mul_comm]

end

end Histogram
end Vllm
