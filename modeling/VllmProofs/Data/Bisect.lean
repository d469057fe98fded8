import Mathlib

/-!
Bisection for the first position where a predicate fails. The search is right for a predicate
that holds on a prefix and nowhere else; for any other it can step over the first failure, and
the positions it looks at say when it does.
-/

namespace Vllm

/-- The search between `lo` and `hi`, for at most the given number of rounds. -/
def bisect (p : ℕ → Bool) : ℕ → ℕ → ℕ → ℕ
  | 0, lo, _ => lo
  | rounds + 1, lo, hi =>
    if lo < hi then
      let mid := (lo + hi) / 2
      if p mid then bisect p rounds (mid + 1) hi else bisect p rounds lo mid
    else lo

/-- The positions a search that ends at `target` looks at. -/
def midpoints (target : ℕ) : ℕ → ℕ → ℕ → List ℕ
  | 0, _, _ => []
  | rounds + 1, lo, hi =>
    if lo < hi then
      let mid := (lo + hi) / 2
      mid :: if mid < target then midpoints target rounds (mid + 1) hi
        else midpoints target rounds lo mid
    else []

theorem le_bisect (p : ℕ → Bool) (rounds lo hi : ℕ) : lo ≤ bisect p rounds lo hi := by
  induction rounds generalizing lo hi with
  | zero => exact le_refl lo
  | succ rounds ih =>
    simp only [bisect]
    split
    · split
      · have later := ih ((lo + hi) / 2 + 1) hi
        omega
      · exact ih lo ((lo + hi) / 2)
    · exact le_refl lo

theorem bisect_le {p : ℕ → Bool} {rounds lo hi : ℕ} (order : lo ≤ hi) : bisect p rounds lo hi ≤ hi := by
  induction rounds generalizing lo hi with
  | zero => exact order
  | succ rounds ih =>
    simp only [bisect]
    split
    · split
      · exact ih (by omega)
      · have earlier := ih (show lo ≤ (lo + hi) / 2 by omega)
        omega
    · exact order

/-- The search ends at the first failure unless it looks at a later position that holds. -/
theorem bisect_eq_iff {p : ℕ → Bool} {target rounds lo hi : ℕ} (enough : hi - lo ≤ rounds)
    (after : lo ≤ target) (before : target ≤ hi) (holds : ∀ i < target, p i = true) :
    bisect p rounds lo hi = target ↔
      ∀ mid ∈ midpoints target rounds lo hi, target ≤ mid → p mid = false := by
  induction rounds generalizing lo hi with
  | zero =>
    simp only [bisect, midpoints, List.not_mem_nil, false_implies, implies_true, iff_true]
    omega
  | succ rounds ih =>
    simp only [bisect, midpoints]
    by_cases order : lo < hi
    · simp only [order, ↓reduceIte, List.mem_cons, forall_eq_or_imp]
      by_cases inside : (lo + hi) / 2 < target
      · rw [if_pos (holds _ inside), if_pos inside, ih (by omega) (by omega) before]
        have vacuous : target ≤ (lo + hi) / 2 → p ((lo + hi) / 2) = false := by omega
        exact (and_iff_right vacuous).symm
      · rw [if_neg inside]
        by_cases beyond : p ((lo + hi) / 2) = true
        · -- the search goes past the target and stays there
          have past := le_bisect p rounds ((lo + hi) / 2 + 1) hi
          rw [if_pos beyond]
          constructor
          · intro same
            omega
          · rintro ⟨fails, -⟩
            rw [fails (by omega)] at beyond
            cases beyond
        · rw [if_neg beyond, ih (by omega) after (by omega)]
          exact (and_iff_right fun _ => Bool.eq_false_iff.mpr beyond).symm
    · simp only [order, ↓reduceIte, List.not_mem_nil, false_implies, implies_true, iff_true]
      omega

end Vllm
