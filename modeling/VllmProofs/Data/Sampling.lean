import Mathlib.Probability.ProbabilityMassFunction.Constructions
import Mathlib.Topology.Algebra.InfiniteSum.ENNReal
import Mathlib.Algebra.BigOperators.Fin

namespace Vllm.Sampling
open scoped ENNReal

variable {α β γ : Type}

noncomputable section

-- Independent draws

/-- One independent draw from each law, in the order of the list. -/
def each : List (PMF α) → PMF (List α)
  | [] => PMF.pure []
  | law :: laws => law.bind fun x => (each laws).map (x :: ·)

@[simp] theorem each_nil : each ([] : List (PMF α)) = PMF.pure [] := rfl

theorem each_cons (law : PMF α) (laws : List (PMF α)) :
    each (law :: laws) = law.bind fun x => (each laws).map (x :: ·) := rfl

theorem length_of_each {laws : List (PMF α)} {xs : List α} (drawn : xs ∈ (each laws).support) :
    xs.length = laws.length := by
  induction laws generalizing xs with
  | nil =>
    rw [each_nil, PMF.mem_support_pure_iff] at drawn
    rw [drawn, List.length_nil, List.length_nil]
  | cons law laws ih =>
    rw [each_cons, PMF.mem_support_bind_iff] at drawn
    obtain ⟨x, _, drawn⟩ := drawn
    obtain ⟨rest, member, rfl⟩ := (PMF.mem_support_map_iff ..).mp drawn
    rw [List.length_cons, List.length_cons, ih member]

/-- Stages that treat the members of a list apart may run member by member. -/
theorem each_bind_each (f : α → PMF β) (g : β → PMF γ) (xs : List α) :
    (each (xs.map f)).bind (fun ys => each (ys.map g)) = each (xs.map fun x => (f x).bind g) := by
  induction xs with
  | nil => simp only [List.map_nil, each_nil, PMF.pure_bind]
  | cons x xs ih =>
    simp only [List.map_cons, each_cons, PMF.bind_bind, PMF.bind_map, Function.comp_def]
    congr 1
    funext y
    rw [PMF.bind_comm]
    congr 1
    funext z
    rw [← ih, PMF.map_bind]

/-- So may stages that look at each member again. -/
theorem each_bind_zipWith (f : α → PMF β) (g : α → β → PMF γ) (xs : List α) :
    (each (xs.map f)).bind (fun ys => each (List.zipWith g xs ys)) =
      each (xs.map fun x => (f x).bind (g x)) := by
  induction xs with
  | nil => simp only [List.map_nil, each_nil, PMF.pure_bind, List.zipWith_nil_right]
  | cons x xs ih =>
    simp only [List.map_cons, each_cons, PMF.bind_bind, PMF.bind_map, Function.comp_def,
      List.zipWith_cons_cons]
    congr 1
    funext y
    rw [PMF.bind_comm]
    congr 1
    funext z
    rw [← ih, PMF.map_bind]

theorem bind_congr_support {p : PMF α} {f g : α → PMF β} (same : ∀ x ∈ p.support, f x = g x) :
    p.bind f = p.bind g := by
  ext y
  rw [PMF.bind_apply, PMF.bind_apply]
  apply tsum_congr
  intro x
  by_cases drawn : x ∈ p.support
  · rw [same x drawn]
  · rw [(p.apply_eq_zero_iff x).mpr drawn, zero_mul, zero_mul]

-- Drawing from a law that depends on what was drawn before

/-- Draw `count` members one after the other, each from the law its past gives. -/
def run (law : List α → PMF α) : Nat → PMF (List α)
  | 0 => PMF.pure []
  | count + 1 => (law []).bind fun x => (run (fun past => law (x :: past)) count).map (x :: ·)

@[simp] theorem run_zero (law : List α → PMF α) : run law 0 = PMF.pure [] := rfl

theorem run_succ (law : List α → PMF α) (count : Nat) : run law (count + 1) =
      (law []).bind fun x => (run (fun past => law (x :: past)) count).map (x :: ·) := rfl

theorem run_length {law : List α → PMF α} {count : Nat} {xs : List α}
    (drawn : xs ∈ (run law count).support) : xs.length = count := by
  induction count generalizing law xs with
  | zero =>
    rw [run_zero, PMF.mem_support_pure_iff] at drawn
    rw [drawn, List.length_nil]
  | succ count ih =>
    rw [run_succ, PMF.mem_support_bind_iff] at drawn
    obtain ⟨x, _, drawn⟩ := drawn
    obtain ⟨rest, member, rfl⟩ := (PMF.mem_support_map_iff ..).mp drawn
    rw [List.length_cons, ih member]

theorem map_cons_apply [DecidableEq α] (law : PMF (List α)) (x y : α) (ys : List α) :
    law.map (x :: ·) (y :: ys) = if y = x then law ys else 0 := by
  rw [PMF.map_apply]
  by_cases same : y = x
  · subst same
    rw [if_pos rfl, tsum_eq_single ys, if_pos rfl]
    intro other different
    exact if_neg fun equal => different (List.cons.inj equal).2.symm
  · rw [if_neg same]
    exact ENNReal.tsum_eq_zero.mpr fun other => if_neg fun equal => same (List.cons.inj equal).1

/-- The chain rule: a run's probability is the product of its conditional probabilities. -/
theorem run_apply (law : List α → PMF α) (xs : List α) :
    run law xs.length xs = ∏ i : Fin xs.length, law (xs.take i) xs[i] := by
  classical
  induction xs generalizing law with
  | nil => simp
  | cons x xs ih =>
    simp only [List.length_cons]
    rw [run_succ, PMF.bind_apply, tsum_eq_single x, Fin.prod_univ_succ]
    · rw [map_cons_apply, if_pos rfl, ih]
      rfl
    · intro y different
      rw [map_cons_apply, if_neg different.symm, mul_zero]

-- Accept a draw or replace it

variable {target draft : PMF α}

theorem tsum_sub_comm (target draft : PMF α) :
    (tsum fun x => draft x - target x) = tsum fun x => target x - draft x := by
  have split (p q : PMF α) : (tsum fun x => p x - q x) + (tsum fun x => min (p x) (q x)) = 1 := by
    rw [← ENNReal.tsum_add, ← p.tsum_coe]
    congr 1
    funext x
    exact tsub_add_min
  have finite : (tsum fun x => min (target x) (draft x)) ≠ ∞ := by
    apply ne_top_of_le_ne_top ENNReal.one_ne_top
    rw [← target.tsum_coe]
    exact ENNReal.tsum_le_tsum fun x => min_le_left _ _
  have same : (tsum fun x => min (draft x) (target x)) = tsum fun x => min (target x) (draft x) := by
    simp only [min_comm]
  have left := split draft target
  rw [same, ← split target draft] at left
  exact (ENNReal.add_left_inj finite).mp left

theorem mul_min_div_one (target draft : PMF α) (x : α) :
    draft x * min (target x / draft x) 1 = min (target x) (draft x) := by
  by_cases none : draft x = 0
  · rw [none, zero_mul, min_eq_right zero_le]
  · rw [← min_mul_mul_left, ENNReal.mul_div_cancel none (draft.apply_ne_top x), mul_one]

theorem bool_false_eq (law : PMF Bool) : law false = 1 - law true := by
  have total := law.tsum_coe
  rw [tsum_bool] at total
  exact ENNReal.eq_sub_of_add_eq (law.apply_ne_top true) total

/-- A draw kept with probability `min 1 (target / draft)` and otherwise replaced by a draw from
the residual of the two laws is a draw from the target. -/
theorem replaced_law {keep : α → PMF Bool} {residual : PMF α}
    (keeps : ∀ x, keep x true = min (target x / draft x) 1)
    (rest : (∃ x, draft x < target x) →
      ∀ y, (tsum fun x => target x - draft x) * residual y = target y - draft y) :
    (draft.bind fun x => (keep x).bind fun kept => if kept then PMF.pure x else residual) =
      target := by
  classical
  ext y
  have each (x : α) : draft x * ((keep x).bind fun kept => if kept then PMF.pure x else residual) y =
      min (target x) (draft x) * PMF.pure x y + (draft x - target x) * residual y := by
    have dropped : draft x * keep x false = draft x - target x := by
      rw [bool_false_eq, keeps, ENNReal.mul_sub (fun _ _ => draft.apply_ne_top x), mul_one,
        mul_min_div_one, min_comm, tsub_min]
    rw [PMF.bind_apply, tsum_bool, mul_add, ← mul_assoc, ← mul_assoc, dropped, keeps,
      mul_min_div_one, add_comm]
    rfl
  calc
    _ = tsum fun x => min (target x) (draft x) * PMF.pure x y + (draft x - target x) * residual y := by
      rw [PMF.bind_apply]
      exact tsum_congr each
    _ = min (target y) (draft y) + (tsum fun x => target x - draft x) * residual y := by
      rw [ENNReal.tsum_add, ENNReal.tsum_mul_right, tsum_sub_comm, tsum_eq_single y]
      · rw [PMF.pure_apply, if_pos rfl, mul_one]
      · intro x different
        rw [PMF.pure_apply, if_neg different.symm, mul_zero]
    _ = target y := by
      by_cases more : ∃ x, draft x < target x
      · rw [rest more, add_comm, min_comm, min_comm, tsub_add_min]
      · push Not at more
        have none : (tsum fun x => target x - draft x) = 0 :=
          ENNReal.tsum_eq_zero.mpr fun x => tsub_eq_zero_of_le (more x)
        rw [none, zero_mul, add_zero, min_eq_left (more y)]

end

end Vllm.Sampling
