import VllmProofs.Data.Histogram
import VllmProofs.Data.RunningMax
import VllmProofs.Evictor.ProtectingDistance

/-!
The scan for the protecting distance against its objective: the hits within a distance, for the
cost of the hits and of the misses. The candidates are one bucket size apart, from 1 on.
-/

namespace Vllm.Evictor
open Exec

/-- How many of the recorded reuse distances are at most `d`. -/
def hitsWithin (recorded : List ℤ) (d : ℤ) : ℤ := (recorded.filter (· ≤ d)).length

/-- The sum of the recorded reuse distances that are at most `d`. -/
def costWithin (recorded : List ℤ) (d : ℤ) : ℤ := (recorded.filter (· ≤ d)).sum

def denominator (total evictionDistance : ℤ) (recorded : List ℤ) (d : ℤ) : ℤ :=
  costWithin recorded d + (total - hitsWithin recorded d) * (d + evictionDistance)

def objective (total evictionDistance : ℤ) (recorded : List ℤ) (d : ℤ) : ℚ :=
  hitsWithin recorded d / denominator total evictionDistance recorded d

/-- The outer `for` with the counts it has not reached beside the best distance. -/
def scanLoop (total evictionDistance : ℤ) :
    List ℤ → List (ℤ × ℤ) → ℤ → ℤ → ℤ → ℚ → ℤ × List (ℤ × ℤ)
  | [], distances, _, _, bestDistance, _ => (bestDistance, distances)
  | distance :: candidates, distances, hits, cost, bestDistance, bestScore =>
    let (distances, hits, cost) := accumulate distance distances hits cost
    let misses := max 0 (total - hits)
    let denominator := cost + misses * (distance + evictionDistance)
    let score : ℚ := if 0 < denominator then hits / denominator else 0
    if bestScore < score then
      scanLoop total evictionDistance candidates distances hits cost distance score
    else scanLoop total evictionDistance candidates distances hits cost bestDistance bestScore

variable {eviction : ℤ}

theorem scanLoop_best {total : ℤ} {candidates : List ℤ} {distances : List (ℤ × ℤ)}
    {hits cost best : ℤ} {score : ℚ} :
    (scanLoop total eviction candidates distances hits cost best score).1 =
      scanDistances total eviction candidates distances hits cost best score := by
  induction candidates generalizing distances hits cost best score with
  | nil => rfl
  | cons d rest ih =>
    simp only [scanLoop, scanDistances, apply_ite Prod.fst, ih]

/-! ### The counts moved into the running sums -/

section
variable {distances : List (ℤ × ℤ)} {recorded : List ℤ} {hits cost d p : ℤ}

def hitsIn (distances : List (ℤ × ℤ)) (d : ℤ) : ℤ :=
  ((distances.filter fun x => x.1 ≤ d).map fun x => x.2).sum

def costIn (distances : List (ℤ × ℤ)) (d : ℤ) : ℤ :=
  ((distances.filter fun x => x.1 ≤ d).map fun x => x.1 * x.2).sum

structure Counting (recorded : List ℤ) (p : ℤ) (distances : List (ℤ × ℤ)) (hits cost : ℤ) : Prop where
  sorted : distances.Pairwise fun x y => x.1 ≤ y.1
  hits : ∀ d, p ≤ d → hits + hitsIn distances d = hitsWithin recorded d
  cost : ∀ d, p ≤ d → cost + costIn distances d = costWithin recorded d

theorem hitsIn_none (above : ∀ x ∈ distances, d < x.1) : hitsIn distances d = 0 := by
  have none : (distances.filter fun x => x.1 ≤ d) = [] := by
    apply List.filter_eq_nil_iff.mpr
    intro x member
    simpa using above x member
  rw [hitsIn, none]
  rfl

theorem costIn_none (above : ∀ x ∈ distances, d < x.1) : costIn distances d = 0 := by
  have none : (distances.filter fun x => x.1 ≤ d) = [] := by
    apply List.filter_eq_nil_iff.mpr
    intro x member
    simpa using above x member
  rw [costIn, none]
  rfl

theorem Counting.mono (counting : Counting recorded p distances hits cost) (le : p ≤ d) :
    Counting recorded d distances hits cost :=
  ⟨counting.sorted, fun e above => counting.hits e (by omega), fun e above => counting.cost e (by omega)⟩

theorem Counting.accumulate (counting : Counting recorded d distances hits cost) :
    Counting recorded d (accumulate d distances hits cost).1 (accumulate d distances hits cost).2.1
      (accumulate d distances hits cost).2.2 ∧
    (Evictor.accumulate d distances hits cost).1 = distances.filter fun x => d < x.1 := by
  induction distances generalizing hits cost with
  | nil => exact ⟨counting, rfl⟩
  | cons x rest ih =>
    obtain ⟨distance, count⟩ := x
    obtain ⟨first, sorted⟩ := List.pairwise_cons.mp counting.sorted
    rw [Evictor.accumulate]
    by_cases below : distance ≤ d
    · rw [if_pos below, List.filter_cons_of_neg (by simpa using below)]
      -- the count moves: it is within every distance from here on
      refine ih ⟨sorted, fun e le => ?_, fun e le => ?_⟩
      · have same := counting.hits e le
        rw [hitsIn, List.filter_cons_of_pos (by simp; omega), List.map_cons, List.sum_cons] at same
        rw [← same, hitsIn]
        omega
      · have same := counting.cost e le
        rw [costIn, List.filter_cons_of_pos (by simp; omega), List.map_cons, List.sum_cons] at same
        rw [← same, costIn, add_assoc]
    · rw [if_neg below]
      have all : ((distance, count) :: rest).filter (fun x => decide (d < x.1)) = (distance, count) :: rest := by
        apply List.filter_eq_self.mpr
        intro x member
        rcases List.mem_cons.mp member with rfl | member
        · simpa using below
        · have later := first x member
          simp only [decide_eq_true_eq]
          omega
      exact ⟨counting, all.symm⟩

theorem hitsWithin_nonneg (recorded : List ℤ) (d : ℤ) : 0 ≤ hitsWithin recorded d :=
  Int.natCast_nonneg _

theorem costWithin_nonneg (positive : ∀ x ∈ recorded, 1 ≤ x) (d : ℤ) : 0 ≤ costWithin recorded d := by
  apply List.sum_nonneg
  intro x member
  have := positive x (List.mem_of_mem_filter member)
  omega

/-- What is needed of the totals for the objective to be a ratio of positive numbers. -/
structure Sound (recorded : List ℤ) (total eviction : ℤ) : Prop where
  positive : ∀ x ∈ recorded, 1 ≤ x
  misses : ∀ d, hitsWithin recorded d < total
  eviction : 1 ≤ eviction

theorem Sound.denominator {total : ℤ} (sound : Sound recorded total eviction) (d : ℤ)
    (one : 1 ≤ d) : 0 < denominator total eviction recorded d := by
  have cost := costWithin_nonneg sound.positive d
  have misses := sound.misses d
  have distance := sound.eviction
  have some' : 0 < (total - hitsWithin recorded d) * (d + eviction) := by
    apply mul_pos
    · omega
    · omega
  unfold Evictor.denominator
  omega

/-- The scan keeps a running maximum of the objective, and what lies past the last candidate
stays uncounted. -/
theorem scanLoop_eq {total : ℤ} {candidates : List ℤ} (best : ℤ) (score : ℚ)
    (sound : Sound recorded total eviction) (counting : Counting recorded p distances hits cost)
    (sorted : (p :: candidates).Pairwise (· < ·)) (one : 0 ≤ p) :
    scanLoop total eviction candidates distances hits cost best score =
      (runningMax (objective total eviction recorded) candidates best score,
        distances.filter fun x => ∀ d ∈ candidates, d < x.1) := by
  induction candidates generalizing distances hits cost best score p with
  | nil => simp [scanLoop, runningMax]
  | cons d rest ih =>
    obtain ⟨first, others⟩ := List.pairwise_cons.mp sorted
    have above := first d List.mem_cons_self
    obtain ⟨counted, left⟩ := (counting.mono above.le).accumulate
    have none : ∀ x ∈ (accumulate d distances hits cost).1, d < x.1 := by
      intro x member
      rw [left] at member
      simpa using (List.mem_filter.mp member).2
    have hits' := counted.hits d le_rfl
    rw [hitsIn_none none, add_zero] at hits'
    have cost' := counted.cost d le_rfl
    rw [costIn_none none, add_zero] at cost'
    have misses := sound.misses d
    have positive := sound.denominator d (by omega)
    have uncounted : ((distances.filter fun x => decide (d < x.1)).filter fun x =>
        decide (∀ e ∈ rest, e < x.1)) = distances.filter fun x => decide (∀ e ∈ d :: rest, e < x.1) := by
      rw [List.filter_filter]
      apply List.filter_congr
      intro x _
      rw [Bool.eq_iff_iff, Bool.and_eq_true, decide_eq_true_iff, decide_eq_true_iff, decide_eq_true_iff,
        List.forall_mem_cons, and_comm]
    have next : ∀ best score, scanLoop total eviction rest (accumulate d distances hits cost).1
        (hitsWithin recorded d) (costWithin recorded d) best score =
          (runningMax (objective total eviction recorded) rest best score,
            distances.filter fun x => ∀ e ∈ d :: rest, e < x.1) := by
      intro best score
      rw [← hits', ← cost', ih best score counted others (by omega), left, uncounted]
    unfold scanLoop runningMax
    simp only [hits', cost', next, max_eq_right (by omega : 0 ≤ total - hitsWithin recorded d)]
    rw [← Evictor.denominator, if_pos positive, ← objective]
    split
    · rfl
    · rfl

end

/-! ### The histogram -/

section
variable {counts : Dict ℤ ℤ} {recorded : List ℤ}

theorem sum_filter_map {α : Type} (p : α → Bool) (f : α → ℤ) (xs : List α) :
    ((xs.filter p).map f).sum = (xs.map fun x => if p x then f x else 0).sum := by
  induction xs with
  | nil => rfl
  | cons x rest ih =>
    by_cases holds : p x = true
    · simp [holds, ih]
    · simp [holds, ih]

theorem Counting.start (histogram : Histogram counts recorded) (p : ℤ) :
    Counting recorded p (counts.items.insertionSort fun x y => x.1 ≤ y.1) 0 0 := by
  have perm := List.perm_insertionSort (fun x y : ℤ × ℤ => x.1 ≤ y.1) counts.items
  have total : Std.Total fun x y : ℤ × ℤ => x.1 ≤ y.1 := ⟨fun x y => le_total x.1 y.1⟩
  have trans : IsTrans (ℤ × ℤ) fun x y => x.1 ≤ y.1 := ⟨fun _ _ _ => le_trans⟩
  refine ⟨List.pairwise_insertionSort _ _, fun d _ => ?_, fun d _ => ?_⟩
  · have counted := histogram.sum fun k => if k ≤ d then 1 else 0
    rw [zero_add, hitsIn, ((perm.filter _).map _).sum_eq, sum_filter_map, hitsWithin]
    simp only [ite_mul, one_mul, zero_mul] at counted
    simp only [decide_eq_true_eq, counted]
    have ones := sum_filter_map (fun k => decide (k ≤ d)) (fun _ => 1) recorded
    simp only [decide_eq_true_eq] at ones
    rw [← ones]
    simp
  · have counted := histogram.sum fun k => if k ≤ d then k else 0
    rw [zero_add, costIn, ((perm.filter _).map _).sum_eq, sum_filter_map, costWithin]
    simp only [ite_mul, zero_mul] at counted
    simp only [decide_eq_true_eq, counted]
    rw [← List.map_id (recorded.filter _), sum_filter_map]
    simp

end

/-! ### The candidates -/

section
variable {c : PdpSettings} {d : ℤ}

/-- `range(1, self.max_distance + 1, self.bucket_size)` -/
def candidates (c : PdpSettings) : List ℤ := steps 1 (c.maxDistance + 1) c.bucketSize

def lastCandidate (c : PdpSettings) : ℤ := 1 + c.bucketSize * ((c.maxDistance - 1) / c.bucketSize)

def bucketOf (c : PdpSettings) (distance : ℤ) : ℤ :=
  if c.bucketSize = 1 then max 1 (min distance c.maxDistance)
  else min c.maxDistance
    ((max 1 (min distance c.maxDistance) + c.bucketSize - 1) / c.bucketSize * c.bucketSize)

section
variable (positive : c.Positive)
include positive

theorem bucketed_eq {σ : Type} (d : ℤ) : (bucketed c d : Method σ ℤ) = pure (bucketOf c d) := by
  obtain ⟨-, -, bucket, -⟩ := positive
  unfold bucketed bucketOf
  by_cases one : c.bucketSize = 1
  · simp [one]
  · simp only [one, ↓reduceIte, floorDiv, if_neg (by omega : c.bucketSize ≠ 0), pure_bind,
      Int.fdiv_eq_ediv_of_nonneg _ (by omega : 0 ≤ c.bucketSize)]

theorem candidates_eq : candidates c =
    (List.range ((c.maxDistance - 1) / c.bucketSize + 1).toNat).map fun (i : ℕ) => 1 + c.bucketSize * i := by
  obtain ⟨-, -, bucket, -⟩ := positive
  have length : (c.maxDistance + 1 - 1 + c.bucketSize - 1) / c.bucketSize =
      (c.maxDistance - 1) / c.bucketSize + 1 := by
    have regroup : c.maxDistance + 1 - 1 + c.bucketSize - 1 = c.maxDistance - 1 + 1 * c.bucketSize := by
      ring
    rw [regroup, Int.add_mul_ediv_right _ _ (by omega)]
  unfold candidates steps
  rw [if_pos (by omega), length]
  simp [← List.map_eq_flatMap]

theorem mem_candidates :
    d ∈ candidates c ↔ ∃ i : ℤ, 0 ≤ i ∧ i ≤ (c.maxDistance - 1) / c.bucketSize ∧ d = 1 + c.bucketSize * i := by
  rw [candidates_eq positive, List.mem_map]
  constructor
  · rintro ⟨i, member, rfl⟩
    rw [List.mem_range] at member
    exact ⟨i, by omega, by omega, rfl⟩
  · rintro ⟨i, low, high, rfl⟩
    refine ⟨i.toNat, List.mem_range.mpr (by omega), ?_⟩
    rw [Int.toNat_of_nonneg low]

theorem candidates_sorted : (0 :: candidates c).Pairwise (· < ·) := by
  have bucket := positive.2.2.1
  refine List.pairwise_cons.mpr ⟨fun d member => ?_, ?_⟩
  · obtain ⟨i, low, -, rfl⟩ := (mem_candidates positive).mp member
    have := mul_nonneg (by omega : 0 ≤ c.bucketSize) low
    omega
  · rw [candidates_eq positive, List.pairwise_map]
    refine List.pairwise_lt_range.imp fun {i j} less => ?_
    have := mul_lt_mul_of_pos_left (Int.ofNat_lt.mpr less) (by omega : 0 < c.bucketSize)
    omega

theorem candidates_cons : ∃ rest, candidates c = 1 :: rest := by
  have quotient : 0 ≤ (c.maxDistance - 1) / c.bucketSize :=
    Int.ediv_nonneg (by have := positive.1; omega) (by have := positive.2.2.1; omega)
  obtain ⟨n, size⟩ : ∃ n, ((c.maxDistance - 1) / c.bucketSize + 1).toNat = n + 1 :=
    ⟨((c.maxDistance - 1) / c.bucketSize).toNat, by omega⟩
  rw [candidates_eq positive, size, List.range_succ_eq_map, List.map_cons, Nat.cast_zero, mul_zero, add_zero]
  exact ⟨_, rfl⟩

theorem above_candidates : (∀ e ∈ candidates c, e < d) ↔ lastCandidate c < d := by
  have bucket := positive.2.2.1
  have quotient : 0 ≤ (c.maxDistance - 1) / c.bucketSize :=
    Int.ediv_nonneg (by have := positive.1; omega) (by omega)
  constructor
  · intro above
    exact above _ ((mem_candidates positive).mpr ⟨_, quotient, le_rfl, rfl⟩)
  · intro last e member
    obtain ⟨i, -, high, rfl⟩ := (mem_candidates positive).mp member
    have := mul_le_mul_of_nonneg_left high (by omega : 0 ≤ c.bucketSize)
    unfold lastCandidate at last
    omega

theorem bucketOf_bounds (d : ℤ) : 1 ≤ bucketOf c d ∧ bucketOf c d ≤ c.maxDistance := by
  obtain ⟨far, -, bucket, -⟩ := positive
  unfold bucketOf
  split
  · omega
  · have up : 1 ≤ (max 1 (min d c.maxDistance) + c.bucketSize - 1) / c.bucketSize :=
      (Int.le_ediv_iff_mul_le (by omega)).mpr (by omega)
    have := mul_le_mul up bucket (by omega) (by omega)
    omega

theorem bucketOf_far (far : c.maxDistance ≤ d) : bucketOf c d = c.maxDistance := by
  obtain ⟨one, -, bucket, -⟩ := positive
  unfold bucketOf
  rw [max_eq_right (by omega), min_eq_right far]
  split
  · rfl
  · rw [min_eq_left]
    have split_ := Int.emod_add_mul_ediv (c.maxDistance + c.bucketSize - 1) c.bucketSize
    have small := Int.emod_lt_of_pos (c.maxDistance + c.bucketSize - 1) (by omega : 0 < c.bucketSize)
    rw [mul_comm] at split_
    omega

/-- Which reuse distances the scan gets to. -/
theorem bucketOf_le_last (one : 1 ≤ d) : bucketOf c d ≤ lastCandidate c ↔
    c.bucketSize ∣ c.maxDistance - 1 ∨ d ≤ c.bucketSize * ((c.maxDistance - 1) / c.bucketSize) := by
  have bounds := bucketOf_bounds positive d
  obtain ⟨far, -, bucket, -⟩ := positive
  have split_ := Int.emod_add_mul_ediv (c.maxDistance - 1) c.bucketSize
  have small := Int.emod_lt_of_pos (c.maxDistance - 1) (by omega : 0 < c.bucketSize)
  have least := Int.emod_nonneg (c.maxDistance - 1) (by omega : c.bucketSize ≠ 0)
  unfold lastCandidate
  by_cases aligned : c.bucketSize ∣ c.maxDistance - 1
  · have whole := Int.emod_eq_zero_of_dvd aligned
    exact iff_of_true (by omega) (Or.inl aligned)
  · have rest : (c.maxDistance - 1) % c.bucketSize ≠ 0 := fun zero => aligned (Int.dvd_of_emod_eq_zero zero)
    have wide : c.bucketSize ≠ 1 := by
      intro unit
      rw [unit] at aligned
      exact aligned (one_dvd _)
    generalize (c.maxDistance - 1) / c.bucketSize = q at *
    unfold bucketOf
    rw [if_neg wide]
    -- the bucket is the next multiple, and `b * q` the last one below the greatest distance
    have next : (max 1 (min d c.maxDistance) + c.bucketSize - 1) / c.bucketSize ≤ q ↔
        max 1 (min d c.maxDistance) ≤ c.bucketSize * q := by
      rw [← Int.lt_add_one_iff, Int.ediv_lt_iff_lt_mul (by omega), add_mul, mul_comm q]
      omega
    have multiple : (max 1 (min d c.maxDistance) + c.bucketSize - 1) / c.bucketSize * c.bucketSize ≤
        1 + c.bucketSize * q ↔ (max 1 (min d c.maxDistance) + c.bucketSize - 1) / c.bucketSize ≤ q := by
      generalize (max 1 (min d c.maxDistance) + c.bucketSize - 1) / c.bucketSize = k
      constructor
      · intro le
        by_contra more
        have := mul_le_mul_of_nonneg_right (by omega : q + 1 ≤ k) (by omega : 0 ≤ c.bucketSize)
        rw [add_mul, mul_comm q] at this
        omega
      · intro le
        have := mul_le_mul_of_nonneg_right le (by omega : 0 ≤ c.bucketSize)
        rw [mul_comm q] at this
        omega
    rw [min_le_iff, multiple, next]
    constructor
    · rintro (le | le)
      · omega
      · exact Or.inr (by omega)
    · rintro (divides | le)
      · exact absurd divides aligned
      · exact Or.inr (by omega)

end

end
end Vllm.Evictor
