import VllmProofs.Evictor.Basic

/-!
The reuse-distance histogram of PDP and the protecting distance learned from it. `PDPEvictor`,
`ShadowPolicyCache` and `LRUMLEvictor` each carry a copy of this code over their own fields.
-/

namespace Vllm.Evictor
open Exec

/-- The integer `pdp_*` settings. -/
structure PdpSettings where
  initialPd : ℤ := 32
  maxDistance : ℤ := 256
  recomputeInterval : ℤ := 512
  bucketSize : ℤ := 1
  evictionDistance : ℤ := 1
  deriving DecidableEq, Repr

namespace PdpSettings

/-- The lower bounds `PDPEvictor` puts on its settings. -/
def clamp (c : PdpSettings) : PdpSettings where
  initialPd := max 0 c.initialPd
  maxDistance := max 1 c.maxDistance
  recomputeInterval := max 1 c.recomputeInterval
  bucketSize := max 1 c.bucketSize
  evictionDistance := max 1 c.evictionDistance

def Positive (c : PdpSettings) : Prop :=
  1 ≤ c.maxDistance ∧ 1 ≤ c.recomputeInterval ∧ 1 ≤ c.bucketSize ∧ 1 ≤ c.evictionDistance

theorem clamp_positive (c : PdpSettings) : c.clamp.Positive :=
  ⟨le_max_left _ _, le_max_left _ _, le_max_left _ _, le_max_left _ _⟩

end PdpSettings

def floorDiv {σ : Type} (a b : ℤ) : Method σ ℤ :=
  if b = 0 then throw .zeroDivisionError else pure (a.fdiv b)

def divides {σ : Type} (a b : ℤ) : Method σ Bool :=
  if b = 0 then throw .zeroDivisionError else pure (a % b = 0)

/-- The numbers from `start` towards `stop` by a `step` that is not zero. -/
def steps (start stop step : ℤ) : List ℤ :=
  let length := if 0 < step then (stop - start + step - 1) / step
    else (start - stop - step - 1) / -step
  (List.range length.toNat).map fun i => start + step * i

/-- `range(start, stop, step)` -/
def range {σ : Type} (start stop step : ℤ) : Method σ (List ℤ) :=
  if step = 0 then throw (.valueError "range() arg 3 must not be zero")
  else pure (steps start stop step)

def bucketed {σ : Type} (c : PdpSettings) (distance : ℤ) : Method σ ℤ := do
  let distance := max 1 (min distance c.maxDistance)
  if c.bucketSize = 1 then return distance
  else
    let bucket ← floorDiv (distance + c.bucketSize - 1) c.bucketSize
    return min c.maxDistance (bucket * c.bucketSize)

def countReuse (counts : Dict ℤ ℤ) (distance : ℤ) : Dict ℤ ℤ :=
  counts.insert distance ((counts.get? distance).getD 0 + 1)

/-- The inner `while`: counts up to `distance` move into the running hits and cost. -/
def accumulate (distance : ℤ) : List (ℤ × ℤ) → ℤ → ℤ → List (ℤ × ℤ) × ℤ × ℤ
  | [], hits, cost => ([], hits, cost)
  | (reuseDistance, count) :: rest, hits, cost =>
    if reuseDistance ≤ distance then
      accumulate distance rest (hits + count) (cost + reuseDistance * count)
    else ((reuseDistance, count) :: rest, hits, cost)

/-- The outer `for`: the best distance so far and its score. -/
def scanDistances (total evictionDistance : ℤ) :
    List ℤ → List (ℤ × ℤ) → ℤ → ℤ → ℤ → ℚ → ℤ
  | [], _, _, _, bestDistance, _ => bestDistance
  | distance :: candidates, distances, hits, cost, bestDistance, bestScore =>
    let (distances, hits, cost) := accumulate distance distances hits cost
    let misses := max 0 (total - hits)
    let denominator := cost + misses * (distance + evictionDistance)
    let score : ℚ := if 0 < denominator then hits / denominator else 0
    if bestScore < score then
      scanDistances total evictionDistance candidates distances hits cost distance score
    else scanDistances total evictionDistance candidates distances hits cost bestDistance bestScore

def bestProtectingDistance {σ : Type} (c : PdpSettings) (counts : Dict ℤ ℤ) (total : ℤ)
    (protectingDistance : ℤ) : Method σ ℤ :=
  if counts.size = 0 ∨ total = 0 then return protectingDistance
  else do
    let candidates ← range 1 (c.maxDistance + 1) c.bucketSize
    let distances := counts.items.insertionSort fun x y => x.1 ≤ y.1
    return scanDistances total c.evictionDistance candidates distances 0 0 protectingDistance (-1)

theorem divides_positive {σ : Type} {b : ℤ} (a : ℤ) (positive : 1 ≤ b) :
    (divides a b : Method σ Bool) = pure (decide (a % b = 0)) := by
  rw [divides, if_neg (by omega)]

variable {c : PdpSettings}

theorem bucketed_positive (positive : c.Positive) (d : ℤ) :
    ∃ bucket, ∀ σ : Type, (bucketed c d : Method σ ℤ) = pure bucket := by
  have nonzero : c.bucketSize ≠ 0 := by have := positive.2.2.1; omega
  by_cases one : c.bucketSize = 1
  · exact ⟨max 1 (min d c.maxDistance), fun σ => by simp [bucketed, one]⟩
  · refine ⟨min c.maxDistance ((max 1 (min d c.maxDistance) + c.bucketSize - 1).fdiv c.bucketSize *
      c.bucketSize), fun σ => ?_⟩
    simp only [bucketed, if_neg one, floorDiv, if_neg nonzero, pure_bind]

theorem bestProtectingDistance_positive (positive : c.Positive) (counts : Dict ℤ ℤ) (total pd : ℤ) :
    ∃ best, ∀ σ : Type, (bestProtectingDistance c counts total pd : Method σ ℤ) = pure best := by
  have nonzero : c.bucketSize ≠ 0 := by have := positive.2.2.1; omega
  by_cases idle : counts.size = 0 ∨ total = 0
  · exact ⟨pd, fun σ => by simp [bestProtectingDistance, idle]⟩
  · refine ⟨scanDistances total c.evictionDistance (steps 1 (c.maxDistance + 1) c.bucketSize)
      (counts.items.insertionSort fun x y => x.1 ≤ y.1) 0 0 pd (-1), fun σ => ?_⟩
    simp only [bestProtectingDistance, if_neg idle, range, if_neg nonzero, pure_bind]

section
variable {σ : Type} {R : σ → σ → Prop} [IsPreorder σ R]

theorem divides_keeps (a b : ℤ) : Keeps R (divides a b : Method σ Bool) :=
  .ite (.throw _) (.pure _)

theorem bucketed_keeps (c : PdpSettings) (d : ℤ) : Keeps R (bucketed c d : Method σ ℤ) :=
  .ite (.pure _) (.bind (.ite (.throw _) (.pure _)) fun _ => .pure _)

theorem bestProtectingDistance_keeps (c : PdpSettings) (counts : Dict ℤ ℤ) (total pd : ℤ) :
    Keeps R (bestProtectingDistance c counts total pd : Method σ ℤ) :=
  .ite (.pure _) (.bind (.ite (.throw _) (.pure _)) fun _ => .pure _)

end

section
variable {σ : Type} {e : PyError}

theorem divides_avoids {a b : ℤ} (zero : PyError.zeroDivisionError ≠ e) :
    Avoids e (divides a b : Method σ Bool) :=
  .ite (.throw zero) (.pure _)

theorem bucketed_avoids {d : ℤ} (zero : PyError.zeroDivisionError ≠ e) :
    Avoids e (bucketed c d : Method σ ℤ) :=
  .ite (.pure _) (.bind (.ite (.throw zero) (.pure _)) fun _ => .pure _)

theorem bestProtectingDistance_avoids {counts : Dict ℤ ℤ} {total pd : ℤ}
    (step : PyError.valueError "range() arg 3 must not be zero" ≠ e) :
    Avoids e (bestProtectingDistance c counts total pd : Method σ ℤ) :=
  .ite (.pure _) (.bind (.ite (.throw step) (.pure _)) fun _ => .pure _)

end
end Vllm.Evictor
