import Mathlib.MeasureTheory.Measure.Lebesgue.Basic
import VllmProofs.Data.Sampling
import VllmProofs.SpecDecode.BaseSampler

namespace Vllm.SpecDecode
open scoped ENNReal
open Sampling MeasureTheory

variable {v : Nat}

noncomputable section

-- torch.rand: uniform on [0, 1)

def uniform : Measure ℝ := volume.restrict (Set.Ico 0 1)

instance : IsProbabilityMeasure uniform := by
  constructor
  rw [uniform, Measure.restrict_apply_univ, Real.volume_Ico, sub_zero, ENNReal.ofReal_one]

theorem measurable_below (ratio : ℝ≥0∞) :
    Measurable fun u : ℝ => decide (ENNReal.ofReal u < ratio) := by
  apply measurable_to_bool
  have below : Set.preimage (fun u : ℝ => decide (ENNReal.ofReal u < ratio)) {true} =
      {u | ENNReal.ofReal u < ratio} := by
    ext u
    simp
  rw [below]
  exact measurableSet_lt ENNReal.measurable_ofReal measurable_const

/-- `uniform_rand < capped_ratio`, for one uniform sample. -/
def accepts (ratio : ℝ≥0∞) : PMF Bool :=
  have : IsProbabilityMeasure (uniform.map fun u => decide (ENNReal.ofReal u < ratio)) :=
    Measure.isProbabilityMeasure_map (measurable_below ratio).aemeasurable
  (uniform.map fun u => decide (ENNReal.ofReal u < ratio)).toPMF

theorem accepts_true {ratio : ℝ≥0∞} (capped : ratio ≤ 1) : accepts ratio true = ratio := by
  have finite : ratio ≠ ∞ := ne_top_of_le_ne_top ENNReal.one_ne_top capped
  have below : Set.preimage (fun u : ℝ => decide (ENNReal.ofReal u < ratio)) {true} ∩ Set.Ico 0 1 =
      Set.Ico 0 ratio.toReal := by
    ext u
    simp only [Set.mem_inter_iff, Set.mem_preimage, Set.mem_singleton_iff, decide_eq_true_eq,
      Set.mem_Ico]
    constructor
    · rintro ⟨less, positive, _⟩
      exact ⟨positive, (ENNReal.ofReal_lt_iff_lt_toReal positive finite).mp less⟩
    · rintro ⟨positive, less⟩
      refine ⟨(ENNReal.ofReal_lt_iff_lt_toReal positive finite).mpr less, positive, ?_⟩
      exact lt_of_lt_of_le less (ENNReal.toReal_le_of_le_ofReal zero_le_one (by simpa using capped))
  rw [accepts, Measure.toPMF_apply,
    Measure.map_apply (measurable_below ratio) (measurableSet_singleton true), uniform,
    Measure.restrict_apply (measurable_below ratio (measurableSet_singleton true)), below,
    Real.volume_Ico, sub_zero, ENNReal.ofReal_toReal finite]

def cappedRatio (target draft : PMF (Fin v)) (token : Fin v) : ℝ≥0∞ :=
  min (target token / draft token) 1

-- The distribution of the substitutes

/-- `torch.finfo(float32).tiny`. -/
def smallestPositiveValue : ℝ≥0∞ := 2⁻¹ ^ 126

/-- The clamp of `_get_recovered_probs` as exact arithmetic has it: it only keeps a difference that
is nowhere positive from being divided by zero. -/
def clampMin (target draft : PMF (Fin v)) : ℝ≥0∞ :=
  open Classical in if ∃ x, draft x < target x then 0 else smallestPositiveValue

def clampedDifference (target draft : PMF (Fin v)) (token : Fin v) : ℝ≥0∞ :=
  max (target token - draft token) (clampMin target draft)

theorem smallestPositiveValue_pos : 0 < smallestPositiveValue := by
  exact ENNReal.pow_pos (ENNReal.inv_pos.mpr ENNReal.ofNat_ne_top) 126

theorem clampMin_le (target draft : PMF (Fin v)) : clampMin target draft ≤ 1 := by
  unfold clampMin
  split
  · exact zero_le
  · exact pow_le_one₀ zero_le (by simp)

theorem sum_clampedDifference_ne_zero (target draft : PMF (Fin v)) :
    (tsum fun x => clampedDifference target draft x) ≠ 0 := by
  intro none
  have zero := ENNReal.tsum_eq_zero.mp none
  by_cases more : ∃ x, draft x < target x
  · obtain ⟨x, less⟩ := more
    have difference : target x - draft x ≤ 0 := (le_max_left _ _).trans (zero x).le
    exact absurd (tsub_eq_zero_iff_le.mp (le_zero_iff.mp difference)) (not_le.mpr less)
  · obtain ⟨x, _⟩ := target.support_nonempty
    have clamped : clampMin target draft ≤ 0 := (le_max_right _ _).trans (zero x).le
    rw [clampMin, if_neg more] at clamped
    exact absurd smallestPositiveValue_pos (not_lt.mpr clamped)

theorem sum_clampedDifference_ne_top (target draft : PMF (Fin v)) :
    (tsum fun x => clampedDifference target draft x) ≠ ∞ := by
  rw [tsum_fintype]
  apply (ENNReal.sum_lt_top.mpr _).ne
  intro x _
  apply max_lt
  · exact lt_of_le_of_lt tsub_le_self (target.apply_lt_top x)
  · exact lt_of_le_of_lt (clampMin_le target draft) ENNReal.one_lt_top

def getRecoveredProbs (target draft : PMF (Fin v)) : PMF (Fin v) :=
  PMF.normalize (clampedDifference target draft) (sum_clampedDifference_ne_zero target draft)
    (sum_clampedDifference_ne_top target draft)

theorem getRecoveredProbs_residual {target draft : PMF (Fin v)} (more : ∃ x, draft x < target x)
    (y : Fin v) :
    (tsum fun x => target x - draft x) * getRecoveredProbs target draft y = target y - draft y := by
  have unclamped : clampedDifference target draft = fun x => target x - draft x := by
    funext x
    rw [clampedDifference, clampMin, if_pos more, max_eq_left zero_le]
  have some := sum_clampedDifference_ne_zero target draft
  have finite := sum_clampedDifference_ne_top target draft
  rw [unclamped] at some finite
  simp only [getRecoveredProbs, PMF.normalize_apply, unclamped]
  rw [mul_comm, mul_assoc, ENNReal.inv_mul_cancel some finite, mul_one]

-- The sampler

structure SamplerRow (v : Nat) where
  targetWithBonusProbs : List (PMF (Fin v))
  bonusTokenId : Fin v
  draftProbs : List (PMF (Fin v))
  draftTokenIds : List (Fin v)

namespace SamplerRow

def targetProbs (row : SamplerRow v) : List (PMF (Fin v)) := row.targetWithBonusProbs.dropLast

/-- `_get_accepted`, for one row: every position has its own uniform sample, whatever happens at the
positions before it. -/
def getAccepted (row : SamplerRow v) : PMF (List Bool) :=
  each ((List.zipWith3 cappedRatio row.targetProbs row.draftProbs row.draftTokenIds).map accepts)

/-- The substitutes of one row: `_multinomial` draws one for each position, used or not. -/
def getRecovered (row : SamplerRow v) : PMF (List (Fin v)) :=
  each (List.zipWith getRecoveredProbs row.targetProbs row.draftProbs)

def output (row : SamplerRow v) (accepted : List Bool) (recovered : List (Fin v)) : List Int :=
  createOutput accepted (recovered.map tokenId) (row.draftTokenIds.map tokenId)
    (tokenId row.bonusTokenId)

end SamplerRow

def forward (batch : List (SamplerRow v)) : PMF (List (List Int)) :=
  (each (batch.map SamplerRow.getAccepted)).bind fun accepted =>
    (each (batch.map SamplerRow.getRecovered)).map fun recovered =>
      List.zipWith3 SamplerRow.output batch accepted recovered

def forwardRow (row : SamplerRow v) : PMF (List Int) :=
  row.getAccepted.bind fun accepted => row.getRecovered.map (row.output accepted)

theorem forward_eq (batch : List (SamplerRow v)) : forward batch = each (batch.map forwardRow) := by
  unfold forward
  induction batch with
  | nil => simp only [List.map_nil, each_nil, PMF.pure_bind, PMF.pure_map, List.zipWith3]
  | cons row batch ih =>
    simp only [List.map_cons, each_cons, forwardRow, PMF.bind_bind, PMF.bind_map, PMF.map_bind,
      PMF.map_comp, Function.comp_def, List.zipWith3]
    congr 1
    funext accepted
    rw [PMF.bind_comm]
    congr 1
    funext recovered
    rw [← ih, PMF.map_bind]
    congr 1
    funext others
    rw [PMF.map_comp]
    rfl

end

end Vllm.SpecDecode
