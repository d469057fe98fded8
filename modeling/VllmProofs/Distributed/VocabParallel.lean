import VllmProofs.Data.FlatArrays

/-!
The vocabulary of `VocabParallelEmbedding`, cut into one shard for each rank: which rows a rank holds and looks
up, where `VocabParallelEmbeddingWithLoRA` writes the rows of the adapters, and the order in which gathered
logits are read.
-/

namespace Vllm.Distributed
open FlatArrays

def padVocabSize (vocabSize padTo : ℕ) : ℕ := (vocabSize + padTo - 1) / padTo * padTo

def vocabRangeFromPerPartitionVocabSize (perPartitionVocabSize rank offset : ℕ) : ℕ × ℕ :=
  let indexF := rank * perPartitionVocabSize
  let indexL := indexF + perPartitionVocabSize
  (indexF + offset, indexL + offset)

/-- `divide` has checked that nothing remains. -/
def vocabRangeFromGlobalVocabSize (globalVocabSize rank worldSize offset : ℕ) : ℕ × ℕ :=
  vocabRangeFromPerPartitionVocabSize (globalVocabSize / worldSize) rank offset

structure ShardIndices where
  paddedOrgVocabStartIndex : ℕ
  paddedOrgVocabEndIndex : ℕ
  paddedAddedVocabStartIndex : ℕ
  paddedAddedVocabEndIndex : ℕ
  orgVocabStartIndex : ℕ
  orgVocabEndIndex : ℕ
  addedVocabStartIndex : ℕ
  addedVocabEndIndex : ℕ

namespace ShardIndices

variable (s : ShardIndices)

def numOrgElements : ℕ := s.orgVocabEndIndex - s.orgVocabStartIndex

def numAddedElements : ℕ := s.addedVocabEndIndex - s.addedVocabStartIndex

def numOrgElementsPadded : ℕ := s.paddedOrgVocabEndIndex - s.paddedOrgVocabStartIndex

def numAddedElementsPadded : ℕ := s.paddedAddedVocabEndIndex - s.paddedAddedVocabStartIndex

def numOrgVocabPadding : ℕ := s.numOrgElementsPadded - s.numOrgElements

def numElementsPadded : ℕ := s.numOrgElementsPadded + s.numAddedElementsPadded

end ShardIndices

/-- The row that is looked up for a token, and whether the token is masked. -/
def getMaskedInputAndMask (input : ℤ) (s : ShardIndices) : ℤ × Bool :=
  let orgVocabMask := decide (s.orgVocabStartIndex ≤ input) && decide (input < s.orgVocabEndIndex)
  let addedVocabMask := decide (s.addedVocabStartIndex ≤ input) && decide (input < s.addedVocabEndIndex)
  let addedOffset : ℤ := s.addedVocabStartIndex - (s.orgVocabEndIndex - s.orgVocabStartIndex) - s.numOrgVocabPadding
  let validOffset : ℤ := s.orgVocabStartIndex * orgVocabMask.toInt + addedOffset * addedVocabMask.toInt
  let vocabMask := orgVocabMask || addedVocabMask
  (vocabMask.toInt * (input - validOffset), !vocabMask)

/-- A vocabulary that the constructor accepts: base and added tokens are padded, and each part can be divided.
The callers pass the base vocabulary with the extra one of the adapters. -/
structure VocabParallelEmbedding where
  numEmbeddings : ℕ
  orgVocabSize : ℕ
  paddingSize : ℕ
  tpSize : ℕ
  contains : orgVocabSize ≤ numEmbeddings
  pads : 0 < paddingSize
  ranks : 0 < tpSize
  orgDivides : tpSize ∣ padVocabSize orgVocabSize paddingSize
  addedDivides : tpSize ∣ padVocabSize (padVocabSize orgVocabSize paddingSize + (numEmbeddings - orgVocabSize)) paddingSize -
    padVocabSize orgVocabSize paddingSize

namespace VocabParallelEmbedding

variable (layer : VocabParallelEmbedding) {M : Type} [AddCommMonoid M]

def orgVocabSizePadded : ℕ := padVocabSize layer.orgVocabSize layer.paddingSize

def numEmbeddingsPadded : ℕ :=
  padVocabSize (layer.orgVocabSizePadded + (layer.numEmbeddings - layer.orgVocabSize)) layer.paddingSize

def numEmbeddingsPerPartition : ℕ := layer.numEmbeddingsPadded / layer.tpSize

def getIndices (tpRank : ℕ) : ShardIndices :=
  let numAddedEmbeddingsPadded := layer.numEmbeddingsPadded - layer.orgVocabSizePadded
  let paddedOrg := vocabRangeFromGlobalVocabSize layer.orgVocabSizePadded tpRank layer.tpSize 0
  let paddedAdded := vocabRangeFromGlobalVocabSize numAddedEmbeddingsPadded tpRank layer.tpSize layer.orgVocabSize
  { paddedOrgVocabStartIndex := paddedOrg.1
    paddedOrgVocabEndIndex := paddedOrg.2
    paddedAddedVocabStartIndex := paddedAdded.1
    paddedAddedVocabEndIndex := paddedAdded.2
    -- without the padding
    orgVocabStartIndex := min paddedOrg.1 layer.orgVocabSize
    orgVocabEndIndex := min paddedOrg.2 layer.orgVocabSize
    addedVocabStartIndex := min paddedAdded.1 layer.numEmbeddings
    addedVocabEndIndex := min paddedAdded.2 layer.numEmbeddings }

/-- The rows of a rank after `weight_loader`: the base tokens of the shard, and zeros. -/
def weightLoader (tpRank : ℕ) (loadedWeight : ℕ → M) : ℕ → M :=
  let s := layer.getIndices tpRank
  fun row => if row < s.numOrgElements then loadedWeight (s.orgVocabStartIndex + row) else 0

/-- `create_lora_weights` and `set_lora`: the rows of the adapters, one adapter after another, are copied to the
rows that follow the base tokens. -/
def setLora (tpRank : ℕ) (embeddingsTensors : ℕ → M) (weight : ℕ → M) : ℕ → M :=
  let s := layer.getIndices tpRank
  fun row => if s.numOrgElements ≤ row ∧ row < s.numOrgElements + s.numAddedElements then
    embeddingsTensors (s.addedVocabStartIndex - layer.orgVocabSize + (row - s.numOrgElements)) else weight row

/-- `forward` over all ranks: what they look up is masked and summed up. -/
def forward (weight : ℕ → ℕ → M) (input : ℤ) : M :=
  if 1 < layer.tpSize then
    ∑ tpRank ∈ Finset.range layer.tpSize,
      let (maskedInput, inputMask) := getMaskedInputAndMask input (layer.getIndices tpRank)
      if inputMask then 0 else weight tpRank maskedInput.toNat
  else weight 0 input.toNat

def getShardedToFullMapping : Option (List ℕ) :=
  if layer.tpSize < 2 then none
  else
    let rangeStart := fun tpRank => layer.numEmbeddingsPerPartition * tpRank
    let baseEmbeddings := (List.range layer.tpSize).flatMap fun tpRank =>
      List.range' (rangeStart tpRank) (layer.getIndices tpRank).numOrgElements
    let addedEmbeddings := (List.range layer.tpSize).flatMap fun tpRank =>
      let s := layer.getIndices tpRank
      List.range' (rangeStart tpRank + s.numOrgElementsPadded) s.numAddedElements
    let padding := (List.range layer.tpSize).flatMap fun tpRank =>
      let s := layer.getIndices tpRank
      List.range' (rangeStart tpRank + s.numOrgElements) (s.numOrgElementsPadded - s.numOrgElements) ++
        List.range' (rangeStart tpRank + s.numOrgElementsPadded + s.numAddedElements)
          (s.numAddedElementsPadded - s.numAddedElements)
    some (baseEmbeddings ++ addedEmbeddings ++ padding)

/-! ### The shards -/

variable {layer} {r x : ℕ} {s : ShardIndices}

theorem le_padVocabSize {n k : ℕ} (positive : 0 < k) : n ≤ padVocabSize n k := by
  have split := Nat.div_add_mod (n + k - 1) k
  have small := Nat.mod_lt (n + k - 1) positive
  rw [Nat.mul_comm] at split
  unfold padVocabSize
  omega

variable (layer) in
/-- Each rank has `org` rows for base tokens and `added` rows for added ones, and the ranks have enough. -/
theorem exists_parts : ∃ org added, layer.numEmbeddingsPadded = layer.tpSize * (org + added) ∧
    layer.orgVocabSize ≤ layer.tpSize * org ∧ layer.numEmbeddings ≤ layer.orgVocabSize + layer.tpSize * added ∧
    layer.numEmbeddingsPerPartition = org + added ∧ ∀ r s, layer.getIndices r = s → s =
      ⟨r * org, r * org + org, r * added + layer.orgVocabSize, r * added + added + layer.orgVocabSize,
        min (r * org) layer.orgVocabSize, min (r * org + org) layer.orgVocabSize,
        min (r * added + layer.orgVocabSize) layer.numEmbeddings,
        min (r * added + added + layer.orgVocabSize) layer.numEmbeddings⟩ := by
  obtain ⟨org, orgSize⟩ := layer.orgDivides
  obtain ⟨added, addedSize⟩ := layer.addedDivides
  have orgFits : layer.orgVocabSize ≤ layer.orgVocabSizePadded := le_padVocabSize layer.pads
  have addedFits : layer.orgVocabSizePadded + (layer.numEmbeddings - layer.orgVocabSize) ≤ layer.numEmbeddingsPadded :=
    le_padVocabSize layer.pads
  have orgSize : layer.orgVocabSizePadded = layer.tpSize * org := orgSize
  have addedSize : layer.numEmbeddingsPadded - layer.orgVocabSizePadded = layer.tpSize * added := addedSize
  have whole : layer.numEmbeddingsPadded = layer.tpSize * (org + added) := by
    rw [Nat.mul_add]
    omega
  have orgRows : layer.orgVocabSizePadded / layer.tpSize = org := by
    rw [orgSize, Nat.mul_div_cancel_left _ layer.ranks]
  have addedRows : (layer.numEmbeddingsPadded - layer.orgVocabSizePadded) / layer.tpSize = added := by
    rw [addedSize, Nat.mul_div_cancel_left _ layer.ranks]
  refine ⟨org, added, whole, orgSize ▸ orgFits, by omega, ?_, fun r s shard => ?_⟩
  · unfold numEmbeddingsPerPartition
    rw [whole, Nat.mul_div_cancel_left _ layer.ranks]
  · rw [← shard]
    simp only [getIndices, vocabRangeFromGlobalVocabSize, vocabRangeFromPerPartitionVocabSize, orgRows, addedRows,
      Nat.add_zero]

theorem shard_ordered (shard : layer.getIndices r = s) : s.orgVocabStartIndex ≤ s.orgVocabEndIndex ∧
    s.orgVocabEndIndex ≤ layer.orgVocabSize ∧ layer.orgVocabSize ≤ s.addedVocabStartIndex ∧
    s.addedVocabEndIndex ≤ layer.numEmbeddings ∧
    s.numOrgElementsPadded = s.numOrgElements + s.numOrgVocabPadding := by
  obtain ⟨org, added, -, -, -, -, shards⟩ := layer.exists_parts
  have contains := layer.contains
  obtain rfl := shards r s shard
  dsimp only [ShardIndices.numOrgElements, ShardIndices.numOrgElementsPadded, ShardIndices.numOrgVocabPadding]
  omega

/-- A base token is looked up in its row of the shard, an added one past the padding of the base tokens. -/
theorem masked_eq (shard : layer.getIndices r = s) : getMaskedInputAndMask x s =
    if s.orgVocabStartIndex ≤ x ∧ x < s.orgVocabEndIndex then (((x - s.orgVocabStartIndex : ℕ) : ℤ), false)
    else if s.addedVocabStartIndex ≤ x ∧ x < s.addedVocabEndIndex then
      (((s.numOrgElements + (x - s.addedVocabStartIndex + s.numOrgVocabPadding) : ℕ) : ℤ), false)
    else (0, true) := by
  obtain ⟨ordered, low, apart, -⟩ := shard_ordered shard
  unfold getMaskedInputAndMask ShardIndices.numOrgElements
  simp only [Nat.cast_le, Nat.cast_lt, ← Bool.decide_and]
  split
  · rename_i base
    have other : ¬(s.addedVocabStartIndex ≤ x ∧ x < s.addedVocabEndIndex) := by omega
    simp [base, other]
  · rename_i other
    split
    · rename_i inside
      have row : (x : ℤ) - (s.addedVocabStartIndex - (s.orgVocabEndIndex - s.orgVocabStartIndex) - s.numOrgVocabPadding) =
          (s.orgVocabEndIndex - s.orgVocabStartIndex + (x - s.addedVocabStartIndex + s.numOrgVocabPadding) : ℕ) := by
        omega
      simp [other, inside, row]
    · rename_i outside
      simp [other, outside]

/-- Of the windows of one size that follow one another, one has the number. -/
theorem exists_window {n k : ℕ} (inside : x < n * k) : ∃ owner < n, ∀ r, r * k ≤ x ∧ x < r * k + k ↔ r = owner := by
  have positive : 0 < k := by
    rcases Nat.eq_zero_or_pos k with rfl | positive
    · cases inside
    · exact positive
  refine ⟨x / k, (Nat.div_lt_iff_lt_mul positive).mpr inside, fun r => ?_⟩
  rw [eq_comm, Nat.div_eq_iff positive]
  constructor
  · rintro ⟨low, high⟩
    omega
  · rintro ⟨low, high⟩
    omega

/-- The shards do not overlap, and each token is in one. -/
theorem exists_owner (known : x < layer.numEmbeddings) : ∃ owner < layer.tpSize, ∀ r s, layer.getIndices r = s →
    if r = owner then
      if x < layer.orgVocabSize then s.orgVocabStartIndex ≤ x ∧ x < s.orgVocabEndIndex
      else s.addedVocabStartIndex ≤ x ∧ x < s.addedVocabEndIndex
    else getMaskedInputAndMask x s = (0, true) := by
  obtain ⟨org, added, -, orgFits, addedFits, -, shards⟩ := layer.exists_parts
  have contains := layer.contains
  by_cases base : x < layer.orgVocabSize
  · obtain ⟨owner, rank, windows⟩ := @exists_window x layer.tpSize org (by omega)
    refine ⟨owner, rank, fun r s shard => ?_⟩
    have window := windows r
    rw [if_pos base, masked_eq shard]
    obtain rfl := shards r s shard
    dsimp only
    split
    · omega
    · rw [if_neg (by omega), if_neg (by omega)]
  · obtain ⟨owner, rank, windows⟩ := @exists_window (x - layer.orgVocabSize) layer.tpSize added (by omega)
    refine ⟨owner, rank, fun r s shard => ?_⟩
    have window := windows r
    rw [if_neg base, masked_eq shard]
    obtain rfl := shards r s shard
    dsimp only
    split
    · omega
    · rw [if_neg (by omega), if_neg (by omega)]

/-! ### Looking up embeddings -/

variable (layer) in
/-- The rows of all ranks, with those of the adapters. -/
def weights (loadedWeight embeddingsTensors : ℕ → M) (tpRank : ℕ) : ℕ → M :=
  layer.setLora tpRank embeddingsTensors (layer.weightLoader tpRank loadedWeight)

/-- The rank that does not mask a token answers for it. -/
theorem forward_unmasked {row : ℕ} (known : x < layer.numEmbeddings) (many : 1 < layer.tpSize)
    (looked : getMaskedInputAndMask x (layer.getIndices r) = ((row : ℤ), false)) (weight : ℕ → ℕ → M) :
    layer.forward weight x = weight r row := by
  obtain ⟨owner, rank, shards⟩ := exists_owner known
  have others : ∀ r ≠ owner, getMaskedInputAndMask x (layer.getIndices r) = (0, true) := by
    intro r other
    have masked := shards r _ rfl
    rwa [if_neg other] at masked
  obtain rfl : r = owner := by
    by_contra other
    rw [others r other] at looked
    cases looked
  unfold forward
  rw [if_pos many, Finset.sum_eq_single r]
  · rw [looked]
    rfl
  · intro r' _ other
    rw [others r' other]
    rfl
  · intro absent
    exact absurd (Finset.mem_range.mpr rank) absent

variable {loadedWeight embeddingsTensors : ℕ → M}

/-- The row of a base token, whatever the adapters have written. -/
theorem weights_base {row : ℕ} (shard : layer.getIndices r = s) (inside : row < s.numOrgElements) :
    layer.weights loadedWeight embeddingsTensors r row = loadedWeight (s.orgVocabStartIndex + row) := by
  simp only [weights, setLora, weightLoader, shard]
  rw [if_neg (by omega), if_pos inside]

theorem weights_added (shard : layer.getIndices r = s) (row : ℕ) :
    layer.weights loadedWeight embeddingsTensors r (s.numOrgElements + row) =
      if row < s.numAddedElements then embeddingsTensors (s.addedVocabStartIndex - layer.orgVocabSize + row) else 0 := by
  simp only [weights, setLora, weightLoader, shard, Nat.add_sub_cancel_left, Nat.add_lt_add_iff_left,
    Nat.le_add_right, true_and]
  rw [if_neg (Nat.not_lt_of_le (Nat.le_add_right _ _))]

/-- On one rank nothing is cut, and the added tokens follow the base tokens. -/
theorem shard_alone (alone : ¬1 < layer.tpSize) (shard : layer.getIndices 0 = s) : s.orgVocabStartIndex = 0 ∧
    s.numOrgElements = layer.orgVocabSize ∧ s.addedVocabStartIndex = layer.orgVocabSize ∧
    s.numAddedElements = layer.numEmbeddings - layer.orgVocabSize := by
  obtain ⟨org, added, -, orgFits, addedFits, -, shards⟩ := layer.exists_parts
  have one : layer.tpSize = 1 := Nat.le_antisymm (Nat.le_of_not_lt alone) layer.ranks
  have contains := layer.contains
  rw [one, Nat.one_mul] at orgFits addedFits
  obtain rfl := shards 0 s shard
  dsimp only [ShardIndices.numOrgElements, ShardIndices.numAddedElements]
  omega

/-- Three base tokens, padded to four, and three added ones on two ranks. -/
def paddedBase : VocabParallelEmbedding where
  numEmbeddings := 6
  orgVocabSize := 3
  paddingSize := 4
  tpSize := 2
  contains := Nat.le_add_right 3 3
  pads := Nat.succ_pos 3
  ranks := Nat.succ_pos 1
  orgDivides := ⟨2, rfl⟩
  addedDivides := ⟨2, rfl⟩

/-- However the vocabulary is cut and whatever adapters are loaded, a base token is given its own embedding. -/
theorem forward_base (base : x < layer.orgVocabSize) :
    layer.forward (layer.weights loadedWeight embeddingsTensors) x = loadedWeight x := by
  by_cases many : 1 < layer.tpSize
  · have known := Nat.lt_of_lt_of_le base layer.contains
    obtain ⟨owner, -, shards⟩ := exists_owner known
    have own := shards owner _ rfl
    rw [if_pos rfl, if_pos base] at own
    rw [forward_unmasked known many ((masked_eq rfl).trans (if_pos own)), weights_base rfl, Nat.add_sub_cancel' own.1]
    unfold ShardIndices.numOrgElements
    omega
  · obtain ⟨start, rows, -⟩ := shard_alone many rfl
    unfold forward
    rw [if_neg many, Int.toNat_natCast, weights_base rfl (by rw [rows]; exact base), start, Nat.zero_add]

theorem forward_base_padded :
    paddedBase.forward (paddedBase.weights (fun token => token + 10) fun row => row + 100) (2 : ℕ) = 12 :=
  forward_base (by decide)

/-- What an added token is given: the row of the adapters that comes by the padding after its own. -/
theorem forward_added (shard : layer.getIndices r = s) (many : 1 < layer.tpSize)
    (inside : s.addedVocabStartIndex ≤ x ∧ x < s.addedVocabEndIndex) :
    layer.forward (layer.weights loadedWeight embeddingsTensors) x =
      if x - s.addedVocabStartIndex + s.numOrgVocabPadding < s.numAddedElements then
        embeddingsTensors (x - layer.orgVocabSize + s.numOrgVocabPadding) else 0 := by
  obtain ⟨ordered, low, apart, high, -⟩ := shard_ordered shard
  have looked := @masked_eq layer r x s shard
  rw [if_neg (by omega), if_pos inside, ← shard] at looked
  rw [forward_unmasked (by omega) many looked, shard, weights_added shard]
  congr 2
  omega

/-- Every token of the vocabulary is given its own embedding, for all weights and adapters, exactly if there is one
rank, or no rank that has added tokens has padding after its base tokens. -/
theorem forward_faithful_iff [Nontrivial M] : (∀ loadedWeight embeddingsTensors : ℕ → M, ∀ x < layer.numEmbeddings,
      layer.forward (layer.weights loadedWeight embeddingsTensors) x =
        if x < layer.orgVocabSize then loadedWeight x else embeddingsTensors (x - layer.orgVocabSize)) ↔
    layer.tpSize = 1 ∨ ∀ tpRank < layer.tpSize,
      (layer.getIndices tpRank).numAddedElements = 0 ∨ (layer.getIndices tpRank).numOrgVocabPadding = 0 := by
  constructor
  · intro faithful
    by_cases many : 1 < layer.tpSize
    · refine Or.inr fun r rank => or_iff_not_imp_left.mpr fun some => ?_
      generalize shard : layer.getIndices r = s at some ⊢
      obtain ⟨-, -, past, high, -⟩ := shard_ordered shard
      have first : s.addedVocabStartIndex ≤ s.addedVocabStartIndex ∧ s.addedVocabStartIndex < s.addedVocabEndIndex := by
        unfold ShardIndices.numAddedElements at some
        omega
      -- adapters that have an embedding for the first added token of the shard only
      obtain ⟨a, nonzero⟩ := exists_ne (0 : M)
      have own := faithful (fun _ => 0)
        (fun row => if row = s.addedVocabStartIndex - layer.orgVocabSize then a else 0) s.addedVocabStartIndex (by omega)
      rw [forward_added shard many first, if_neg (Nat.not_lt_of_le past), if_pos rfl] at own
      by_contra padded
      rw [ite_eq_right_iff.mpr fun _ => if_neg (by omega)] at own
      exact nonzero own.symm
    · exact Or.inl (Nat.le_antisymm (Nat.le_of_not_lt many) layer.ranks)
  · intro fits loadedWeight embeddingsTensors x known
    split
    · rename_i base
      exact forward_base base
    · rename_i base
      by_cases many : 1 < layer.tpSize
      · obtain ⟨owner, rank, shards⟩ := exists_owner known
        have own := shards owner _ rfl
        rw [if_pos rfl, if_neg base] at own
        have some : x - (layer.getIndices owner).addedVocabStartIndex < (layer.getIndices owner).numAddedElements := by
          unfold ShardIndices.numAddedElements
          omega
        have none := ((fits.resolve_left (by omega)) owner rank).resolve_left (by omega)
        rw [forward_added rfl many own, none, Nat.add_zero, Nat.add_zero, if_pos some]
      · obtain ⟨-, rows, start, more⟩ := shard_alone many rfl
        obtain ⟨row, rfl⟩ := Nat.exists_eq_add_of_le (Nat.le_of_not_lt base)
        unfold forward
        rw [if_neg many, Int.toNat_natCast, ← rows, weights_added rfl, if_pos (by omega), start, rows, Nat.sub_self,
          Nat.zero_add, Nat.add_sub_cancel_left]

theorem forward_faithful_iff_padded :
    ¬∀ loadedWeight embeddingsTensors : ℕ → ℕ, ∀ x < paddedBase.numEmbeddings,
      paddedBase.forward (paddedBase.weights loadedWeight embeddingsTensors) x =
        if x < paddedBase.orgVocabSize then loadedWeight x else embeddingsTensors (x - paddedBase.orgVocabSize) := by
  rw [forward_faithful_iff]
  decide

/-! ### Gathered logits -/

variable (layer) in
/-- The `gathered`-th of the rows of all ranks is the one that is looked up for `x`. -/
def LookedUp (x gathered : ℕ) : Prop :=
  getMaskedInputAndMask x (layer.getIndices (gathered / layer.numEmbeddingsPerPartition)) =
    (((gathered % layer.numEmbeddingsPerPartition : ℕ) : ℤ), false)

theorem lookedUp_shard (shard : layer.getIndices r = s) :
    List.Forall₂ layer.LookedUp (List.range' s.orgVocabStartIndex s.numOrgElements)
      (List.range' (layer.numEmbeddingsPerPartition * r) s.numOrgElements) ∧
    List.Forall₂ layer.LookedUp (List.range' s.addedVocabStartIndex s.numAddedElements)
      (List.range' (layer.numEmbeddingsPerPartition * r + s.numOrgElementsPadded) s.numAddedElements) := by
  obtain ⟨org, added, -, -, -, rows, shards⟩ := layer.exists_parts
  have ordered := shard_ordered shard
  have fits : s.numOrgElements ≤ s.numOrgElementsPadded ∧ s.numOrgElementsPadded + s.numAddedElements ≤ org + added := by
    obtain rfl := shards r s shard
    dsimp only [ShardIndices.numOrgElements, ShardIndices.numOrgElementsPadded, ShardIndices.numAddedElements]
    omega
  have at_ : ∀ {x row : ℕ}, row < org + added → getMaskedInputAndMask x s = ((row : ℤ), false) →
      layer.LookedUp x (layer.numEmbeddingsPerPartition * r + row) := by
    intro x row less looked
    unfold LookedUp
    rw [rows, Nat.mul_add_div (by omega), Nat.mul_add_mod, Nat.div_eq_of_lt less, Nat.mod_eq_of_lt less, Nat.add_zero,
      shard]
    exact looked
  constructor
  · refine forall₂_range' fun i less => at_ (by omega) ?_
    unfold ShardIndices.numOrgElements at less
    rw [masked_eq shard, if_pos (by omega), Nat.add_sub_cancel_left]
  · refine forall₂_range' fun i less => ?_
    rw [Nat.add_assoc]
    refine at_ (by omega) ?_
    unfold ShardIndices.numAddedElements at less
    rw [masked_eq shard, if_neg (by omega), if_pos (by omega)]
    congr 2
    omega

variable (layer) in
theorem range_eq_shards : List.range layer.numEmbeddings =
    (List.range layer.tpSize).flatMap (fun r =>
      List.range' (layer.getIndices r).orgVocabStartIndex (layer.getIndices r).numOrgElements) ++
    (List.range layer.tpSize).flatMap (fun r =>
      List.range' (layer.getIndices r).addedVocabStartIndex (layer.getIndices r).numAddedElements) := by
  obtain ⟨org, added, -, orgFits, addedFits, -, shards⟩ := layer.exists_parts
  have contains := layer.contains
  have base := @flatMap_windows (fun r => min (r * org) layer.orgVocabSize)
    (fun le => min_le_min_right _ (Nat.mul_le_mul_right _ le)) layer.tpSize
  have more := @flatMap_windows (fun r => min (r * added + layer.orgVocabSize) layer.numEmbeddings)
    (fun le => min_le_min_right _ (Nat.add_le_add_right (Nat.mul_le_mul_right _ le) _)) layer.tpSize
  have joined := @List.range'_append_1 0 layer.orgVocabSize (layer.numEmbeddings - layer.orgVocabSize)
  simp only [Nat.zero_mul, Nat.zero_add, Nat.zero_min, min_eq_right orgFits, min_eq_left contains, Nat.sub_zero,
    Nat.add_comm (layer.tpSize * added), min_eq_right addedFits, Nat.succ_mul] at base more
  rw [Nat.zero_add, Nat.add_sub_cancel' contains, ← base, ← more, ← List.range_eq_range'] at joined
  simp only [ShardIndices.numOrgElements, ShardIndices.numAddedElements, fun r => shards r _ rfl]
  exact joined.symm

/-- Four windows that follow one another, in the order base, added, padding. -/
theorem windows_perm (t a p b q : ℕ) : (List.range' t a ++ List.range' (t + (a + p)) b ++
    (List.range' (t + a) p ++ List.range' (t + (a + p) + b) q)).Perm (List.range' t (a + p + (b + q))) := by
  rw [List.append_assoc, ← List.range'_append_1 (s := t) (m := a + p), ← List.range'_append_1 (s := t) (m := a),
    ← List.range'_append_1 (s := t + (a + p)) (m := b), List.append_assoc]
  exact (List.perm_append_comm_assoc _ _ _).append_left _

/-- The rows of all ranks, one rank after another, are taken in the order of the tokens they are looked up for;
then come the rows of the padding. -/
theorem getShardedToFullMapping_ordered (many : 1 < layer.tpSize) : ∃ mapping,
    layer.getShardedToFullMapping = some mapping ∧ mapping.Perm (List.range layer.numEmbeddingsPadded) ∧
    List.Forall₂ layer.LookedUp (List.range layer.numEmbeddings) (mapping.take layer.numEmbeddings) := by
  unfold getShardedToFullMapping
  rw [if_neg (by omega)]
  refine ⟨_, rfl, ?_, ?_⟩
  · obtain ⟨org, added, whole, -, -, rows, shards⟩ := layer.exists_parts
    have windows := @flatMap_windows (fun r => (org + added) * r) (fun le => Nat.mul_le_mul_left _ le) layer.tpSize
    simp only [Nat.mul_zero, Nat.sub_zero] at windows
    rw [← List.range_eq_range'] at windows
    rw [whole, Nat.mul_comm layer.tpSize, ← windows, rows]
    refine (((List.flatMap_append_perm _ _ _).append_right _).trans (List.flatMap_append_perm _ _ _)).trans ?_
    -- rank by rank, the four windows make up all rows
    refine List.Perm.flatMap_left _ fun r _ => ?_
    generalize shard : layer.getIndices r = s
    have sizes : s.numOrgElements ≤ s.numOrgElementsPadded ∧ s.numAddedElements ≤ s.numAddedElementsPadded ∧
        s.numOrgElementsPadded + s.numAddedElementsPadded = org + added := by
      obtain rfl := shards r s shard
      dsimp only [ShardIndices.numOrgElements, ShardIndices.numOrgElementsPadded, ShardIndices.numAddedElements,
        ShardIndices.numAddedElementsPadded]
      omega
    obtain ⟨base, fits, all⟩ := sizes
    obtain ⟨p, base⟩ := Nat.exists_eq_add_of_le base
    obtain ⟨q, fits⟩ := Nat.exists_eq_add_of_le fits
    have perm := windows_perm ((org + added) * r) s.numOrgElements p s.numAddedElements q
    rw [← base, ← fits, all] at perm
    dsimp only
    rw [Nat.mul_succ, Nat.add_sub_cancel_left, Nat.sub_eq_of_eq_add' base, Nat.sub_eq_of_eq_add' fits]
    exact perm
  · have ordered := List.rel_append (forall₂_flatMap (fun r => (@lookedUp_shard layer r _ rfl).1) (List.range layer.tpSize))
      (forall₂_flatMap (fun r => (@lookedUp_shard layer r _ rfl).2) (List.range layer.tpSize))
    dsimp only at ordered
    rw [← range_eq_shards] at ordered
    rw [List.take_left' (by rw [← ordered.length_eq, List.length_range])]
    exact ordered

theorem getShardedToFullMapping_ordered_padded : ∃ mapping,
    paddedBase.getShardedToFullMapping = some mapping ∧ mapping.Perm (List.range paddedBase.numEmbeddingsPadded) ∧
    List.Forall₂ paddedBase.LookedUp (List.range paddedBase.numEmbeddings) (mapping.take paddedBase.numEmbeddings) :=
  getShardedToFullMapping_ordered (by decide)

end VocabParallelEmbedding
end Vllm.Distributed
