import VllmProofs.SpecDecode.ProposalRows
import VllmProofs.SpecDecode.BatchExpansion

/-!
`_verify_tokens` as it moves rows: the batch is split for the sampler, its results and the tokens of the other
sequences are put one after another, and brought back to the order of the batch.
-/

namespace Vllm.SpecDecode.Top1
open IndexedRows

structure SamplerRow where
  targetWithBonusProbs : List (List ℚ)
  bonusTokenId : TokenId
  draftProbs : List (List ℚ)
  draftTokenIds : List TokenId

/-- A sampler of accepted tokens: what it returns for the row at a place of its batch. The samplers take the rows one
by one; random numbers belong to a place. -/
structure SpecDecodeSampler where
  accept : ℕ → SamplerRow → List TokenId
  width : ∀ place row, (accept place row).length = row.draftTokenIds.length + 1

def SpecDecodeSampler.forward (sampler : SpecDecodeSampler) (rows : List SamplerRow) : List (List TokenId) :=
  rows.zipIdx.map fun (row, place) => sampler.accept place row

structure SpeculativeScores where
  probs : List (List (List ℚ))
  tokenIds : List (List TokenId)

def expandRow (width : ℕ) (row : List TokenId) : Option (List TokenId) :=
  if row.length = width then some row
  else
    match row with
    | [x] => some (List.replicate width x)
    | _ => none

def keepFirst : List TokenId → List TokenId
  | [] => []
  | x :: rest => x :: rest.map fun _ => -1

def cat (width : ℕ) (xs ys : List (List TokenId)) : Option (List (List TokenId)) :=
  if (xs ++ ys).all (·.length = width) then some (xs ++ ys) else none

def verifyTokens (sampler : SpecDecodeSampler) (groups : List SequenceGroupMetadata) (scores : SpeculativeScores)
    (proposals : SpeculativeProposals) (maxProposalLen : ℕ) : Option (List (List TokenId)) := do
  let ((_, specIndices), (_, nonSpecIndices)) := splitBatchByProposalLen groups proposals.proposalLens
  let originalIndices := specIndices ++ nonSpecIndices
  let proposalVerifierProbs ← gather scores.probs specIndices
  let nonSpecTokenIds ← gather scores.tokenIds nonSpecIndices
  let specTokenIds ← gather scores.tokenIds specIndices
  let bonusTokenIds := specTokenIds.map (·.getLastD (-1))
  let proposalProbs ← gather proposals.proposalProbs specIndices
  let proposalTokenIds ← gather proposals.proposalTokenIds specIndices
  let rows := (proposalVerifierProbs.zip (bonusTokenIds.zip (proposalProbs.zip proposalTokenIds))).map
    fun (targetWithBonusProbs, bonusTokenId, draftProbs, draftTokenIds) =>
      { targetWithBonusProbs, bonusTokenId, draftProbs, draftTokenIds : SamplerRow }
  let acceptedTokenIds := sampler.forward rows
  let nonSpecTokenIds ← nonSpecTokenIds.mapM (expandRow (maxProposalLen + 1))
  let acceptedTokenIds ← cat (maxProposalLen + 1) acceptedTokenIds (nonSpecTokenIds.map keepFirst)
  assign acceptedTokenIds originalIndices acceptedTokenIds

/-! ### The rejection sampler -/

def samplerRow (row : VerifyRow) : SamplerRow where
  targetWithBonusProbs := row.probs
  bonusTokenId := row.tokenIds.getLastD (-1)
  draftProbs := row.proposalProbs
  draftTokenIds := row.proposalTokenIds.map Int.ofNat

def SamplerRow.verifyRow (row : SamplerRow) : VerifyRow where
  requestId := 0
  seed := none
  proposalLen := row.draftTokenIds.length
  probs := row.targetWithBonusProbs
  tokenIds := [row.bonusTokenId]
  proposalProbs := row.draftProbs
  proposalTokenIds := row.draftTokenIds.map Int.toNat

/-- `RejectionSampler`, with the uniform and the exponential samples of each row. -/
def rejectionSampler (vocab : ℕ) (uniform exponential : ℕ → List ℚ) : SpecDecodeSampler where
  accept place row :=
    row.verifyRow.sampled row.draftTokenIds.length vocab (uniform place) (exponential place)
  width place row := by
    simp [VerifyRow.sampled, VerifyRow.recovered, createOutput]

/-! ### The rows of the result -/

variable {groups : List SequenceGroupMetadata} {scores : SpeculativeScores} {proposals : SpeculativeProposals}
  {n k : ℕ}

/-- Scores for each of the `n` sequences: `k + 1` tokens, and what they were sampled from. -/
structure SpeculativeScores.Shaped (scores : SpeculativeScores) (n k : ℕ) : Prop where
  probs : scores.probs.length = n
  tokenIds : scores.tokenIds.length = n
  width : ∀ row ∈ scores.tokenIds, row.length = k + 1

/-- Proposals for each of the `n` sequences. -/
structure SpeculativeProposals.Shaped (proposals : SpeculativeProposals) (n k : ℕ) : Prop where
  lens : proposals.proposalLens.length = n
  tokenIds : proposals.proposalTokenIds.length = n
  probs : proposals.proposalProbs.length = n
  width : ∀ row ∈ proposals.proposalTokenIds, row.length = k

/-- The sampler's arguments for row `i`, from its own scores and drafts. -/
def samplerRowAt (scores : SpeculativeScores) (proposals : SpeculativeProposals) (i : ℕ) : SamplerRow where
  targetWithBonusProbs := scores.probs.getD i []
  bonusTokenId := (scores.tokenIds.getD i []).getLastD (-1)
  draftProbs := proposals.proposalProbs.getD i []
  draftTokenIds := proposals.proposalTokenIds.getD i []

def acceptedRow (sampler : SpecDecodeSampler) (scores : SpeculativeScores) (proposals : SpeculativeProposals)
    (k i : ℕ) : List TokenId :=
  if proposals.proposalLens.getD i 0 ≠ 0 then
    sampler.accept ((proposedRows proposals.proposalLens).idxOf i) (samplerRowAt scores proposals i)
  else (scores.tokenIds.getD i []).headD (-1) :: List.replicate k (-1)

theorem gather_getD {α : Type} {rows : List α} (indices : List ℕ) (fill : α)
    (inside : ∀ i ∈ indices, i < rows.length) :
    gather rows indices = some (indices.map fun i => rows.getD i fill) :=
  gather_map fun i member => by rw [List.getD_eq_getElem _ _ (inside i member), List.getElem?_eq_getElem]

theorem keepFirst_eq {row : List TokenId} (width : row.length = k + 1) :
    keepFirst row = row.headD (-1) :: List.replicate k (-1) := by
  obtain ⟨first, rest, rfl⟩ := List.exists_cons_of_length_eq_add_one width
  have size : rest.length = k := by simpa using width
  simp [keepFirst, List.map_const', size]

theorem mapM_expandRow {rows : List (List TokenId)} (width : ∀ row ∈ rows, row.length = k) :
    rows.mapM (expandRow k) = some rows := by
  induction rows with
  | nil => rfl
  | cons row rows ih =>
    have here : expandRow k row = some row := if_pos (width row List.mem_cons_self)
    rw [List.mapM_cons, here, ih fun other member => width other (List.mem_cons_of_mem _ member)]
    rfl

theorem forward_samplerRows (sampler : SpecDecodeSampler) {indices : List ℕ} (distinct : indices.Nodup)
    (rowOf : ℕ → SamplerRow) :
    sampler.forward (indices.map rowOf) = indices.map fun i => sampler.accept (indices.idxOf i) (rowOf i) := by
  unfold SpecDecodeSampler.forward
  rw [List.zipIdx_map, zipIdx_eq_idxOf distinct, List.map_map, List.map_map]
  rfl

theorem verifyTokens_rows (sampler : SpecDecodeSampler) (scored : scores.Shaped groups.length k)
    (proposed : proposals.Shaped groups.length k) :
    verifyTokens sampler groups scores proposals k =
      some ((List.range groups.length).map (acceptedRow sampler scores proposals k)) := by
  have specInside : ∀ i ∈ proposedRows proposals.proposalLens, i < groups.length := fun i member =>
    proposed.lens ▸ (mem_proposedRows.mp member).1
  have nonSpecInside : ∀ i ∈ unproposedRows proposals.proposalLens, i < groups.length := fun i member =>
    proposed.lens ▸ (mem_unproposedRows.mp member).1
  have rowWidth : ∀ i < groups.length, (scores.tokenIds.getD i []).length = k + 1 := by
    intro i inside
    rw [List.getD_eq_getElem _ _ (scored.tokenIds ▸ inside)]
    exact scored.width _ (List.getElem_mem _)
  -- what the sampler and the other sequences give, by the row it belongs to
  have spec : ∀ i ∈ proposedRows proposals.proposalLens,
      sampler.accept ((proposedRows proposals.proposalLens).idxOf i) (samplerRowAt scores proposals i) =
        acceptedRow sampler scores proposals k i := fun i member => (if_pos (mem_proposedRows.mp member).2).symm
  have nonSpec : ∀ i ∈ unproposedRows proposals.proposalLens,
      keepFirst (scores.tokenIds.getD i []) = acceptedRow sampler scores proposals k i := by
    intro i member
    rw [keepFirst_eq (rowWidth i (nonSpecInside i member))]
    exact (if_neg (not_not.mpr (mem_unproposedRows.mp member).2)).symm
  have specMap := List.map_congr_left spec
  have nonSpecMap := List.map_congr_left nonSpec
  have zipped : ((proposedRows proposals.proposalLens).map (scores.probs.getD · [])).zip
      ((((proposedRows proposals.proposalLens).map (scores.tokenIds.getD · [])).map (·.getLastD (-1))).zip
        (((proposedRows proposals.proposalLens).map (proposals.proposalProbs.getD · [])).zip
          ((proposedRows proposals.proposalLens).map (proposals.proposalTokenIds.getD · [])))) =
      (proposedRows proposals.proposalLens).map fun i => (scores.probs.getD i [],
        (scores.tokenIds.getD i []).getLastD (-1), proposals.proposalProbs.getD i [],
        proposals.proposalTokenIds.getD i []) := by
    rw [List.map_map, List.zip_map', List.zip_map', List.zip_map']
    rfl
  -- every row of the batch is in one of the two lists
  have every : ∀ i < groups.length,
      i ∈ proposedRows proposals.proposalLens ++ unproposedRows proposals.proposalLens := by
    intro i inside
    rw [← proposed.lens] at inside
    by_cases none : proposals.proposalLens.getD i 0 = 0
    · exact List.mem_append_right _ (mem_unproposedRows.mpr ⟨inside, none⟩)
    · exact List.mem_append_left _ (mem_proposedRows.mpr ⟨inside, none⟩)
  have distinct : (proposedRows proposals.proposalLens ++ unproposedRows proposals.proposalLens).Nodup := by
    refine List.nodup_append.mpr ⟨nodup_proposedRows _, nodup_unproposedRows _, fun i own j other same => ?_⟩
    subst same
    exact (mem_proposedRows.mp own).2 (mem_unproposedRows.mp other).2
  have size : (proposedRows proposals.proposalLens ++ unproposedRows proposals.proposalLens).length =
      groups.length := by
    rw [List.length_append, length_rows, proposed.lens]
  have inside : ∀ i ∈ proposedRows proposals.proposalLens ++ unproposedRows proposals.proposalLens,
      i < groups.length := fun i member => (List.mem_append.mp member).elim (specInside i) (nonSpecInside i)
  have widths : ((proposedRows proposals.proposalLens ++ unproposedRows proposals.proposalLens).map
      (acceptedRow sampler scores proposals k)).all (·.length = k + 1) = true := by
    rw [List.all_eq_true]
    rintro _ member
    obtain ⟨i, own, rfl⟩ := List.mem_map.mp member
    rw [decide_eq_true_eq, acceptedRow]
    split
    · have there : i < proposals.proposalTokenIds.length := (inside i own).trans_eq proposed.tokenIds.symm
      rw [sampler.width, samplerRowAt, List.getD_eq_getElem _ _ there, proposed.width _ (List.getElem_mem _)]
    · simp
  have verifierProbs := @gather_getD _ scores.probs _ [] fun i member =>
    (specInside i member).trans_eq scored.probs.symm
  have nonSpecTokens := @gather_getD _ scores.tokenIds _ [] fun i member =>
    (nonSpecInside i member).trans_eq scored.tokenIds.symm
  have specTokens := @gather_getD _ scores.tokenIds _ [] fun i member =>
    (specInside i member).trans_eq scored.tokenIds.symm
  have draftProbs := @gather_getD _ proposals.proposalProbs _ [] fun i member =>
    (specInside i member).trans_eq proposed.probs.symm
  have draftTokens := @gather_getD _ proposals.proposalTokenIds _ [] fun i member =>
    (specInside i member).trans_eq proposed.tokenIds.symm
  have expanded : ((unproposedRows proposals.proposalLens).map (scores.tokenIds.getD · [])).mapM (expandRow (k + 1)) =
      some ((unproposedRows proposals.proposalLens).map (scores.tokenIds.getD · [])) := by
    refine mapM_expandRow ?_
    rintro _ member
    obtain ⟨i, own, rfl⟩ := List.mem_map.mp member
    exact rowWidth i (nonSpecInside i own)
  have rows : ((proposedRows proposals.proposalLens).map fun i => (scores.probs.getD i [],
      (scores.tokenIds.getD i []).getLastD (-1), proposals.proposalProbs.getD i [],
      proposals.proposalTokenIds.getD i [])).map (fun
        | (targetWithBonusProbs, bonusTokenId, draftProbs, draftTokenIds) =>
          { targetWithBonusProbs, bonusTokenId, draftProbs, draftTokenIds : SamplerRow }) =
      (proposedRows proposals.proposalLens).map (samplerRowAt scores proposals) := by
    rw [List.map_map]
    rfl
  have moved : assign ((proposedRows proposals.proposalLens ++ unproposedRows proposals.proposalLens).map
      (acceptedRow sampler scores proposals k)) (proposedRows proposals.proposalLens ++
        unproposedRows proposals.proposalLens) ((proposedRows proposals.proposalLens ++
          unproposedRows proposals.proposalLens).map (acceptedRow sampler scores proposals k)) =
      some ((List.range groups.length).map (acceptedRow sampler scores proposals k)) := by
    rw [assign_map _ (by rw [List.length_map, size]; exact inside) distinct]
    congr 1
    apply List.ext_getElem
    · simp only [List.length_mapIdx, List.length_map, size, List.length_range]
    · intro i left right
      have short : i < groups.length := by simpa using right
      rw [List.getElem_mapIdx, if_pos (every i short), List.getElem_map, List.getElem_range]
  unfold verifyTokens
  rw [splitBatchByProposalLen_eq proposed.lens.symm]
  simp only [verifierProbs, nonSpecTokens, specTokens, draftProbs, draftTokens, Option.bind_eq_bind,
    Option.bind_some, zipped, rows, expanded]
  rw [forward_samplerRows sampler (nodup_proposedRows _), specMap, List.map_map]
  change (cat (k + 1) ((proposedRows proposals.proposalLens).map (acceptedRow sampler scores proposals k))
    ((unproposedRows proposals.proposalLens).map fun i => keepFirst (scores.tokenIds.getD i []))).bind _ = _
  rw [nonSpecMap, cat, ← List.map_append, if_pos widths]
  exact moved

/-! ### From the proposals to the accepted tokens -/

/-- The result for row `i`, from the proposal for its sequence. -/
def resultRow (sampler : SpecDecodeSampler) (scores : SpeculativeScores) (proposalLens : List ℕ) (k i : ℕ) :
    Option Proposal → List TokenId
  | some proposal =>
    sampler.accept ((proposedRows proposalLens).idxOf i)
      { targetWithBonusProbs := scores.probs.getD i []
        bonusTokenId := (scores.tokenIds.getD i []).getLastD (-1)
        draftProbs := proposal.probs
        draftTokenIds := proposal.tokenIds }
  | none => (scores.tokenIds.getD i []).headD (-1) :: List.replicate k (-1)

variable {p : ℕ → Option Proposal}

theorem SpeculativeProposals.Rows.shaped {vocabSize : ℕ}
    (rows : proposals.Rows n k vocabSize p) : proposals.Shaped n k where
  lens := by rw [rows.lens, List.length_map, List.length_range]
  tokenIds := by rw [rows.tokenIds, List.length_map, List.length_range]
  probs := by rw [rows.probs, List.length_map, List.length_range]
  width row member := by
    rw [rows.tokenIds] at member
    obtain ⟨i, -, rfl⟩ := List.mem_map.mp member
    cases found : p i with
    | none => simp
    | some proposal => exact (rows.width i proposal found).1

theorem SpeculativeProposals.Rows.acceptedRow {vocabSize i : ℕ}
    (rows : proposals.Rows n k vocabSize p) (positive : 0 < k) (sampler : SpecDecodeSampler) (inside : i < n) :
    acceptedRow sampler scores proposals k i = resultRow sampler scores proposals.proposalLens k i (p i) := by
  have len : proposals.proposalLens.getD i 0 = if (p i).isSome then k else 0 := by
    rw [rows.lens, List.getD_eq_getElem _ _ (by simpa using inside)]
    simp
  have tokenIds : ∀ proposal, p i = some proposal → proposals.proposalTokenIds.getD i [] = proposal.tokenIds := by
    intro proposal found
    rw [rows.tokenIds, List.getD_eq_getElem _ _ (by simpa using inside)]
    simp [found]
  have probs : ∀ proposal, p i = some proposal → proposals.proposalProbs.getD i [] = proposal.probs := by
    intro proposal found
    rw [rows.probs, List.getD_eq_getElem _ _ (by simpa using inside)]
    simp [found]
  unfold Top1.acceptedRow
  cases found : p i with
  | none =>
    have skipped : proposals.proposalLens.getD i 0 = 0 := by
      rw [len, found]
      rfl
    rw [if_neg (not_not.mpr skipped)]
    rfl
  | some proposal =>
    have proposes : proposals.proposalLens.getD i 0 ≠ 0 := by
      rw [len, found]
      exact positive.ne'
    rw [if_pos proposes, samplerRowAt, tokenIds proposal found, probs proposal found]
    rfl

/-- Row by row, the proposals are those for the row's sequence, and what is accepted comes from its own proposal and
its own scores, exactly if the hidden states have a row for every sequence that speculates. -/
theorem getSpecProposals_verifyTokens_iff {maxProposalLen : Option ℕ} {previous : Option HiddenStates}
    {samplerOutput : List SequenceGroupMetadata → Option HiddenStates → ℕ → WorkerOutput} (vocabSize : ℕ)
    (positive : 0 < k) (sized : ∀ hs ∈ previous, hs.Shaped)
    (shaped : ∀ seqs hs, seqs ≠ [] → (samplerOutput seqs hs k).WellShaped seqs.length k) :
    (∃ proposals, getSpecProposals maxProposalLen vocabSize samplerOutput groups previous k = .ok proposals ∧
      proposals.Rows groups.length k vocabSize
        (proposalOf maxProposalLen (fun seqs => samplerOutput seqs (handedOn previous seqs)) groups k) ∧
      ∀ (sampler : SpecDecodeSampler) (scores : SpeculativeScores), scores.Shaped groups.length k →
        verifyTokens sampler groups scores proposals k = some ((List.range groups.length).map fun i =>
          resultRow sampler scores proposals.proposalLens k i
            (proposalOf maxProposalLen (fun seqs => samplerOutput seqs (handedOn previous seqs)) groups k i))) ↔
      Covered maxProposalLen k groups previous := by
  constructor
  · rintro ⟨proposals, returned, -⟩
    by_contra missing
    exact getSpecProposals_uncovered missing proposals returned
  · intro covered
    obtain ⟨proposals, returned, rows⟩ := @getSpecProposals_proposalOf maxProposalLen _ groups
      (fun seqs => samplerOutput seqs (handedOn previous (askedGroups maxProposalLen k groups))) vocabSize positive
      fun seqs given => shaped seqs _ given
    rw [← getSpecProposals_of_pruned (prune_covered sized covered)] at returned
    refine ⟨proposals, returned, rows, fun sampler scores scored => ?_⟩
    rw [verifyTokens_rows sampler scored rows.shaped]
    congr 1
    exact List.map_congr_left fun i member => rows.acceptedRow positive sampler (List.mem_range.mp member)

/-- A draft worker that proposes the token 7 for every second sequence it is given. -/
def everySecond (seqs : List SequenceGroupMetadata) (_ : Option HiddenStates) (k : ℕ) : WorkerOutput :=
  (some (seqs.zipIdx.map fun entry =>
    if entry.2 % 2 = 0 then some ⟨List.replicate k 7, List.replicate k [0, 1]⟩ else none), false)

theorem everySecond_wellShaped (k : ℕ) (seqs : List SequenceGroupMetadata) (hs : Option HiddenStates)
    (given : seqs ≠ []) : (everySecond seqs hs k).WellShaped seqs.length k := by
  obtain ⟨first, rest, rfl⟩ := List.exists_cons_of_ne_nil given
  refine ⟨by simp, ⟨⟨List.replicate k 7, List.replicate k [0, 1]⟩, by simp [List.zipIdx_cons]⟩, fun o member => ?_⟩
  obtain ⟨entry, -, made⟩ := List.mem_map.mp member
  split at made
  · cases made
    simp
  · cases made

/-- A prompt between three decodes. -/
def mixedRequests : List SequenceGroupMetadata :=
  let decode (seqId : SeqId) : SequenceGroupMetadata :=
    { requestId := seqId, seqId, isPrompt := false, doSample := true, tokenIds := [1, 2], numComputedTokens := 1
      tokenChunkSize := 1 }
  [decode 0, { decode 1 with isPrompt := true }, decode 2, decode 3]

/-- What the target made of its last batch, with the sequences `seqIds`. -/
def lastStates (seqIds : List SeqId) : HiddenStates where
  hiddenStates := seqIds.map (.state · 0 0)
  secondLastTokenHiddenStates := some (seqIds.map (.state · 0 1))
  seqIds

/-- Sequence 3 sat out the last step. -/
theorem getSpecProposals_resumed :
    getSpecProposals (some 9) 2 everySecond mixedRequests (some (lastStates [0, 2])) 2 =
      .error (.valueError "is not in list") := by decide +kernel

theorem getSpecProposals_verifyTokens_iff_mixed : ∃ proposals,
      getSpecProposals (some 9) 2 everySecond mixedRequests (some (lastStates [3, 5, 2, 0])) 2 = .ok proposals ∧
      proposals.Rows mixedRequests.length 2 2 (proposalOf (some 9)
        (fun seqs => everySecond seqs (handedOn (some (lastStates [3, 5, 2, 0])) seqs)) mixedRequests 2) ∧
      ∀ (sampler : SpecDecodeSampler) (scores : SpeculativeScores), scores.Shaped mixedRequests.length 2 →
        verifyTokens sampler mixedRequests scores proposals 2 = some ((List.range mixedRequests.length).map fun i =>
          resultRow sampler scores proposals.proposalLens 2 i (proposalOf (some 9)
            (fun seqs => everySecond seqs (handedOn (some (lastStates [3, 5, 2, 0])) seqs)) mixedRequests 2 i)) :=
  (getSpecProposals_verifyTokens_iff 2 (by decide)
    (by rintro _ ⟨⟩; exact ⟨rfl, by rintro _ ⟨⟩; rfl⟩) (everySecond_wellShaped 2)).mpr (by
      rintro _ ⟨⟩
      decide)

end Vllm.SpecDecode.Top1
