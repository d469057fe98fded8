import VllmProofs.Data.FlatArrays
import VllmProofs.Data.IndexedRows
import VllmProofs.SpecDecode.HiddenStates

/-!
Scoring proposals by batch expansion: `BatchExpansionTop1Scorer`. Each proposal of `k` tokens is scored as
`k + 1` sequences of one query token, and the rows of the target's output are put back in the order of the batch.
Tensors are lists of rows, and numbers are taken exactly.
-/

namespace Vllm.SpecDecode

variable {α : Type}

/-- The loop of `split_batch_by_proposal_len`, from row `i` on. -/
def splitFrom : ℕ → List (α × ℕ) → (List α × List ℕ) × (List α × List ℕ)
  | _, [] => (([], []), ([], []))
  | i, (seqGroup, proposalLen) :: rest =>
    let (nonzeroLists, zeroLists) := splitFrom (i + 1) rest
    if proposalLen ≠ 0 then ((seqGroup :: nonzeroLists.1, i :: nonzeroLists.2), zeroLists)
    else (nonzeroLists, (seqGroup :: zeroLists.1, i :: zeroLists.2))

def splitBatchByProposalLen (seqGroups : List α) (proposalLens : List ℕ) :
    (List α × List ℕ) × (List α × List ℕ) :=
  splitFrom 0 (seqGroups.zip proposalLens)

def proposedRows (proposalLens : List ℕ) : List ℕ :=
  (List.range proposalLens.length).filter fun i => proposalLens.getD i 0 ≠ 0

def unproposedRows (proposalLens : List ℕ) : List ℕ :=
  (List.range proposalLens.length).filter fun i => proposalLens.getD i 0 = 0

variable {proposalLens : List ℕ} {i : ℕ}

theorem mem_proposedRows :
    i ∈ proposedRows proposalLens ↔ i < proposalLens.length ∧ proposalLens.getD i 0 ≠ 0 := by
  simp [proposedRows]

theorem mem_unproposedRows :
    i ∈ unproposedRows proposalLens ↔ i < proposalLens.length ∧ proposalLens.getD i 0 = 0 := by
  simp [unproposedRows]

theorem nodup_proposedRows (proposalLens : List ℕ) : (proposedRows proposalLens).Nodup :=
  List.nodup_range.filter _

theorem nodup_unproposedRows (proposalLens : List ℕ) : (unproposedRows proposalLens).Nodup :=
  List.nodup_range.filter _

theorem length_rows (proposalLens : List ℕ) :
    (proposedRows proposalLens).length + (unproposedRows proposalLens).length = proposalLens.length := by
  have both := List.length_eq_length_filter_add (l := List.range proposalLens.length)
    fun i => decide (proposalLens.getD i 0 ≠ 0)
  simpa [proposedRows, unproposedRows] using both.symm

theorem splitFrom_range' (g : ℕ → α) (n : ℕ → ℕ) (i m : ℕ) :
    splitFrom i ((List.range' i m).map fun j => (g j, n j)) =
      ((((List.range' i m).filter fun j => n j ≠ 0).map g, (List.range' i m).filter fun j => n j ≠ 0),
        (((List.range' i m).filter fun j => n j = 0).map g, (List.range' i m).filter fun j => n j = 0)) := by
  induction m generalizing i with
  | zero => rfl
  | succ m ih =>
    rw [List.range'_succ, List.map_cons, splitFrom, ih (i + 1)]
    by_cases none : n i = 0
    · simp [none]
    · simp [none]

theorem splitBatchByProposalLen_eq [Inhabited α] {seqGroups : List α}
    (same : seqGroups.length = proposalLens.length) :
    splitBatchByProposalLen seqGroups proposalLens =
      (((proposedRows proposalLens).map fun i => seqGroups.getD i default, proposedRows proposalLens),
        ((unproposedRows proposalLens).map fun i => seqGroups.getD i default, unproposedRows proposalLens)) := by
  have pairs : seqGroups.zip proposalLens =
      (List.range' 0 proposalLens.length).map fun j => (seqGroups.getD j default, proposalLens.getD j 0) := by
    apply List.ext_getElem
    · simp [same]
    · intro j left right
      have inside : j < proposalLens.length := by simpa using right
      simp [List.getD_eq_getElem?_getD, same, inside]
  unfold splitBatchByProposalLen
  rw [pairs, splitFrom_range', ← List.range_eq_range']
  rfl

end Vllm.SpecDecode

namespace Vllm.SpecDecode.Expansion
open IndexedRows FlatArrays

structure SequenceData where
  promptTokenIds : List TokenId
  outputTokenIds : List TokenId := []
  numComputedTokens : ℤ := 0
  mropePositionDelta : Option ℤ := none
  deriving DecidableEq, Repr, Inhabited

def SequenceData.getLen (s : SequenceData) : ℕ := s.outputTokenIds.length + s.promptTokenIds.length

/-- A group of one sequence: `seq_data` and `block_tables` have `seqId` for their only key. -/
structure SequenceGroupMetadata where
  requestId : RequestId
  isPrompt : Bool
  seqId : SeqId
  seqData : SequenceData
  /-- `sampling_params.prompt_logprobs` -/
  promptLogprobs : Option ℕ := none
  blockTable : List BlockId := []
  doSample : Bool := true
  loraIntId : Option ℕ := none
  tokenChunkSize : ℕ := 1
  deriving DecidableEq, Repr, Inhabited

structure SpeculativeProposals where
  /-- The width of `proposal_token_ids`. -/
  k : ℕ
  proposalTokenIds : List (List TokenId)
  proposalLens : List ℕ
  width : ∀ row ∈ proposalTokenIds, row.length = k := by decide
  oneLenEach : proposalLens.length = proposalTokenIds.length := by decide

structure HiddenRows where
  width : ℕ
  rows : List (List ℚ)

/-- What the target returns: a row for each token it sampled. -/
structure SamplerOutput (P : Type) where
  sampledTokenIds : List TokenId
  sampledTokenProbs : List (List ℚ)
  logprobs : List (List (WithBot ℚ))
  hiddenStates : Option HiddenRows
  /-- The prompt log probabilities of the groups' outputs. -/
  promptLogprobs : List P

structure SpeculativeScores (P : Type) where
  probs : List (List (List ℚ))
  tokenIds : List (List TokenId)
  logprobs : List (List (List (WithBot ℚ)))
  hiddenStates : Option (List (List (List ℚ)))
  promptLogprobs : Option (List P)

def torch {α : Type} : Option α → Except PyError α
  | some x => .ok x
  | none => .error (.runtimeError "")

-- Expanding the batch

/-- `_create_single_target_seq_group_metadata`; the new sequence lacks its last token in the KV cache only. -/
def createSingleTargetSeqGroupMetadata (group : SequenceGroupMetadata) (targetSeqId : SeqId)
    (tokenIds : List TokenId) : SequenceGroupMetadata :=
  let newSeqData : SequenceData :=
    { promptTokenIds := group.seqData.promptTokenIds
      outputTokenIds := group.seqData.outputTokenIds ++ tokenIds }
  { requestId := group.requestId
    isPrompt := group.isPrompt
    seqId := targetSeqId
    seqData := { newSeqData with
      numComputedTokens := newSeqData.getLen - 1
      mropePositionDelta := group.seqData.mropePositionDelta }
    promptLogprobs := group.promptLogprobs
    blockTable := group.blockTable
    loraIntId := none
    tokenChunkSize := 1 }

section
variable {ρ : Type}

/-- The scores of the sequences that speculate, in a tensor of `_contract_batch`; `fill` where there is no score. -/
def contractSpeculative (fill : ρ) (batchSize specBatchSize k : ℕ) (specIndices : List ℕ) (targetRows : List ρ) :
    Option (List (List ρ)) := do
  let targetRows ← reshape specBatchSize (k + 1) targetRows
  let all := List.replicate batchSize (List.replicate (k + 1) fill)
  if specIndices = [] then some all else assign all specIndices targetRows

/-- `scores[non_spec_indices, :1] = outputs[idxs].unsqueeze(1)` -/
def contractNonSpeculative (nonSpecIndices nospecSampledTokenIdxs : List ℕ) (nonSpecRows : List ρ)
    (scores : List (List ρ)) : Option (List (List ρ)) :=
  if nonSpecIndices = [] then some scores
  else do
    let outputs ← gather nonSpecRows nospecSampledTokenIdxs
    assignWith (fun row output => row.set 0 output) scores nonSpecIndices outputs

/-- A tensor of `_contract_batch`: a row for each sequence of the batch. The rows of the target's output for sequences
that do not speculate come first. -/
def contractTensor (fill : ρ) (batchSize specBatchSize k numel numScoringTokens : ℕ)
    (specIndices nonSpecIndices nospecSampledTokenIdxs : List ℕ) (rows : List ρ) : Option (List (List ρ)) := do
  -- `_split_scoring_output`
  let (nonSpecRows, targetRows) ← split (numel - numScoringTokens : ℤ) numScoringTokens rows
  let scores ← contractSpeculative fill batchSize specBatchSize k specIndices targetRows
  contractNonSpeculative nonSpecIndices nospecSampledTokenIdxs nonSpecRows scores

end

variable {P : Type}

def nospecSampledTokenIdxs (groups : List SequenceGroupMetadata) (nonSpecIndices : List ℕ) (hasPromptLog : Bool)
    (numNonSpecRows : ℕ) : List ℕ :=
  if hasPromptLog then
    (cumsum (nonSpecIndices.map fun i =>
      match groups[i]? with
      | some group => if group.isPrompt then group.tokenChunkSize else 1
      | none => 1)).map (· - 1)
  else List.range numNonSpecRows

end Vllm.SpecDecode.Expansion
