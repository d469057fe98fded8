import VllmProofs.SpecDecode.BatchExpansion

/-!
The scores of `BatchExpansionTop1Scorer`, for batches of sequences with and without proposals: every score is the
target's output for the sequence it is returned for. The target's rows are found by the ids of the expanded batch.
-/

namespace Vllm.SpecDecode.Expansion
open IndexedRows

variable {P ρ : Type} {groups targets : List SequenceGroupMetadata} {proposals : SpeculativeProposals} {k i j : ℕ}

/-! ### The expanded batch -/

def SpeculativeProposals.len (proposals : SpeculativeProposals) (i : ℕ) : ℕ := proposals.proposalLens.getD i 0

def SpeculativeProposals.tokens (proposals : SpeculativeProposals) (i : ℕ) : List TokenId :=
  proposals.proposalTokenIds.getD i []

/-- A batch of groups that speculate on `k` tokens or on none, and want no prompt logprobs. -/
structure Proposed (groups : List SequenceGroupMetadata) (proposals : SpeculativeProposals) : Prop where
  nonempty : groups ≠ []
  distinct : (groups.map (·.seqId)).Nodup
  oneProposalEach : proposals.proposalLens.length = groups.length
  noPromptLogprobs : ∀ group ∈ groups, group.promptLogprobs = none
  kinds : ∀ i < groups.length,
    proposals.len i = 0 ∧ proposals.tokens i = List.replicate proposals.k (-1) ∨
      proposals.len i = proposals.k ∧ -1 ∉ proposals.tokens i

def groupAt (groups : List SequenceGroupMetadata) (i : ℕ) : SequenceGroupMetadata := groups.getD i default

def freshSeqId (groups : List SequenceGroupMetadata) : SeqId := (groups.map (·.seqId)).max?.getD 0 + 1

/-- The id of the sequence that scores the prefix of `j` draft tokens of row `i`. -/
def targetSeqId (groups : List SequenceGroupMetadata) (proposals : SpeculativeProposals) (i j : ℕ) : SeqId :=
  freshSeqId groups + (proposedRows proposals.proposalLens).idxOf i * (proposals.k + 1) + j

/-- Row `i`'s sequence continued by its first `j` draft tokens. -/
def targetGroup (groups : List SequenceGroupMetadata) (proposals : SpeculativeProposals) (i j : ℕ) :
    SequenceGroupMetadata :=
  createSingleTargetSeqGroupMetadata (groupAt groups i) (targetSeqId groups proposals i j)
    ((proposals.tokens i).take j)

def expandedBatch (groups : List SequenceGroupMetadata) (proposals : SpeculativeProposals) :
    List SequenceGroupMetadata :=
  (unproposedRows proposals.proposalLens).map (groupAt groups) ++
    (proposedRows proposals.proposalLens).flatMap fun i =>
      (List.range (proposals.k + 1)).map (targetGroup groups proposals i)

theorem Proposed.len_of_mem (proposed : Proposed groups proposals)
    (member : i ∈ proposedRows proposals.proposalLens) :
    i < groups.length ∧ proposals.len i = proposals.k ∧ -1 ∉ proposals.tokens i := by
  obtain ⟨inside, some⟩ := mem_proposedRows.mp member
  rw [proposed.oneProposalEach] at inside
  refine ⟨inside, (proposed.kinds i inside).resolve_left fun none => some none.1⟩

theorem targetSeqIds_eq (groups : List SequenceGroupMetadata) (proposals : SpeculativeProposals) :
    ((proposedRows proposals.proposalLens).flatMap fun i =>
      (List.range (proposals.k + 1)).map (targetSeqId groups proposals i)) =
      List.range' (freshSeqId groups) ((proposedRows proposals.proposalLens).length * (proposals.k + 1)) := by
  have ranks : ((proposedRows proposals.proposalLens).flatMap fun i =>
      (List.range (proposals.k + 1)).map (targetSeqId groups proposals i)) =
        ((proposedRows proposals.proposalLens).map fun i => (proposedRows proposals.proposalLens).idxOf i).flatMap
          fun r => (List.range (proposals.k + 1)).map fun j => freshSeqId groups + r * (proposals.k + 1) + j := by
    rw [List.flatMap_map]
    rfl
  have indices : ((proposedRows proposals.proposalLens).map fun i =>
      (proposedRows proposals.proposalLens).idxOf i) = List.range (proposedRows proposals.proposalLens).length := by
    have zipped := congrArg (List.map Prod.snd) (zipIdx_eq_idxOf (nodup_proposedRows proposals.proposalLens))
    rw [List.map_map, List.zipIdx_map_snd] at zipped
    rw [List.range_eq_range', zipped]
    rfl
  rw [ranks, indices]
  generalize (proposedRows proposals.proposalLens).length = m
  induction m with
  | zero => simp
  | succ m ih =>
    rw [List.range_succ (n := m), List.flatMap_append, ih, List.flatMap_singleton, Nat.succ_mul,
      ← List.range'_append_1]
    congr 1
    rw [List.range'_eq_map_range]

theorem lt_freshSeqId {group : SequenceGroupMetadata} (member : group ∈ groups) :
    group.seqId < freshSeqId groups := by
  unfold freshSeqId
  cases found : (groups.map (·.seqId)).max? with
  | none =>
    rw [List.max?_eq_none_iff, List.map_eq_nil_iff] at found
    rw [found] at member
    cases member
  | some seqId =>
    exact Nat.lt_succ_of_le ((List.max?_eq_some_iff.mp found).2 _ (List.mem_map_of_mem member))

theorem seqIds_expandedBatch (groups : List SequenceGroupMetadata) (proposals : SpeculativeProposals) :
    (expandedBatch groups proposals).map (·.seqId) =
      (unproposedRows proposals.proposalLens).map (fun i => (groupAt groups i).seqId) ++
        List.range' (freshSeqId groups) ((proposedRows proposals.proposalLens).length * (proposals.k + 1)) := by
  unfold expandedBatch
  rw [List.map_append, List.map_map, List.map_flatMap, ← targetSeqIds_eq]
  simp only [List.map_map]
  rfl

theorem Proposed.groupAt_mem (proposed : Proposed groups proposals) (inside : i < proposals.proposalLens.length) :
    groupAt groups i ∈ groups := by
  rw [proposed.oneProposalEach] at inside
  unfold groupAt
  rw [List.getD_eq_getElem _ _ inside]
  exact List.getElem_mem inside

theorem Proposed.nodup_expandedBatch (proposed : Proposed groups proposals) :
    ((expandedBatch groups proposals).map (·.seqId)).Nodup := by
  rw [seqIds_expandedBatch]
  refine List.nodup_append.mpr ⟨?_, List.nodup_range', ?_⟩
  · refine (nodup_unproposedRows _).map_on fun i first j second same => ?_
    have first := (mem_unproposedRows.mp first).1
    have second := (mem_unproposedRows.mp second).1
    rw [proposed.oneProposalEach] at first second
    unfold groupAt at same
    rw [List.getD_eq_getElem _ _ first, List.getD_eq_getElem _ _ second] at same
    refine (@List.Nodup.getElem_inj_iff _ _ proposed.distinct _ (by simpa using first) _ (by simpa using second)).mp ?_
    simpa using same
  · intro seqId old seqId' new same
    obtain ⟨i, member, rfl⟩ := List.mem_map.mp old
    have below := lt_freshSeqId (proposed.groupAt_mem (mem_unproposedRows.mp member).1)
    have above := (List.mem_range'_1.mp new).1
    rw [← same] at above
    exact absurd above (Nat.not_le_of_lt below)

/-! ### Contracting a tensor -/

variable {rows : List ρ}

section
variable {specIndices nonSpecIndices : List ℕ} {n : ℕ} {spec : ℕ → List ρ} {nonSpec : ℕ → ρ}

theorem contractSpeculative_eq (fill : ρ) (width : ∀ i ∈ specIndices, (spec i).length = k + 1)
    (inside : ∀ i ∈ specIndices, i < n) (distinct : specIndices.Nodup) :
    contractSpeculative fill n specIndices.length k specIndices (specIndices.flatMap spec) =
      some ((List.range n).map fun i => if i ∈ specIndices then spec i else List.replicate (k + 1) fill) := by
  have table : (List.replicate n (List.replicate (k + 1) fill)).mapIdx
      (fun i row => if i ∈ specIndices then spec i else row) =
        (List.range n).map fun i => if i ∈ specIndices then spec i else List.replicate (k + 1) fill := by
    apply List.ext_getElem
    · simp
    · intro i left right
      simp
  unfold contractSpeculative
  rw [reshape_flatMap width]
  dsimp only [Option.bind_eq_bind, Option.bind_some]
  split
  · rename_i none
    subst none
    simp
  · rw [assign_map spec (by simpa using inside) distinct, table]

theorem contractNonSpeculative_eq {scores : List (List ρ)} (inside : ∀ i ∈ nonSpecIndices, i < scores.length)
    (distinct : nonSpecIndices.Nodup) :
    contractNonSpeculative nonSpecIndices (List.range nonSpecIndices.length) (nonSpecIndices.map nonSpec) scores =
      some (scores.mapIdx fun i row => if i ∈ nonSpecIndices then row.set 0 (nonSpec i) else row) := by
  have outputs := gather_range (nonSpecIndices.map nonSpec)
  rw [List.length_map] at outputs
  unfold contractNonSpeculative
  split
  · rename_i none
    subst none
    congr 1
    exact List.ext_getElem (by simp) fun i _ _ => by simp
  · rw [outputs]
    exact assignWith_map _ nonSpec inside distinct

theorem contractTensor_eq (fill : ρ) (width : ∀ i ∈ specIndices, (spec i).length = k + 1)
    (specInside : ∀ i ∈ specIndices, i < n) (nonSpecInside : ∀ i ∈ nonSpecIndices, i < n)
    (specDistinct : specIndices.Nodup) (nonSpecDistinct : nonSpecIndices.Nodup)
    (disjoint : ∀ i ∈ nonSpecIndices, i ∉ specIndices)
    (laid : rows = nonSpecIndices.map nonSpec ++ specIndices.flatMap spec) {numel : ℕ} (all : rows.length = numel) :
    contractTensor fill n specIndices.length k numel (specIndices.length * (k + 1)) specIndices nonSpecIndices
        (List.range nonSpecIndices.length) rows =
      some ((List.range n).map fun i =>
        if i ∈ specIndices then spec i
        else if i ∈ nonSpecIndices then nonSpec i :: List.replicate k fill else List.replicate (k + 1) fill) := by
  have cut := split_append (nonSpecIndices.map nonSpec) (specIndices.flatMap spec)
  rw [length_flatMap_const width, ← laid, all] at cut
  unfold contractTensor
  rw [cut]
  dsimp only [Option.bind_eq_bind, Option.bind_some]
  rw [contractSpeculative_eq fill width specInside specDistinct, Option.bind_some,
    contractNonSpeculative_eq (by simpa using nonSpecInside) nonSpecDistinct]
  congr 1
  apply List.ext_getElem
  · simp
  · intro i left right
    simp only [List.getElem_mapIdx, List.getElem_map, List.getElem_range]
    by_cases speculates : i ∈ specIndices
    · have other : i ∉ nonSpecIndices := fun member => disjoint i member speculates
      simp [speculates, other]
    · by_cases samples : i ∈ nonSpecIndices
      · simp [speculates, samples, List.replicate_succ]
      · simp [speculates, samples]

end

/-! ### The scores of a batch -/

/-- The sequences that the target samples a token for, in the order of its output. -/
def sampledSeqIds (targets : List SequenceGroupMetadata) : List SeqId :=
  (targets.filter (·.doSample)).map (·.seqId)

/-- The target's output for a sequence of its batch. -/
def rowOf (targets : List SequenceGroupMetadata) (rows : List ρ) (seqId : SeqId) : Option ρ :=
  rows[(sampledSeqIds targets).idxOf seqId]?

/-- A row for each sequence of the batch: the outputs for its own prefixes, if it speculates; else its own output, if
it samples, and nothing more. -/
def Scored (groups : List SequenceGroupMetadata) (proposals : SpeculativeProposals)
    (targets : List SequenceGroupMetadata) (fill : ρ) (rows : List ρ) (scores : List (List ρ)) : Prop :=
  scores.map (·.map some) = (List.range groups.length).map fun i =>
    if proposals.len i ≠ 0 then
      (List.range (proposals.k + 1)).map fun j => rowOf targets rows (targetSeqId groups proposals i j)
    else if (groupAt groups i).doSample then
      rowOf targets rows (groupAt groups i).seqId :: List.replicate proposals.k (some fill)
    else List.replicate (proposals.k + 1) (some fill)

/-- The target returns one row for each sequence it samples a token for. -/
structure SamplerOutput.Fits (output : SamplerOutput P) (targets : List SequenceGroupMetadata) : Prop where
  sampledTokenIds : output.sampledTokenIds.length = (sampledSeqIds targets).length
  sampledTokenProbs : output.sampledTokenProbs.length = (sampledSeqIds targets).length
  logprobs : output.logprobs.length = (sampledSeqIds targets).length
  hiddenStates : ∀ h, output.hiddenStates = some h → h.rows.length = (sampledSeqIds targets).length

/-- Rows that do not speculate and get an output. -/
def sampledRows (groups : List SequenceGroupMetadata) (proposals : SpeculativeProposals) : List ℕ :=
  (unproposedRows proposals.proposalLens).filter fun i => (groupAt groups i).doSample

theorem sampledSeqIds_expandedBatch (groups : List SequenceGroupMetadata) (proposals : SpeculativeProposals) :
    sampledSeqIds (expandedBatch groups proposals) =
      (sampledRows groups proposals).map (fun i => (groupAt groups i).seqId) ++
        (proposedRows proposals.proposalLens).flatMap fun i =>
          (List.range (proposals.k + 1)).map (targetSeqId groups proposals i) := by
  have scoring : ((proposedRows proposals.proposalLens).flatMap fun i =>
      (List.range (proposals.k + 1)).map (targetGroup groups proposals i)).filter (·.doSample) =
        (proposedRows proposals.proposalLens).flatMap fun i =>
          (List.range (proposals.k + 1)).map (targetGroup groups proposals i) := by
    refine List.filter_eq_self.mpr fun group member => ?_
    obtain ⟨i, -, member⟩ := List.mem_flatMap.mp member
    obtain ⟨j, -, rfl⟩ := List.mem_map.mp member
    rfl
  unfold sampledSeqIds expandedBatch
  rw [List.filter_append, scoring, List.filter_map, List.map_append, List.map_map, List.map_flatMap]
  simp only [List.map_map]
  rfl

theorem Proposed.nodup_sampledSeqIds (proposed : Proposed groups proposals) :
    (sampledSeqIds (expandedBatch groups proposals)).Nodup :=
  proposed.nodup_expandedBatch.sublist (List.filter_sublist.map _)

theorem rows_eq_map {ids : List SeqId} (distinct : ids.Nodup) (fits : rows.length = ids.length)
    (fill : ρ) : rows = ids.map fun id => (rows[ids.idxOf id]?).getD fill := by
  apply List.ext_getElem
  · simp [fits]
  · intro r left right
    have inside : r < ids.length := fits ▸ left
    rw [List.getElem_map, distinct.idxOf_getElem r inside, List.getElem?_eq_getElem left]
    rfl

theorem rowOf_eq {seqId : SeqId} (member : seqId ∈ sampledSeqIds targets)
    (fits : rows.length = (sampledSeqIds targets).length) (fill : ρ) :
    rowOf targets rows seqId = some ((rowOf targets rows seqId).getD fill) := by
  have inside : (sampledSeqIds targets).idxOf seqId < rows.length := by
    rw [fits]
    exact List.idxOf_lt_length_iff.mpr member
  unfold rowOf
  rw [List.getElem?_eq_getElem inside]
  rfl

theorem Proposed.rows_laid (proposed : Proposed groups proposals)
    (fits : rows.length = (sampledSeqIds (expandedBatch groups proposals)).length) (fill : ρ) :
    rows =
      (sampledRows groups proposals).map (fun i =>
        (rowOf (expandedBatch groups proposals) rows (groupAt groups i).seqId).getD fill) ++
      (proposedRows proposals.proposalLens).flatMap fun i => (List.range (proposals.k + 1)).map fun j =>
        (rowOf (expandedBatch groups proposals) rows (targetSeqId groups proposals i j)).getD fill := by
  have found := rows_eq_map proposed.nodup_sampledSeqIds fits fill
  conv_lhs => rw [found]
  conv_lhs => enter [2]; rw [sampledSeqIds_expandedBatch]
  rw [List.map_append, List.map_map, List.map_flatMap]
  simp only [List.map_map]
  rfl

/-- The scores that a tensor gets are the outputs of the rows' own sequences. -/
theorem Proposed.scored (proposed : Proposed groups proposals)
    (fits : rows.length = (sampledSeqIds (expandedBatch groups proposals)).length) (fill : ρ) :
    Scored groups proposals (expandedBatch groups proposals) fill rows ((List.range groups.length).map fun i =>
      if i ∈ proposedRows proposals.proposalLens then (List.range (proposals.k + 1)).map fun j =>
        (rowOf (expandedBatch groups proposals) rows (targetSeqId groups proposals i j)).getD fill
      else if i ∈ sampledRows groups proposals then
        (rowOf (expandedBatch groups proposals) rows (groupAt groups i).seqId).getD fill ::
          List.replicate proposals.k fill
      else List.replicate (proposals.k + 1) fill) := by
  have sampled := sampledSeqIds_expandedBatch groups proposals
  unfold Scored
  rw [List.map_map]
  apply List.map_congr_left
  intro i member
  have inside : i < proposals.proposalLens.length := by
    rw [proposed.oneProposalEach]
    exact List.mem_range.mp member
  rw [Function.comp_apply]
  by_cases speculates : proposals.len i = 0
  · have notProposed : i ∉ proposedRows proposals.proposalLens := fun own => (mem_proposedRows.mp own).2 speculates
    have unproposed : i ∈ unproposedRows proposals.proposalLens := mem_unproposedRows.mpr ⟨inside, speculates⟩
    rw [if_neg notProposed, if_neg (not_not.mpr speculates)]
    cases samples : (groupAt groups i).doSample
    · have quiet : i ∉ sampledRows groups proposals := by
        intro own
        have does := (List.mem_filter.mp own).2
        rw [samples] at does
        cases does
      rw [if_neg quiet]
      simp
    · have own : i ∈ sampledRows groups proposals := List.mem_filter.mpr ⟨unproposed, samples⟩
      have there : (groupAt groups i).seqId ∈ sampledSeqIds (expandedBatch groups proposals) := by
        rw [sampled]
        exact List.mem_append_left _ (List.mem_map_of_mem own)
      rw [if_pos own, if_pos rfl, List.map_cons, ← rowOf_eq there fits fill, List.map_replicate]
  · have own : i ∈ proposedRows proposals.proposalLens := mem_proposedRows.mpr ⟨inside, speculates⟩
    rw [if_pos own, if_pos speculates, List.map_map]
    apply List.map_congr_left
    intro j short
    have there : targetSeqId groups proposals i j ∈ sampledSeqIds (expandedBatch groups proposals) := by
      rw [sampled]
      exact List.mem_append_right _ (List.mem_flatMap.mpr ⟨i, own, List.mem_map_of_mem short⟩)
    exact (rowOf_eq there fits fill).symm

theorem specBatchSize_eq (proposals : SpeculativeProposals) :
    proposals.proposalTokenIds.length - (unproposedRows proposals.proposalLens).length =
      (proposedRows proposals.proposalLens).length := by
  have all := length_rows proposals.proposalLens
  rw [← proposals.oneLenEach]
  omega

theorem Proposed.contractTensor (proposed : Proposed groups proposals) (fill : ρ)
    (fits : rows.length = (sampledSeqIds (expandedBatch groups proposals)).length) :
    ∃ scores, contractTensor fill groups.length
        (proposals.proposalTokenIds.length - (unproposedRows proposals.proposalLens).length) proposals.k
        (sampledSeqIds (expandedBatch groups proposals)).length
        ((proposedRows proposals.proposalLens).length * (proposals.k + 1)) (proposedRows proposals.proposalLens)
        (sampledRows groups proposals) (List.range (sampledRows groups proposals).length) rows = some scores ∧
      Scored groups proposals (expandedBatch groups proposals) fill rows scores := by
  rw [specBatchSize_eq]
  refine ⟨_, contractTensor_eq fill (fun i _ => by simp) (fun i member => (proposed.len_of_mem member).1) ?_
    (nodup_proposedRows _) ((nodup_unproposedRows _).filter _) ?_ (proposed.rows_laid fits fill) fits,
    proposed.scored fits fill⟩
  · intro i member
    have inside := (mem_unproposedRows.mp (List.mem_filter.mp member).1).1
    rwa [proposed.oneProposalEach] at inside
  · intro i member other
    exact (mem_proposedRows.mp other).2 (mem_unproposedRows.mp (List.mem_filter.mp member).1).2

theorem Proposed.reshape (proposed : Proposed groups proposals) (fill : ρ)
    (fits : rows.length = (sampledSeqIds (expandedBatch groups proposals)).length)
    (all : unproposedRows proposals.proposalLens = []) :
    ∃ scores, reshape proposals.proposalTokenIds.length (proposals.k + 1) rows = some scores ∧
      Scored groups proposals (expandedBatch groups proposals) fill rows scores := by
  have laid := proposed.rows_laid fits fill
  have scored := proposed.scored fits fill
  have none : sampledRows groups proposals = [] := by
    rw [sampledRows, all]
    rfl
  have size : proposals.proposalTokenIds.length = (proposedRows proposals.proposalLens).length := by
    have size := specBatchSize_eq proposals
    rwa [all, List.length_nil, Nat.sub_zero] at size
  have every : proposedRows proposals.proposalLens = List.range groups.length := by
    unfold proposedRows
    rw [← proposed.oneProposalEach]
    refine List.filter_eq_self.mpr fun i member => decide_eq_true fun unproposed => ?_
    have own := mem_unproposedRows.mpr ⟨List.mem_range.mp member, unproposed⟩
    rw [all] at own
    cases own
  rw [none, List.map_nil, List.nil_append] at laid
  refine ⟨_, ?_, scored⟩
  rw [size]
  conv_lhs => rw [laid]
  rw [reshape_flatMap fun i _ => by rw [List.length_map, List.length_range], every]
  congr 1
  apply List.map_congr_left
  intro i member
  rw [if_pos member]

end Vllm.SpecDecode.Expansion
