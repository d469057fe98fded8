import VllmProofs.SpecDecode.HiddenStates

/-!
`SpecDecodeWorker.execute_model` with a `MultiStepWorker` as the draft model: which forward passes the
draft model is asked for, and what the worker keeps between steps. What the target computes and what
the sampler accepts is given with the step.
-/

namespace Vllm.SpecDecode

/-- Beside what only concerns the device. Blocks to swap are given by their sequences. -/
structure ExecuteModelRequest where
  seqGroupMetadataList : List SequenceGroupMetadata
  numLookaheadSlots : ℕ
  runningQueueSize : ℕ := 0
  finishedRequestsIds : List RequestId := []
  blocksToSwapIn : List SeqId := []
  blocksToSwapOut : List SeqId := []
  deriving DecidableEq, Repr

/-- A request, and for each of its groups the tokens that the target and the sampler yield. -/
structure WorkerStep where
  request : ExecuteModelRequest
  outputs : List (List TokenId)
  deriving DecidableEq, Repr

structure SpecDecodeConfig where
  disableByBatchSize : Option ℕ := none
  /-- `max_proposal_len`, the length a sequence may reach. -/
  maxProposalLen : Option ℕ := none
  allowZeroDraftTokenStep : Bool := true
  numSpecPrefillSteps : ℕ := 1
  prefills : 0 < numSpecPrefillSteps := by decide
  /-- Do the outputs of the target model come with `hidden_states`? -/
  returnsHiddenStates : Bool := true

structure SpecDecodeWorker where
  previousHiddenStates : Option HiddenStates := none
  seqWithBonusTokenInLastStep : Finset SeqId := ∅
  requestIdSeqIdMapping : RequestId → Finset SeqId := fun _ => ∅
  /-- How often the target has run: it labels the rows. -/
  passes : ℕ := 0

structure DraftGroup where
  group : SequenceGroupMetadata
  withoutBonus : Bool
  deriving DecidableEq, Repr

/-- What the draft model is asked for: one pass over a batch, or `sampleLen` of them over a batch that
grows by the tokens it proposes. -/
inductive DraftCall where
  | executeModel (request : ExecuteModelRequest)
  | samplerOutput (groups : List DraftGroup) (sampleLen : ℕ) (previous : Option HiddenStates)
  deriving DecidableEq, Repr

-- Which steps speculate

def SpecDecodeConfig.shouldDisableAllSpeculation (cfg : SpecDecodeConfig)
    (request : ExecuteModelRequest) : Bool :=
  match cfg.disableByBatchSize with
  | none => false
  | some size => size ≤ request.runningQueueSize

def SpecDecodeConfig.noSpec (cfg : SpecDecodeConfig) (request : ExecuteModelRequest) : Bool :=
  request.numLookaheadSlots = 0 || cfg.shouldDisableAllSpeculation request ||
    request.seqGroupMetadataList.all fun group => group.numSpeculativeTokens = some 0

/-- `_split_by_proposal_len`: the groups that the draft model proposes for. -/
def SpecDecodeConfig.proposes (cfg : SpecDecodeConfig) (proposalLen : ℕ)
    (group : SequenceGroupMetadata) : Bool :=
  !group.isPrompt && group.numSpeculativeTokens ≠ some 0 &&
    match cfg.maxProposalLen with
    | none => true
    | some limit => group.tokenIds.length + proposalLen < limit

def SpecDecodeConfig.nonzeroProposalLenSeqs (cfg : SpecDecodeConfig) (request : ExecuteModelRequest) :
    List SequenceGroupMetadata :=
  request.seqGroupMetadataList.filter (cfg.proposes request.numLookaheadSlots)

def maybeDisableSpeculativeTokens (disableAllSpeculation : Bool)
    (groups : List SequenceGroupMetadata) : List SequenceGroupMetadata :=
  if disableAllSpeculation then groups.map ({ · with numSpeculativeTokens := some 0 }) else groups

-- The draft batch

def copySeqMetadataExcludingLastToken (group : SequenceGroupMetadata) : SequenceGroupMetadata :=
  { group with tokenIds := group.tokenIds.dropLast, numComputedTokens := group.numComputedTokens - 1 }

/-- The groups of `_expand_execute_model_request`. -/
def expandGroups (bonus : Finset SeqId) (groups : List SequenceGroupMetadata) : List DraftGroup :=
  groups.flatMap fun group =>
    if group.seqId ∈ bonus then
      [{ group := copySeqMetadataExcludingLastToken group, withoutBonus := true },
        { group, withoutBonus := false }]
    else [{ group, withoutBonus := false }]

/-- `Top1Proposer.get_spec_proposals`, as far as the batch of the draft model. -/
def getSpecProposals (cfg : SpecDecodeConfig) (bonus : Finset SeqId) (previous : Option HiddenStates)
    (request : ExecuteModelRequest) : Except PyError (List DraftCall) :=
  let groups := cfg.nonzeroProposalLenSeqs request
  if groups = [] then .ok []
  else
    match previous with
    | none => .ok [.samplerOutput (expandGroups bonus groups) request.numLookaheadSlots none]
    | some hs => do
      let pruned ← hs.prune groups
      let expanded ← pruned.expandWithBonusTokens bonus
      .ok [.samplerOutput (expandGroups bonus groups) request.numLookaheadSlots (some expanded)]

/-- `Sync proposer KV cache for prefills`: a pass over the groups without proposals, if there are
prompts among them. -/
def syncPrefills (cfg : SpecDecodeConfig) (request : ExecuteModelRequest) : List DraftCall :=
  let nonSpecSeqs := request.seqGroupMetadataList.filter fun group =>
    !cfg.proposes request.numLookaheadSlots group
  if nonSpecSeqs.any (·.isPrompt) then
    [.executeModel { request with seqGroupMetadataList := nonSpecSeqs }]
  else []

-- The rows of the target

/-- The hidden states of a step without speculation, each with whether a token was sampled from it. -/
def sampledRows (pass : ℕ) (groups : List SequenceGroupMetadata) : List (HiddenRow × Bool) :=
  groups.flatMap fun group =>
    (if group.isPrompt then
        List.replicate group.promptLogprobRows (HiddenRow.prompt group.seqId pass, false)
      else []) ++
    if group.doSample then [(HiddenRow.state group.seqId pass 0, true)] else []

/-- The row of `proposal_scores.hidden_states` of a group: one state for each scored token. -/
def scoredRows (cfg : SpecDecodeConfig) (k pass : ℕ) (group : SequenceGroupMetadata) : List HiddenRow :=
  if cfg.proposes k group then (List.range (k + 1)).map (HiddenRow.state group.seqId pass)
  else HiddenRow.state group.seqId pass 0 :: List.replicate k .zeros

def acceptedTokenIds (k : ℕ) (tokens : List TokenId) : List TokenId :=
  tokens ++ List.replicate (k + 1 - tokens.length) (-1)

def verifiedHiddenStates (cfg : SpecDecodeConfig) (k pass : ℕ) (groups : List SequenceGroupMetadata)
    (outputs : List (List TokenId)) : Except PyError HiddenStates :=
  let acceptedIndex := outputs.map fun tokens =>
    ((acceptedTokenIds k tokens).countP (· ≠ -1) : ℤ) - 1
  let kept := ((groups.map (scoredRows cfg k pass)).zip acceptedIndex).filter fun entry => entry.2 ≠ -1
  let terminalMetadata := groups.filter (·.doSample)
  if kept.length = terminalMetadata.length then
    HiddenStates.init (kept.map fun (rows, index) => rows.getD index.toNat .zeros) terminalMetadata
      (some (kept.map fun (rows, _) => rows.getD (k - 1) .zeros))
  else .error .assertionError

namespace SpecDecodeWorker

def trackFinishedRequests (w : SpecDecodeWorker) (finished : List RequestId) : SpecDecodeWorker :=
  finished.foldl (fun w requestId =>
    { w with
      seqWithBonusTokenInLastStep :=
        w.seqWithBonusTokenInLastStep \ w.requestIdSeqIdMapping requestId
      requestIdSeqIdMapping := Function.update w.requestIdSeqIdMapping requestId ∅ }) w

/-- `_track_sequences_with_bonus_tokens`, with the last column of the accepted tokens. -/
def trackSequencesWithBonusTokens (w : SpecDecodeWorker) (k : ℕ) (groups : List SequenceGroupMetadata)
    (outputs : List (List TokenId)) : SpecDecodeWorker :=
  { w with
    seqWithBonusTokenInLastStep := (groups.zip outputs).foldl (fun bonus (group, tokens) =>
      if (acceptedTokenIds k tokens).getD k (-1) = -1 then bonus.erase group.seqId
      else insert group.seqId bonus) w.seqWithBonusTokenInLastStep
    requestIdSeqIdMapping := groups.foldl (fun mapping group =>
      Function.update mapping group.requestId (insert group.seqId (mapping group.requestId)))
      w.requestIdSeqIdMapping }

def storeHiddenStates (previous : Option HiddenStates) (pass : ℕ)
    (groups : List SequenceGroupMetadata) : Except PyError (Option HiddenStates) :=
  let withHidden := groups.filter (·.doSample)
  let rows := sampledRows pass groups
  -- rows without a prediction are dropped only beside the last chunk of a prompt
  let kept := if withHidden.any (·.isPrompt) then rows.filter (·.2) else rows
  let hiddenStates := kept.map Prod.fst
  if withHidden = [] then .ok previous
  else
    match previous with
    | none => (HiddenStates.init hiddenStates withHidden none).map some
    | some hs => (hs.update hiddenStates withHidden none).map some

def runNoSpec (cfg : SpecDecodeConfig) (w : SpecDecodeWorker) (request : ExecuteModelRequest)
    (skipProposer : Bool) : Except PyError (SpecDecodeWorker × List DraftCall) := do
  let previous ← if cfg.returnsHiddenStates then
      storeHiddenStates w.previousHiddenStates w.passes request.seqGroupMetadataList
    else .ok w.previousHiddenStates
  .ok ({ w with previousHiddenStates := previous, passes := w.passes + 1 },
    if skipProposer then [] else List.replicate cfg.numSpecPrefillSteps (.executeModel request))

def runSpeculativeDecodingStep (cfg : SpecDecodeConfig) (w : SpecDecodeWorker)
    (request : ExecuteModelRequest) (outputs : List (List TokenId)) :
    Except PyError (SpecDecodeWorker × List DraftCall) := do
  let k := request.numLookaheadSlots
  let groups := request.seqGroupMetadataList
  let proposals ← getSpecProposals cfg w.seqWithBonusTokenInLastStep w.previousHiddenStates request
  if !cfg.allowZeroDraftTokenStep && proposals = [] then
    .error (.runtimeError "Cannot handle cases where distributed draft workers generate no tokens")
  else do
    let previous ← if cfg.returnsHiddenStates then
        (verifiedHiddenStates cfg k w.passes groups outputs).map some
      else .ok none
    .ok ({ w.trackSequencesWithBonusTokens k groups outputs with
        previousHiddenStates := previous, passes := w.passes + 1 }, proposals ++ syncPrefills cfg request)

def executeModel (cfg : SpecDecodeConfig) (w : SpecDecodeWorker) (st : WorkerStep) :
    Except PyError (SpecDecodeWorker × List DraftCall) :=
  let request := st.request
  let groups := request.seqGroupMetadataList
  let w := w.trackFinishedRequests request.finishedRequestsIds
  let disableAllSpeculation := cfg.shouldDisableAllSpeculation request
  if groups.all (·.isPrompt) ∧ groups ≠ [] ∧ request.numLookaheadSlots ≠ 0 then
    .error .assertionError
  else if cfg.noSpec request then
    runNoSpec cfg w { request with
      seqGroupMetadataList := maybeDisableSpeculativeTokens disableAllSpeculation groups }
      disableAllSpeculation
  else runSpeculativeDecodingStep cfg w request st.outputs

-- The two kinds of steps

@[simp] theorem sampledRows_marked (pass : ℕ) (disable : Bool) (groups : List SequenceGroupMetadata) :
    sampledRows pass (maybeDisableSpeculativeTokens disable groups) = sampledRows pass groups := by
  cases disable <;> simp [maybeDisableSpeculativeTokens, sampledRows, List.flatMap_map]

theorem storeHiddenStates_marked (previous : Option HiddenStates) (pass : ℕ) (disable : Bool)
    (groups : List SequenceGroupMetadata) :
    storeHiddenStates previous pass (maybeDisableSpeculativeTokens disable groups) =
      storeHiddenStates previous pass groups := by
  simp only [storeHiddenStates, sampledRows_marked]
  cases disable with
  | false => rfl
  | true =>
    simp only [maybeDisableSpeculativeTokens, if_true, List.filter_map, Function.comp_def, List.any_map,
      List.map_eq_nil_iff, HiddenStates.init, HiddenStates.update, getAllSeqIds, List.map_map,
      List.length_map]

variable {cfg : SpecDecodeConfig} {w w' : SpecDecodeWorker} {request : ExecuteModelRequest}
  {calls : List DraftCall}

theorem runNoSpec_ok {skipProposer : Bool}
    (done : w.runNoSpec cfg request skipProposer = .ok (w', calls)) :
    ∃ next, (cfg.returnsHiddenStates = true →
        storeHiddenStates w.previousHiddenStates w.passes request.seqGroupMetadataList = .ok next) ∧
      w' = { w with previousHiddenStates := next, passes := w.passes + 1 } ∧
      calls = if skipProposer then [] else
        List.replicate cfg.numSpecPrefillSteps (.executeModel request) := by
  simp only [runNoSpec] at done
  cases returns : cfg.returnsHiddenStates with
  | false =>
    simp only [returns] at done
    obtain ⟨rfl, rfl⟩ := Prod.mk.inj (Except.ok.inj done)
    exact ⟨_, (nomatch ·), rfl, rfl⟩
  | true =>
    simp only [returns, if_true] at done
    cases stored : storeHiddenStates w.previousHiddenStates w.passes request.seqGroupMetadataList with
    | error e =>
      rw [stored] at done
      cases done
    | ok next =>
      rw [stored] at done
      obtain ⟨rfl, rfl⟩ := Prod.mk.inj (Except.ok.inj done)
      exact ⟨next, fun _ => rfl, rfl, rfl⟩

theorem runSpeculativeDecodingStep_ok {outputs : List (List TokenId)}
    (done : w.runSpeculativeDecodingStep cfg request outputs = .ok (w', calls)) :
    ∃ proposals next,
      getSpecProposals cfg w.seqWithBonusTokenInLastStep w.previousHiddenStates request =
        .ok proposals ∧
      (cfg.returnsHiddenStates = true → ∃ hs, next = some hs ∧
        verifiedHiddenStates cfg request.numLookaheadSlots w.passes request.seqGroupMetadataList outputs =
          .ok hs) ∧
      w' = { w.trackSequencesWithBonusTokens request.numLookaheadSlots request.seqGroupMetadataList
          outputs with previousHiddenStates := next, passes := w.passes + 1 } ∧
      calls = proposals ++ syncPrefills cfg request := by
  simp only [runSpeculativeDecodingStep] at done
  cases proposed : getSpecProposals cfg w.seqWithBonusTokenInLastStep w.previousHiddenStates
      request with
  | error e =>
    rw [proposed] at done
    cases done
  | ok proposals =>
    rw [proposed] at done
    simp only [bind, Except.bind] at done
    split at done
    · cases done
    cases returns : cfg.returnsHiddenStates with
    | false =>
      simp only [returns] at done
      obtain ⟨rfl, rfl⟩ := Prod.mk.inj (Except.ok.inj done)
      exact ⟨proposals, none, rfl, (nomatch ·), rfl, rfl⟩
    | true =>
      simp only [returns, if_true] at done
      cases verified : verifiedHiddenStates cfg request.numLookaheadSlots w.passes
          request.seqGroupMetadataList outputs with
      | error e =>
        rw [verified] at done
        cases done
      | ok hs =>
        rw [verified] at done
        obtain ⟨rfl, rfl⟩ := Prod.mk.inj (Except.ok.inj done)
        exact ⟨proposals, some hs, rfl, fun _ => ⟨hs, rfl, rfl⟩, rfl, rfl⟩

theorem executeModel_cases {st : WorkerStep} (done : w.executeModel cfg st = .ok (w', calls)) :
    let f := w.trackFinishedRequests st.request.finishedRequestsIds
    let disable := cfg.shouldDisableAllSpeculation st.request
    (cfg.noSpec st.request = true ∧
      (∃ next, (cfg.returnsHiddenStates = true →
          storeHiddenStates f.previousHiddenStates f.passes st.request.seqGroupMetadataList = .ok next) ∧
        w' = { f with previousHiddenStates := next, passes := f.passes + 1 }) ∧
      calls = if disable then [] else
        List.replicate cfg.numSpecPrefillSteps (.executeModel st.request)) ∨
    (cfg.noSpec st.request = false ∧ ∃ proposals next,
      getSpecProposals cfg f.seqWithBonusTokenInLastStep f.previousHiddenStates st.request =
        .ok proposals ∧
      (cfg.returnsHiddenStates = true → ∃ hs, next = some hs ∧
        verifiedHiddenStates cfg st.request.numLookaheadSlots f.passes st.request.seqGroupMetadataList
          st.outputs = .ok hs) ∧
      w' = { f.trackSequencesWithBonusTokens st.request.numLookaheadSlots
          st.request.seqGroupMetadataList st.outputs with
        previousHiddenStates := next, passes := f.passes + 1 } ∧
      calls = proposals ++ syncPrefills cfg st.request) := by
  intro f disable
  simp only [executeModel] at done
  split_ifs at done with prompts noSpec
  · left
    obtain ⟨next, stored, rfl, called⟩ := runNoSpec_ok done
    refine ⟨noSpec, ⟨next, fun returns => ?_, rfl⟩, ?_⟩
    · rw [← storeHiddenStates_marked _ _ disable]
      exact stored returns
    -- a request that is handed to the draft model carries no new mark
    · cases disabled : disable with
      | false =>
        have off : cfg.shouldDisableAllSpeculation st.request = false := disabled
        simp [called, maybeDisableSpeculativeTokens, off]
      | true =>
        have on : cfg.shouldDisableAllSpeculation st.request = true := disabled
        simp [called, on]
  · right
    exact ⟨by simpa using noSpec, runSpeculativeDecodingStep_ok done⟩

end SpecDecodeWorker
end Vllm.SpecDecode
