import VllmProofs.V1.InputBatch

/-!
`GPUModelRunner`, `vllm/v1/worker/gpu_model_runner.py`: the states of requests that it keeps, and the
batch that it makes of them. What is only needed for M-RoPE is left out.
-/

namespace Vllm.V1
open Exec

structure GPUModelRunner where
  requests : Dict RequestId CachedRequestState := ∅
  inputBatch : InputBatch
  /-- Which input an encoder output was computed from. -/
  encoderCache : Dict RequestId (Dict ℕ MmInput) := ∅
  /-- How many `torch.Generator` objects there are. -/
  numGenerators : ℕ := 0

def NewRequestData.toState (data : NewRequestData) (generator : Option Generator) : CachedRequestState where
  reqId := data.reqId
  promptTokenIds := data.promptTokenIds
  mmInputs := data.mmInputs
  mmPositions := data.mmPositions
  samplingParams := data.samplingParams
  generator
  blockIds := data.blockIds
  numComputedTokens := data.numComputedTokens
  outputTokenIds := []
  loraRequest := data.loraRequest

namespace CachedRequestState

def unseenTokenIds (state : CachedRequestState) (data : CachedRequestData) : List TokenId :=
  let numNewTokens : ℤ := data.numComputedTokens + data.newTokenIds.length - state.numTokens
  if numNewTokens = 1 then data.newTokenIds.getLast?.toList
  else if 0 < numNewTokens then PySlice.sliceFrom data.newTokenIds (-numNewTokens)
  else []

/-- The state of a running or resumed request. -/
def update (state : CachedRequestState) (data : CachedRequestData) : CachedRequestState :=
  { state with
    numComputedTokens := data.numComputedTokens
    outputTokenIds := state.outputTokenIds ++ state.unseenTokenIds data
    blockIds := if data.resumedFromPreemption then data.newBlockIds else state.blockIds ++ data.newBlockIds }

end CachedRequestState

namespace InputBatch

/-- `for req_id in reqIds: self.remove_request(req_id)`, and the rows that become empty. -/
def removeEach : List RequestId → Call InputBatch (List ℕ)
  | [] => return []
  | reqId :: rest => do
    let reqIndex ← removeRequest reqId
    let removed ← removeEach rest
    return reqIndex.toList ++ removed

/-- The requests in the batch that are not scheduled; of each `remove_request` finds the row. -/
def removeUnscheduled (numScheduledTokens : Dict RequestId ℕ) : Call InputBatch (List ℕ) := do
  let s ← get
  removeEach (s.reqIdToIndex.keys.filter fun reqId => reqId ∉ numScheduledTokens.keys)

/-- A request in the batch gets what the scheduler says about it. -/
def updateRow (i : ℕ) (data : CachedRequestData) (specTokenIds : List TokenId) : Call InputBatch Unit := do
  modify fun s => { s with
    numComputedTokensCpu := Function.update s.numComputedTokensCpu i data.numComputedTokens }
  onBlockTable (BlockTable.appendRow data.newBlockIds i)
  let endTokenIndex := data.numComputedTokens + data.newTokenIds.length
  writeTokenIds i data.numComputedTokens data.newTokenIds
  modify fun s => { s with numTokensNoSpec := Function.update s.numTokensNoSpec i endTokenIndex }
  writeTokenIds i endTokenIndex specTokenIds
  modify fun s => { s with numTokens := Function.update s.numTokens i (endTokenIndex + specTokenIds.length) }

/-- `generate_draft_token_ids` writes the sampled tokens behind the others, from row `i` on. -/
def writeSampled : ℕ → List (List TokenId) → Call InputBatch Unit
  | _, [] => pure ()
  | i, sampledIds :: rest => do
    let s ← get
    writeTokenIds i (s.numTokensNoSpec i) sampledIds
    writeSampled (i + 1) rest

end InputBatch

namespace SchedulerOutput

def draftsOf (out : SchedulerOutput) (reqId : RequestId) : List TokenId :=
  (out.scheduledSpecDecodeTokens.get? reqId).getD []

def named (out : SchedulerOutput) : List RequestId :=
  out.scheduledNewReqs.map NewRequestData.reqId ++ out.scheduledCachedReqs.map CachedRequestData.reqId

end SchedulerOutput

namespace GPUModelRunner

def onInputBatch {α : Type} (x : Call InputBatch α) : Call GPUModelRunner α :=
  zoom GPUModelRunner.inputBatch (fun inputBatch s => { s with inputBatch }) x

def forget (finishedReqIds : List RequestId) (s : GPUModelRunner) : GPUModelRunner :=
  { s with
    requests := finishedReqIds.foldl Dict.erase s.requests
    encoderCache := finishedReqIds.foldl Dict.erase s.encoderCache }

def freeEncoderInput (encoderCache : Dict RequestId (Dict ℕ MmInput)) (freed : RequestId × ℕ) :
    Dict RequestId (Dict ℕ MmInput) :=
  match encoderCache.get? freed.1 with
  | none => encoderCache
  | some encoderOutputs =>
    let left := encoderOutputs.erase freed.2
    if left.size = 0 then encoderCache.erase freed.1 else encoderCache.insert freed.1 left

def freeEncoderInputs (freeEncoderInputIds : List (RequestId × ℕ)) (s : GPUModelRunner) : GPUModelRunner :=
  { s with encoderCache := freeEncoderInputIds.foldl freeEncoderInput s.encoderCache }

/-- A request is seen for the first time. -/
def addNew (s : GPUModelRunner) (data : NewRequestData) : GPUModelRunner :=
  if data.samplingParams.samplingType = .randomSeed then
    { s with
      requests := s.requests.insert data.reqId (data.toState (some s.numGenerators))
      numGenerators := s.numGenerators + 1 }
  else { s with requests := s.requests.insert data.reqId (data.toState none) }

def updateCached (out : SchedulerOutput) : List CachedRequestData → Call GPUModelRunner (List RequestId)
  | [] => return []
  | data :: rest => do
    let s ← get
    let state ← getItem .keyError (s.requests.get? data.reqId)
    set { s with requests := s.requests.insert data.reqId (state.update data) }
    match s.inputBatch.reqIdToIndex.get? data.reqId with
    | none => do
      let others ← updateCached out rest
      return data.reqId :: others
    | some i => do
      onInputBatch (InputBatch.updateRow i data (out.draftsOf data.reqId))
      updateCached out rest

/-- The requests get the empty rows, the smallest first, and then new rows. The rows that are left are
returned. -/
def addEach : List RequestId → List ℕ → Call GPUModelRunner (List ℕ)
  | [], removedReqIndices => return removedReqIndices
  | reqId :: rest, removedReqIndices => do
    let s ← get
    let state ← getItem .keyError (s.requests.get? reqId)
    onInputBatch (InputBatch.addRequest state removedReqIndices.head?)
    addEach rest removedReqIndices.tail

/-- `_update_states`. The rows that become empty are kept in ascending order, the one that is popped first. -/
def updateStates (out : SchedulerOutput) : Call GPUModelRunner Unit := do
  modify (forget out.finishedReqIds)
  let finished ← onInputBatch (InputBatch.removeEach out.finishedReqIds)
  modify (freeEncoderInputs out.freeEncoderInputIds)
  let unscheduled ← onInputBatch (InputBatch.removeUnscheduled out.numScheduledTokens)
  modify fun s => out.scheduledNewReqs.foldl addNew s
  let absent ← updateCached out out.scheduledCachedReqs
  let removedReqIndices := (finished ++ unscheduled).insertionSort (· ≤ ·)
  let left ← addEach (out.scheduledNewReqs.map NewRequestData.reqId ++ absent) removedReqIndices
  if left ≠ [] then onInputBatch (InputBatch.condense left.reverse)

end GPUModelRunner
end Vllm.V1
