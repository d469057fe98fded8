import VllmProofs.V1.Scheduler

/-!
`InputBatch`, `vllm/v1/worker/gpu_input_batch.py`, and its `BlockTable`: the requests of a step in the
rows of parallel arrays. The lists of output tokens, which rows share with the requests, and the copies on
the device are left out.
-/

namespace Vllm.V1
open Exec

abbrev Generator := ℕ

structure CachedRequestState where
  reqId : RequestId
  promptTokenIds : List TokenId
  mmInputs : List MmInput
  mmPositions : Placeholders
  samplingParams : SamplingParams
  generator : Option Generator
  blockIds : List BlockId
  numComputedTokens : ℕ
  outputTokenIds : List TokenId
  loraRequest : Option ℕ

def CachedRequestState.numTokens (request : CachedRequestState) : ℕ :=
  request.promptTokenIds.length + request.outputTokenIds.length

/-! ### Assignments to a row of an array -/

/-- A row of `width` columns after `row[start:start + len(xs)] = xs`, which is cut off at the end of the row. -/
def overwrite {α : Type} (width : ℕ) (row : ℕ → α) (start : ℕ) (xs : List α) : ℕ → α := fun j =>
  if start ≤ j ∧ j < width then (xs[j - start]?).getD (row j) else row j

/-- The columns are there, or one value is broadcast to none. -/
def checkSlice {σ : Type} (width start n : ℕ) : Call σ Unit :=
  if start + n ≤ width ∨ n ≤ 1 then pure () else throw (.valueError "could not broadcast input array")

/-- `if v is not None: d[k] = v` -/
def insertSome {K V : Type} [DecidableEq K] (d : Dict K V) (k : K) : Option V → Dict K V
  | some v => d.insert k v
  | none => d

def swapDictValues {V : Type} (d : Dict ℕ V) (key1 key2 : ℕ) : Dict ℕ V :=
  let put (d : Dict ℕ V) (key : ℕ) : Option V → Dict ℕ V
    | some v => d.insert key v
    | none => d.erase key
  put (put d key2 (d.get? key1)) key1 (d.get? key2)

def swapAt {α : Type} (xs : ℕ → α) (i j : ℕ) : ℕ → α :=
  Function.update (Function.update xs i (xs j)) j (xs i)

structure BlockTable where
  maxNumBlocksPerReq : ℕ
  blockTableNp : ℕ → ℕ → BlockId := fun _ _ => 0
  numBlocksPerRow : ℕ → ℕ := fun _ => 0

namespace BlockTable

def appendRow (blockIds : List BlockId) (rowIdx : ℕ) : Call BlockTable Unit :=
  if blockIds = [] then pure ()
  else do
    let s ← get
    let start := s.numBlocksPerRow rowIdx
    modify fun s =>
      { s with numBlocksPerRow := Function.update s.numBlocksPerRow rowIdx (start + blockIds.length) }
    checkSlice s.maxNumBlocksPerReq start blockIds.length
    modify fun s =>
      let row := overwrite s.maxNumBlocksPerReq (s.blockTableNp rowIdx) start blockIds
      { s with blockTableNp := Function.update s.blockTableNp rowIdx row }

def addRow (blockIds : List BlockId) (rowIdx : ℕ) : Call BlockTable Unit := do
  modify fun s => { s with numBlocksPerRow := Function.update s.numBlocksPerRow rowIdx 0 }
  appendRow blockIds rowIdx

def moveRow (src tgt : ℕ) (s : BlockTable) : BlockTable :=
  let numBlocks := s.numBlocksPerRow src
  { s with
    blockTableNp := Function.update s.blockTableNp tgt fun j =>
      if j < numBlocks then s.blockTableNp src j else s.blockTableNp tgt j
    numBlocksPerRow := Function.update s.numBlocksPerRow tgt numBlocks }

def swapRow (src tgt : ℕ) (s : BlockTable) : BlockTable :=
  { s with
    numBlocksPerRow := swapAt s.numBlocksPerRow src tgt
    blockTableNp := swapAt s.blockTableNp src tgt }

end BlockTable

structure InputBatch where
  maxNumReqs : ℕ
  maxModelLen : ℕ
  vocabSize : ℕ
  /-- `_req_ids` -/
  reqIds : List (Option RequestId) := []
  reqIdToIndex : Dict RequestId ℕ := ∅
  tokenIdsCpu : ℕ → ℕ → TokenId := fun _ _ => 0
  numTokens : ℕ → ℕ := fun _ => 0
  numTokensNoSpec : ℕ → ℕ := fun _ => 0
  numPromptTokens : ℕ → ℕ := fun _ => 0
  numComputedTokensCpu : ℕ → ℕ := fun _ => 0
  blockTable : BlockTable
  temperatureCpu : ℕ → ℚ := fun _ => 0
  greedyReqs : Finset RequestId := ∅
  randomReqs : Finset RequestId := ∅
  topPCpu : ℕ → ℚ := fun _ => 0
  topPReqs : Finset RequestId := ∅
  topKCpu : ℕ → ℤ := fun _ => 0
  topKReqs : Finset RequestId := ∅
  minPCpu : ℕ → ℚ := fun _ => 0
  minPReqs : Finset RequestId := ∅
  frequencyPenaltiesCpu : ℕ → ℚ := fun _ => 0
  frequencyPenaltiesReqs : Finset RequestId := ∅
  presencePenaltiesCpu : ℕ → ℚ := fun _ => 0
  presencePenaltiesReqs : Finset RequestId := ∅
  repetitionPenaltiesCpu : ℕ → ℚ := fun _ => 0
  repetitionPenaltiesReqs : Finset RequestId := ∅
  /-- By row, as `generators` and `badWordsTokenIds` are. -/
  minTokens : Dict ℕ (ℕ × List TokenId) := ∅
  requestLoraMapping : ℕ → ℕ := fun _ => 0
  loraIdToRequestIds : Dict ℕ (Finset RequestId) := ∅
  generators : Dict ℕ Generator := ∅
  numLogprobs : Dict RequestId ℕ := ∅
  numPromptLogprobs : Dict RequestId ℕ := ∅
  logitBias : ℕ → Option (List (TokenId × ℚ)) := fun _ => none
  hasAllowedTokenIds : Finset RequestId := ∅
  allowedTokenIdsMaskCpuTensor : Option (ℕ → TokenId → Bool) := none
  badWordsTokenIds : Dict ℕ (List (List TokenId)) := ∅

namespace InputBatch

def numReqs (s : InputBatch) : ℕ := s.reqIdToIndex.size

def onBlockTable {α : Type} (x : Call BlockTable α) : Call InputBatch α :=
  zoom InputBatch.blockTable (fun blockTable s => { s with blockTable }) x

/-- `token_ids_cpu[i, start:start + len(tokenIds)] = tokenIds` -/
def writeTokenIds (i start : ℕ) (tokenIds : List TokenId) : Call InputBatch Unit := do
  let s ← get
  checkSlice s.maxModelLen start tokenIds.length
  modify fun s =>
    let row := overwrite s.maxModelLen (s.tokenIdsCpu i) start tokenIds
    { s with tokenIdsCpu := Function.update s.tokenIdsCpu i row }

/-! ### `add_request` -/

def placeReqId (i : ℕ) (reqId : RequestId) : Call InputBatch Unit := do
  let s ← get
  if i = s.reqIds.length then set { s with reqIds := s.reqIds ++ [some reqId] }
  else if i < s.reqIds.length then set { s with reqIds := s.reqIds.set i (some reqId) }
  else throw .indexError

def setPrompt (i : ℕ) (request : CachedRequestState) (s : InputBatch) : InputBatch :=
  { s with
    reqIdToIndex := s.reqIdToIndex.insert request.reqId i
    numPromptTokens := Function.update s.numPromptTokens i request.promptTokenIds.length }

def setNumTokens (i : ℕ) (request : CachedRequestState) (s : InputBatch) : InputBatch :=
  { s with
    numTokens := Function.update s.numTokens i request.numTokens
    numTokensNoSpec := Function.update s.numTokensNoSpec i request.numTokens
    numComputedTokensCpu := Function.update s.numComputedTokensCpu i request.numComputedTokens }

def insertIf (p : Prop) [Decidable p] (reqId : RequestId) (ids : Finset RequestId) : Finset RequestId :=
  if p then insert reqId ids else ids

def rowTemperature (params : SamplingParams) : ℚ :=
  if params.samplingType = .greedy then -1 else params.temperature

def restrictsTopK (vocabSize : ℕ) (params : SamplingParams) : Prop := 0 < params.topK ∧ params.topK < vocabSize

instance (vocabSize : ℕ) (params : SamplingParams) : Decidable (restrictsTopK vocabSize params) :=
  inferInstanceAs (Decidable (_ ∧ _))

def rowTopK (vocabSize : ℕ) (params : SamplingParams) : ℤ :=
  if restrictsTopK vocabSize params then params.topK else vocabSize

def rowMinTokens (params : SamplingParams) : Option (ℕ × List TokenId) :=
  if params.minTokens ≠ 0 then some (params.minTokens, params.allStopTokenIds) else none

def setSampling (i : ℕ) (request : CachedRequestState) (s : InputBatch) : InputBatch :=
  let params := request.samplingParams
  { s with
    temperatureCpu := Function.update s.temperatureCpu i (rowTemperature params)
    greedyReqs := insertIf (params.samplingType = .greedy) request.reqId s.greedyReqs
    randomReqs := insertIf (params.samplingType ≠ .greedy) request.reqId s.randomReqs
    topPCpu := Function.update s.topPCpu i params.topP
    topPReqs := insertIf (params.topP < 1) request.reqId s.topPReqs
    topKCpu := Function.update s.topKCpu i (rowTopK s.vocabSize params)
    topKReqs := insertIf (restrictsTopK s.vocabSize params) request.reqId s.topKReqs
    minPCpu := Function.update s.minPCpu i params.minP
    minPReqs := insertIf (samplingEps < params.minP) request.reqId s.minPReqs
    frequencyPenaltiesCpu := Function.update s.frequencyPenaltiesCpu i params.frequencyPenalty
    frequencyPenaltiesReqs := insertIf (params.frequencyPenalty ≠ 0) request.reqId s.frequencyPenaltiesReqs
    presencePenaltiesCpu := Function.update s.presencePenaltiesCpu i params.presencePenalty
    presencePenaltiesReqs := insertIf (params.presencePenalty ≠ 0) request.reqId s.presencePenaltiesReqs
    repetitionPenaltiesCpu := Function.update s.repetitionPenaltiesCpu i params.repetitionPenalty
    repetitionPenaltiesReqs := insertIf (params.repetitionPenalty ≠ 1) request.reqId s.repetitionPenaltiesReqs
    minTokens := insertSome s.minTokens i (rowMinTokens params)
    generators := insertSome s.generators i request.generator
    numLogprobs := insertSome s.numLogprobs request.reqId params.logprobs
    numPromptLogprobs := insertSome s.numPromptLogprobs request.reqId params.promptLogprobs }

def maskRow (allowedTokenIds : List TokenId) : TokenId → Bool := fun tokenId => !(allowedTokenIds.contains tokenId)

/-- The mask is allocated when it is needed first. -/
def setAllowedTokenIds (i : ℕ) (reqId : RequestId) (allowedTokenIds : List TokenId) (s : InputBatch) : InputBatch :=
  { s with
    hasAllowedTokenIds := insert reqId s.hasAllowedTokenIds
    allowedTokenIdsMaskCpuTensor := some (Function.update
      (s.allowedTokenIdsMaskCpuTensor.getD fun _ _ => false) i (maskRow allowedTokenIds)) }

/-- What a request asks of its logits; nothing is written for one that asks nothing. -/
def setConstraints (i : ℕ) (request : CachedRequestState) (s : InputBatch) : InputBatch :=
  let params := request.samplingParams
  let biased := match params.logitBias with
    | some logitBias => { s with logitBias := Function.update s.logitBias i (some logitBias) }
    | none => s
  let masked := match params.allowedTokenIds.getD [] with
    | [] => biased
    | allowedTokenIds => setAllowedTokenIds i request.reqId allowedTokenIds biased
  { masked with badWordsTokenIds := masked.badWordsTokenIds.insert i params.badWordsTokenIds }

def setLora (i : ℕ) (request : CachedRequestState) (s : InputBatch) : InputBatch :=
  match request.loraRequest with
  | some loraId =>
    { s with
      requestLoraMapping := Function.update s.requestLoraMapping i loraId
      loraIdToRequestIds := s.loraIdToRequestIds.insert loraId
        (insert request.reqId ((s.loraIdToRequestIds.get? loraId).getD ∅)) }
  | none => { s with requestLoraMapping := Function.update s.requestLoraMapping i 0 }

def addRequest (request : CachedRequestState) (reqIndex : Option ℕ) : Call InputBatch Unit := do
  let s ← get
  let i := reqIndex.getD s.numReqs
  check .withinMaxNumReqs (i < s.maxNumReqs)
  placeReqId i request.reqId
  modify (setPrompt i request)
  writeTokenIds i 0 request.promptTokenIds
  writeTokenIds i request.promptTokenIds.length request.outputTokenIds
  modify (setNumTokens i request)
  onBlockTable (BlockTable.addRow request.blockIds i)
  modify (setSampling i request)
  modify (setConstraints i request)
  modify (setLora i request)

/-! ### `remove_request` -/

def clearRow (i : ℕ) (reqId : RequestId) (s : InputBatch) : InputBatch :=
  { s with
    reqIdToIndex := s.reqIdToIndex.erase reqId
    reqIds := s.reqIds.set i none
    greedyReqs := s.greedyReqs.erase reqId
    randomReqs := s.randomReqs.erase reqId
    topPReqs := s.topPReqs.erase reqId
    topKReqs := s.topKReqs.erase reqId
    minPReqs := s.minPReqs.erase reqId
    minTokens := s.minTokens.erase i
    frequencyPenaltiesReqs := s.frequencyPenaltiesReqs.erase reqId
    presencePenaltiesReqs := s.presencePenaltiesReqs.erase reqId
    repetitionPenaltiesReqs := s.repetitionPenaltiesReqs.erase reqId
    generators := s.generators.erase i
    numLogprobs := s.numLogprobs.erase reqId
    numPromptLogprobs := s.numPromptLogprobs.erase reqId }

def clearLora (i : ℕ) (reqId : RequestId) : Call InputBatch Unit := do
  let s ← get
  let loraId := s.requestLoraMapping i
  if loraId ≠ 0 then
    let reqIds ← getItem .keyError (s.loraIdToRequestIds.get? loraId)
    let left := reqIds.erase reqId
    modify fun s =>
      { s with
        loraIdToRequestIds := if left = ∅ then s.loraIdToRequestIds.erase loraId
          else s.loraIdToRequestIds.insert loraId left
        requestLoraMapping := Function.update s.requestLoraMapping i 0 }

def clearConstraints (i : ℕ) (reqId : RequestId) (s : InputBatch) : InputBatch :=
  { s with
    logitBias := Function.update s.logitBias i none
    hasAllowedTokenIds := s.hasAllowedTokenIds.erase reqId
    allowedTokenIdsMaskCpuTensor := s.allowedTokenIdsMaskCpuTensor.map fun mask =>
      Function.update mask i fun _ => false
    badWordsTokenIds := s.badWordsTokenIds.erase i }

def removeRequest (reqId : RequestId) : Call InputBatch (Option ℕ) := do
  let s ← get
  match s.reqIdToIndex.get? reqId with
  | none => return none
  | some i =>
    modify (clearRow i reqId)
    clearLora i reqId
    modify (clearConstraints i reqId)
    return some i

/-! ### `swap_states` -/

def swapRows (i1 i2 : ℕ) (s : InputBatch) : InputBatch :=
  { s with
    numTokens := swapAt s.numTokens i1 i2
    numTokensNoSpec := swapAt s.numTokensNoSpec i1 i2
    numPromptTokens := swapAt s.numPromptTokens i1 i2
    numComputedTokensCpu := swapAt s.numComputedTokensCpu i1 i2
    temperatureCpu := swapAt s.temperatureCpu i1 i2
    topPCpu := swapAt s.topPCpu i1 i2
    topKCpu := swapAt s.topKCpu i1 i2
    frequencyPenaltiesCpu := swapAt s.frequencyPenaltiesCpu i1 i2
    presencePenaltiesCpu := swapAt s.presencePenaltiesCpu i1 i2
    repetitionPenaltiesCpu := swapAt s.repetitionPenaltiesCpu i1 i2
    minPCpu := swapAt s.minPCpu i1 i2
    tokenIdsCpu := swapAt s.tokenIdsCpu i1 i2
    generators := swapDictValues s.generators i1 i2
    minTokens := swapDictValues s.minTokens i1 i2
    badWordsTokenIds := swapDictValues s.badWordsTokenIds i1 i2
    requestLoraMapping := swapAt s.requestLoraMapping i1 i2
    logitBias := swapAt s.logitBias i1 i2
    -- the rows of a tensor are views: the second assignment copies what the first has written
    allowedTokenIdsMaskCpuTensor := s.allowedTokenIdsMaskCpuTensor.map fun mask =>
      Function.update (Function.update mask i1 (mask i2)) i2 (mask i2)
    blockTable := s.blockTable.swapRow i1 i2 }

def swapStates (i1 i2 : ℕ) : Call InputBatch Unit := do
  let s ← get
  let id1 ← getItem .indexError s.reqIds[i1]?
  let id2 ← getItem .indexError s.reqIds[i2]?
  set { s with reqIds := (s.reqIds.set i1 id2).set i2 id1 }
  match id1, id2 with
  | some id1, some id2 => do
    modify fun s => { s with reqIdToIndex := (s.reqIdToIndex.insert id1 i2).insert id2 i1 }
    modify (swapRows i1 i2)
  | _, _ => throw (.assertionError .swappedReqsExist)

/-! ### `condense` -/

/-- The entry under `src`, if there is one, is moved to `tgt`. -/
def moveKey {V : Type} (d : Dict ℕ V) (src tgt : ℕ) : Dict ℕ V :=
  match d.get? src with
  | some v => (d.erase src).insert tgt v
  | none => d

def moveRow (last empty : ℕ) (s : InputBatch) : InputBatch :=
  let numTokens := s.numTokens last
  { s with
    tokenIdsCpu := Function.update s.tokenIdsCpu empty fun j =>
      if j < numTokens then s.tokenIdsCpu last j else s.tokenIdsCpu empty j
    numTokens := Function.update s.numTokens empty numTokens
    numTokensNoSpec := Function.update s.numTokensNoSpec empty (s.numTokensNoSpec last)
    numPromptTokens := Function.update s.numPromptTokens empty (s.numPromptTokens last)
    numComputedTokensCpu := Function.update s.numComputedTokensCpu empty (s.numComputedTokensCpu last)
    blockTable := s.blockTable.moveRow last empty
    temperatureCpu := Function.update s.temperatureCpu empty (s.temperatureCpu last)
    topPCpu := Function.update s.topPCpu empty (s.topPCpu last)
    topKCpu := Function.update s.topKCpu empty (s.topKCpu last)
    frequencyPenaltiesCpu := Function.update s.frequencyPenaltiesCpu empty (s.frequencyPenaltiesCpu last)
    presencePenaltiesCpu := Function.update s.presencePenaltiesCpu empty (s.presencePenaltiesCpu last)
    repetitionPenaltiesCpu := Function.update s.repetitionPenaltiesCpu empty (s.repetitionPenaltiesCpu last)
    minPCpu := Function.update s.minPCpu empty (s.minPCpu last)
    generators := moveKey s.generators last empty
    minTokens := moveKey s.minTokens last empty
    requestLoraMapping := Function.update s.requestLoraMapping empty (s.requestLoraMapping last)
    logitBias := Function.update s.logitBias empty (s.logitBias last)
    allowedTokenIdsMaskCpuTensor := s.allowedTokenIdsMaskCpuTensor.map fun mask =>
      Function.update mask empty (mask last)
    badWordsTokenIds := moveKey s.badWordsTokenIds last empty }

/-- One row of `condense`: the last request is moved to an empty row. -/
def moveLast (last empty : ℕ) : Call InputBatch Unit := do
  let s ← get
  match ← getItem .indexError s.reqIds[last]? with
  | none => throw (.assertionError .movedReqExists)
  | some reqId =>
    set { s with
      reqIds := (s.reqIds.set empty (some reqId)).set last none
      reqIdToIndex := s.reqIdToIndex.insert reqId empty }
    modify (moveRow last empty)

/-- `while last_req_index in empty_req_indices: last_req_index -= 1`, where `stop` is
`last_req_index + 1`. -/
def skipEmpty (emptyReqIndices : List ℕ) : ℕ → ℕ
  | 0 => 0
  | last + 1 => if last ∈ emptyReqIndices then skipEmpty emptyReqIndices last else last + 1

/-- The loop of `condense`. The empty rows are in ascending order, as they are popped. -/
def condenseLoop : List ℕ → ℕ → Call InputBatch Unit
  | [], _ => pure ()
  | empty :: rest, stop =>
    let stop := skipEmpty (empty :: rest) stop
    if stop ≤ empty + 1 then pure ()
    else do
      moveLast (stop - 1) empty
      condenseLoop rest (stop - 1)

/-- The empty rows are in descending order. -/
def condense (emptyReqIndices : List ℕ) : Call InputBatch Unit := do
  let s ← get
  if s.numReqs = 0 then set { s with reqIds := [] }
  else do
    condenseLoop emptyReqIndices.reverse (s.numReqs + emptyReqIndices.length)
    modify fun s => { s with reqIds := s.reqIds.take s.numReqs }

end InputBatch
end Vllm.V1
