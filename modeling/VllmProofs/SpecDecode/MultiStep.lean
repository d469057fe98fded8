import VllmProofs.Sequence
import VllmProofs.Data.IndexedRows

/-!
`MultiStepWorker.sampler_output`, with every step prepared on the CPU, and the objects it shares with its caller. A
`SequenceData` object refers to the array of its output tokens, to the list that caches all of its tokens, and to the
list of newly appended tokens; copies of it refer to the same ones until these are replaced.
-/

namespace Vllm.SpecDecode.MultiStep

abbrev SeqDataRef := ℕ

structure SequenceData where
  promptTokenIds : List TokenId := []
  outputTokenIds : ℕ := 0
  cachedAllTokenIds : ℕ := 0
  newAppendedTokens : ℕ := 0
  cumulativeLogprob : ℚ := 0
  numComputedTokens : ℤ := 0
  stage : SequenceStage := .prefill
  deriving DecidableEq, Inhabited

structure Heap where
  seqData : List SequenceData
  arrays : List (List TokenId)
  caches : List (List TokenId)
  appended : List (List TokenId)
  deriving DecidableEq

/-- A `SequenceGroupMetadata` object; `seqData` is its dictionary, in order. -/
structure SequenceGroupMetadata where
  requestId : ℕ
  isPrompt : Bool
  seqData : List (SeqId × SeqDataRef)
  deriving DecidableEq

structure ExecuteModelRequest where
  seqGroupMetadataList : List SequenceGroupMetadata
  /-- Blocks are to be swapped or copied. -/
  cacheOperations : Bool := false

structure SequenceOutput where
  parentSeqId : SeqId
  outputToken : TokenId
  logprobs : List (TokenId × ℚ)
  deriving DecidableEq

structure GroupOutput where
  samples : List SequenceOutput
  deriving DecidableEq

structure SamplerOutput where
  outputs : List GroupOutput
  sampledTokenProbs : Option (List (List ℚ)) := none
  logprobs : Option (List (List ℚ)) := none
  sampledTokenIds : Option (List (List TokenId)) := none
  deriving DecidableEq

structure SeqView where
  promptTokenIds : List TokenId
  outputTokenIds : List TokenId
  cachedAllTokenIds : List TokenId
  cumulativeLogprob : ℚ
  numComputedTokens : ℤ
  stage : SequenceStage
  deriving DecidableEq

structure GroupView where
  requestId : ℕ
  isPrompt : Bool
  seqs : List (SeqId × SeqView)
  deriving DecidableEq

namespace Heap

def obj (h : Heap) (ref : SeqDataRef) : SequenceData := h.seqData.getD ref default

def outputTokenIds (h : Heap) (ref : SeqDataRef) : List TokenId := h.arrays.getD (h.obj ref).outputTokenIds []

def cachedAllTokenIds (h : Heap) (ref : SeqDataRef) : List TokenId := h.caches.getD (h.obj ref).cachedAllTokenIds []

def newAppendedTokens (h : Heap) (ref : SeqDataRef) : List TokenId :=
  h.appended.getD (h.obj ref).newAppendedTokens []

def view (h : Heap) (ref : SeqDataRef) : SeqView where
  promptTokenIds := (h.obj ref).promptTokenIds
  outputTokenIds := h.outputTokenIds ref
  cachedAllTokenIds := h.cachedAllTokenIds ref
  cumulativeLogprob := (h.obj ref).cumulativeLogprob
  numComputedTokens := (h.obj ref).numComputedTokens
  stage := (h.obj ref).stage

def groupView (h : Heap) (group : SequenceGroupMetadata) : GroupView where
  requestId := group.requestId
  isPrompt := group.isPrompt
  seqs := group.seqData.map fun entry => (entry.1, h.view entry.2)

end Heap

def getLen (ref : SeqDataRef) : Method Heap ℤ := do
  let h ← get
  return (h.outputTokenIds ref).length + (h.obj ref).promptTokenIds.length

def copySeqData (ref : SeqDataRef) : Method Heap SeqDataRef := do
  let h ← get
  set { h with seqData := h.seqData ++ [h.obj ref] }
  return h.seqData.length

/-- The setter of `output_token_ids`: a new array, and a new list for all tokens. -/
def setOutputTokenIds (ref : SeqDataRef) (ids : List TokenId) : Method Heap Unit := do
  modify fun h =>
    { h with
      arrays := h.arrays ++ [ids]
      seqData := h.seqData.modify ref fun data => { data with outputTokenIds := h.arrays.length } }
  -- `_update_cached_all_tokens`
  modify fun h =>
    { h with
      caches := h.caches ++ [(h.obj ref).promptTokenIds ++ h.outputTokenIds ref]
      seqData := h.seqData.modify ref fun data => { data with cachedAllTokenIds := h.caches.length } }

/-- The three lists are extended in place. -/
def appendTokenId (ref : SeqDataRef) (tokenId : TokenId) (logprob : ℚ) : Method Heap Unit :=
  modify fun h =>
    { arrays := h.arrays.modify (h.obj ref).outputTokenIds (· ++ [tokenId])
      appended := h.appended.modify (h.obj ref).newAppendedTokens (· ++ [tokenId])
      caches := h.caches.modify (h.obj ref).cachedAllTokenIds (· ++ [tokenId])
      seqData := h.seqData.modify ref fun data =>
        { data with cumulativeLogprob := data.cumulativeLogprob + logprob } }

def updateNumComputedTokens (ref : SeqDataRef) (numNewComputedTokens : ℤ) : Method Heap Unit := do
  modify fun h =>
    { h with
      seqData := h.seqData.modify ref fun data =>
        { data with numComputedTokens := data.numComputedTokens + numNewComputedTokens } }
  let len ← getLen ref
  let h ← get
  assertThat ((h.obj ref).numComputedTokens ≤ len)
  if len - (h.obj ref).numComputedTokens = 0 then
    modify fun h => { h with seqData := h.seqData.modify ref fun data => { data with stage := .decode } }

/-- A copy of the sequences of a dictionary, each with the output tokens that `keep` leaves. -/
def copyEntries (keep : List TokenId → List TokenId) (after : SeqDataRef → Method Heap Unit) :
    List (SeqId × SeqDataRef) → Method Heap (List (SeqId × SeqDataRef))
  | [] => pure []
  | (seqId, old) :: rest => do
    let new ← copySeqData old
    let h ← get
    setOutputTokenIds new (keep (h.outputTokenIds old))
    after new
    let others ← copyEntries keep after rest
    return (seqId, new) :: others

def shallowCopySeqGroupMetadata (group : SequenceGroupMetadata) : Method Heap SequenceGroupMetadata := do
  let seqData ← copyEntries id (fun _ => pure ()) group.seqData
  return { group with seqData }

def copySeqMetadataExcludingLastToken (group : SequenceGroupMetadata) (seqIdsToCopy : Finset SeqId) :
    Method Heap SequenceGroupMetadata := do
  let seqData ← copyEntries List.dropLast (updateNumComputedTokens · (-1))
    (group.seqData.filter fun entry => entry.1 ∈ seqIdsToCopy)
  return { group with seqData }

def hasBonusTokens (bonus : Finset SeqId) (group : SequenceGroupMetadata) : Bool :=
  group.seqData.any fun entry => entry.1 ∈ bonus

/-- The loop of `_expand_execute_model_request`: the groups of the expanded request, and the indices of the original
ones. -/
def expandFrom (bonus : Finset SeqId) :
    List SequenceGroupMetadata → List SequenceGroupMetadata → List ℕ →
      Method Heap (List SequenceGroupMetadata × List ℕ)
  | [], updated, indices => pure (updated, indices)
  | group :: rest, updated, indices => do
    let updated ← if hasBonusTokens bonus group then do
        let copy ← copySeqMetadataExcludingLastToken group bonus
        pure (updated ++ [copy])
      else pure updated
    let original ← shallowCopySeqGroupMetadata group
    let updated := updated ++ [original]
    expandFrom bonus rest updated (indices ++ [updated.length - 1])

def lookUp {κ α : Type} [DecidableEq κ] (key : κ) (entries : List (κ × α)) : Method Heap α :=
  match entries.lookup key with
  | some value => pure value
  | none => throw .keyError

def itemAt {α : Type} (xs : List α) (index : ℕ) : Method Heap α :=
  match xs[index]? with
  | some x => pure x
  | none => throw .indexError

def lastOutputToken (group : SequenceGroupMetadata) : Method Heap TokenId := do
  match group.seqData with
  | [] => throw (.runtimeError "StopIteration")
  | (_, ref) :: _ => do
    let h ← get
    match (h.outputTokenIds ref).getLast? with
    | some token => pure token
    | none => throw .indexError

/-- The inner loop of `_append_new_tokens`, on the samples of group `index`; it returns the new `count`. -/
def appendSamples (groups : List SequenceGroupMetadata) (indices : List ℕ) (index : ℕ)
    (group : SequenceGroupMetadata) : ℕ → List SequenceOutput → Method Heap ℕ
  | count, [] => pure count
  | count, seqOutput :: rest => do
    let seq ← lookUp seqOutput.parentSeqId group.seqData
    let tokenLogprob ← lookUp seqOutput.outputToken seqOutput.logprobs
    let original ← itemAt indices count
    if index ≠ original then
      let bonusSeqMetadata ← itemAt groups original
      let tokenId ← lastOutputToken bonusSeqMetadata
      appendTokenId seq tokenId tokenLogprob
      updateNumComputedTokens seq 1
      appendSamples groups indices index group count rest
    else
      appendTokenId seq seqOutput.outputToken tokenLogprob
      updateNumComputedTokens seq 1
      appendSamples groups indices index group (count + 1) rest

/-- The outer loop, on the groups with their outputs from group `index` on. -/
def appendFrom (groups : List SequenceGroupMetadata) (indices : List ℕ) :
    ℕ → ℕ → List (SequenceGroupMetadata × GroupOutput) → Method Heap Unit
  | _, _, [] => pure ()
  | index, count, (group, output) :: rest => do
    let count ← appendSamples groups indices index group count output.samples
    appendFrom groups indices (index + 1) count rest

/-- `_append_new_tokens`; the groups that have an output are no prompts any more. -/
def appendNewTokens (outputs : List GroupOutput) (groups : List SequenceGroupMetadata) (indices : List ℕ) :
    Method Heap (List SequenceGroupMetadata) := do
  appendFrom groups indices 0 0 (groups.zip outputs)
  return groups.mapIdx fun i group => if i < outputs.length then { group with isPrompt := false } else group

structure Pass where
  given : List GroupView
  output : SamplerOutput

/-- The passes, from number `pass` on, and the groups after them. The worker's model is called with the number of the
pass and what it can read of the groups. -/
def passes (executeModel : ℕ → List GroupView → List SamplerOutput) (indices : List ℕ) :
    ℕ → ℕ → List SequenceGroupMetadata → Method Heap (List Pass × List SequenceGroupMetadata)
  | _, 0, groups => pure ([], groups)
  | pass, n + 1, groups => do
    let h ← get
    let given := groups.map h.groupView
    match executeModel pass given with
    | [output] => do
      let groups ← appendNewTokens output.outputs groups indices
      let (later, groups) ← passes executeModel indices (pass + 1) n groups
      return ({ given, output } :: later, groups)
    | _ => throw .assertionError

/-- `tensor[indices]`. The tensor made of an empty list has no integer type, and is refused as an index. -/
def readRows {α : Type} (rows : List α) (indices : List ℕ) : Option (List α) :=
  if indices = [] then none else IndexedRows.gather rows indices

def filterModelOutput (indices : List ℕ) (output : SamplerOutput) : Option SamplerOutput := do
  let outputs ← if output.outputs.length > 0 then IndexedRows.gather output.outputs indices else some []
  let sampledTokenProbs ← output.sampledTokenProbs.mapM (readRows · indices)
  let logprobs ← output.logprobs.mapM (readRows · indices)
  let sampledTokenIds ← output.sampledTokenIds.mapM (readRows · indices)
  return { outputs, sampledTokenProbs, logprobs, sampledTokenIds }

def raiseIfUnsupported (request : ExecuteModelRequest) : Method Heap Unit := do
  if request.cacheOperations then throw .notImplementedError
  if request.seqGroupMetadataList.any (·.seqData.length ≠ 1) then throw .notImplementedError

structure Sampled where
  outputs : List SamplerOutput
  passes : List Pass
  groups : List SequenceGroupMetadata

def samplerOutput (executeModel : ℕ → List GroupView → List SamplerOutput) (request : ExecuteModelRequest)
    (sampleLen : ℕ) (bonus : Finset SeqId) : Method Heap Sampled := do
  raiseIfUnsupported request
  let (groups, indices) ← expandFrom bonus request.seqGroupMetadataList [] []
  let (passes, groups) ← passes executeModel indices 0 sampleLen groups
  match passes.mapM fun pass => filterModelOutput indices pass.output with
  | some outputs => return { outputs, passes, groups }
  | none => throw .indexError

end Vllm.SpecDecode.MultiStep
