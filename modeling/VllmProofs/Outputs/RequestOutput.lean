import VllmProofs.Frontend.StreamedText

/-!
The outputs that the V0 engine makes of a sequence group: `RequestOutput.from_seq_group` of `vllm/outputs.py`,
and `ParallelSampleSequenceGroup` of `vllm/sequence.py`, which splits a request for several sequences. A
`RequestOutput` is taken as it is when it is returned. Metrics and the inputs of encoders are left out.
-/

namespace Vllm.Outputs
open Frontend (Text StopReason FinishReason RequestOutputKind readDelta)

structure Logprob where
  logprob : ℚ
  rank : Option ℕ := none
  decodedToken : Option Text := none
  deriving DecidableEq

abbrev TokenLogprobs := Dict TokenId Logprob

structure SamplingParams where
  n : ℕ := 1
  realN : Option ℕ := none
  outputKind : RequestOutputKind := .cumulative
  logprobs : Option ℕ := none
  outputTextBufferLength : ℕ := 0

structure Sequence where
  promptTokenIds : List TokenId
  outputTokenIds : List TokenId := []
  cumulativeLogprob : ℚ := 0
  outputLogprobs : List TokenLogprobs := []
  outputText : Text := []
  status : SequenceStatus := .waiting
  stopReason : Option StopReason := none
  lastOutputTokenIdsOffset : ℕ := 0
  lastOutputTextOffset : ℕ := 0

/-- A single token is returned as it is. -/
inductive TokenIds where
  | one (tokenId : TokenId)
  | many (tokenIds : List TokenId)

structure CompletionOutput where
  index : ℕ
  text : Text
  tokenIds : List TokenId
  cumulativeLogprob : Option ℚ
  logprobs : Option (List TokenLogprobs)
  finishReason : Option FinishReason
  stopReason : Option StopReason

structure RequestOutput where
  requestId : String
  prompt : Option Text
  promptTokenIds : Option (List TokenId)
  outputs : List CompletionOutput
  finished : Bool

def getFinishedReason : SequenceStatus → Option FinishReason
  | .finishedStopped => some .stop
  | .finishedLengthCapped => some .length
  | .finishedAborted => some .abort
  | .finishedIgnored => some .length
  | .waiting | .running | .swapped => none

namespace TokenIds

def toList : TokenIds → List TokenId
  | one tokenId => [tokenId]
  | many tokenIds => tokenIds

/-- `1 if isinstance(output_token_ids, int) else len(output_token_ids)` -/
def numOutputTokens : TokenIds → ℕ
  | one _ => 1
  | many tokenIds => tokenIds.length

end TokenIds

namespace Sequence

def isFinished (seq : Sequence) : Bool := seq.status.isFinished

def allTokenIds (seq : Sequence) : List TokenId := seq.promptTokenIds ++ seq.outputTokenIds

def getOutputLen (seq : Sequence) : ℕ := seq.outputTokenIds.length

def appendTokenId (seq : Sequence) (tokenId : TokenId) (logprobs : TokenLogprobs) : Option Sequence := do
  let own ← logprobs.get? tokenId
  return { seq with
    outputLogprobs := seq.outputLogprobs ++ [logprobs]
    outputTokenIds := seq.outputTokenIds ++ [tokenId]
    cumulativeLogprob := seq.cumulativeLogprob + own.logprob }

def getOutputTextToReturn (bufferLength : ℕ) (delta : Bool) (seq : Sequence) : Text × Sequence :=
  let truncate := bufferLength ≠ 0 ∧ ¬seq.isFinished
  let length := if truncate then seq.outputText.length - bufferLength else seq.outputText.length
  if ¬delta then (seq.outputText.take length, seq)
  else
    let read := readDelta seq.outputText seq.lastOutputTextOffset length
    (read.1, { seq with lastOutputTextOffset := read.2 })

def getOutputTokenIdsToReturn (delta : Bool) (seq : Sequence) : Option (TokenIds × Sequence) :=
  if ¬delta then some (.many seq.outputTokenIds, seq)
  else
    let numNewTokens : ℤ := seq.getOutputLen - seq.lastOutputTokenIdsOffset
    let read := { seq with lastOutputTokenIdsOffset := seq.getOutputLen }
    if numNewTokens = 1 then (PySlice.get? seq.allTokenIds (-1)).map fun tokenId => (.one tokenId, read)
    else if numNewTokens = 0 then some (.many [], read)
    else some (.many (PySlice.sliceFrom seq.allTokenIds (-numNewTokens)), read)

end Sequence

structure Round where
  output : CompletionOutput
  seq : Sequence
  includePrompt : Bool

/-- The round for the `i`-th sequence; `cached` are the outputs that are used again, if they are. -/
def round (params : SamplingParams) (cached : Option (List CompletionOutput)) (i : ℕ) (includePrompt : Bool)
    (seq : Sequence) : Option Round := do
  let delta : Bool := params.outputKind = .delta
  let (text, seq) := seq.getOutputTextToReturn params.outputTextBufferLength delta
  let (outputTokenIds, seq) ← seq.getOutputTokenIdsToReturn delta
  let numOutputTokens := outputTokenIds.numOutputTokens
  let logprobs := params.logprobs.map fun _ =>
    if delta ∧ seq.outputLogprobs ≠ [] then PySlice.sliceFrom seq.outputLogprobs (-numOutputTokens)
    else seq.outputLogprobs
  let output : CompletionOutput := {
    index := i
    text
    tokenIds := outputTokenIds.toList
    cumulativeLogprob := params.logprobs.map fun _ => seq.cumulativeLogprob
    logprobs
    finishReason := getFinishedReason seq.status
    stopReason := seq.stopReason }
  -- a cached output must be at its index, and everything else is set again
  if (cached.bind (·[i]?)).any fun output => output.index ≠ i then none
  else
    return { output, seq, includePrompt := includePrompt && !(delta && numOutputTokens < seq.getOutputLen) }

structure Built where
  outputs : List CompletionOutput
  seqs : List Sequence
  includePrompt : Bool

/-- The loop over the sequences at the given places. -/
def build (params : SamplingParams) (cached : Option (List CompletionOutput)) :
    List ℕ → Built → Option Built
  | [], built => some built
  | place :: rest, built => do
    let seq ← built.seqs[place]?
    let round ← round params cached built.outputs.length built.includePrompt seq
    build params cached rest {
      outputs := built.outputs ++ [round.output]
      seqs := built.seqs.set place round.seq
      includePrompt := round.includePrompt }

/-- A request for one or more sequences. If there are more, each has a group of its own. -/
structure Request where
  requestId : String
  prompt : Option Text
  params : SamplingParams
  useCache : Bool
  seqs : List Sequence
  /-- `to_be_finished`, the sequences whose groups are not finished. -/
  toBeFinished : List ℕ
  outputProduced : Bool := false
  /-- The sequences of the assembled group. -/
  assembled : List ℕ
  /-- The outputs of `cached_request_output`. -/
  cachedOutputs : Option (List CompletionOutput) := none
  aborted : Bool := false
  /-- The outputs that were made, latest first, with the sequences as they were. -/
  made : List (RequestOutput × List Sequence) := []
  /-- The sequences whose groups have been finished when an output was to be made. -/
  concluded : List ℕ := []

inductive RequestEvent where
  /-- A token is sampled. -/
  | token (i : ℕ) (tokenId : TokenId) (logprobs : TokenLogprobs)
  /-- What the detokenizer and the stop checker make of the sequence. -/
  | check (i : ℕ) (outputText : Text) (status : SequenceStatus) (stopReason : Option StopReason)
  /-- `from_seq_group` is called for the group of a sequence. -/
  | output (i : ℕ)
  | abort

namespace Request

def start (requestId : String) (prompt : Option Text) (promptTokenIds : List TokenId) (params : SamplingParams)
    (useCache : Bool) : Request where
  requestId
  prompt
  params
  useCache
  seqs := List.replicate params.n { promptTokenIds }
  toBeFinished := List.range params.n
  assembled := List.range params.n

def parallel (r : Request) : Bool := 1 < r.params.n

/-- `maybe_assemble_group`: whether there is a group to make an output of. `next(iter(..))` may raise. -/
def maybeAssembleGroup (r : Request) (i : ℕ) (finished : Bool) : Option (Bool × Request) :=
  if r.params.outputKind = .delta then
    r.toBeFinished.head?.map fun firstRemaining => (i = firstRemaining, r)
  else if r.toBeFinished.length = 1 ∧ i ∈ r.toBeFinished ∧ finished then
    if r.outputProduced then some (false, r)
    else
      let topN := match r.params.realN with
        | none => r.assembled
        | some realN =>
          let n := if realN = 0 then r.params.n else realN
          let cumulativeLogprob place := (r.seqs[place]?.map Sequence.cumulativeLogprob).getD 0
          (r.assembled.insertionSort fun x y => cumulativeLogprob y ≤ cumulativeLogprob x).take n
      some (true, { r with outputProduced := true, assembled := topN })
  else some (false, r)

/-- `finish_seq`, for a group that is finished; it may raise a `KeyError`. -/
def finishSeq (r : Request) (i : ℕ) (finished : Bool) : Option Request :=
  if ¬finished then some r
  else if i ∈ r.toBeFinished then some { r with toBeFinished := r.toBeFinished.erase i }
  else none

/-- `from_seq_group` of the assembled group, or of the only one. -/
def makeOutput (r : Request) : Option Request := do
  let finished := r.assembled.all fun place => (r.seqs[place]?.map Sequence.isFinished).getD false
  if r.params.outputKind = .finalOnly ∧ ¬finished then return r
  let cached := if r.useCache then some (r.cachedOutputs.getD []) else none
  let built ← build r.params cached r.assembled { outputs := [], seqs := r.seqs, includePrompt := true }
  let output : RequestOutput := {
    requestId := r.requestId
    prompt := if built.includePrompt then r.prompt else none
    promptTokenIds := if built.includePrompt then r.seqs.head?.map Sequence.promptTokenIds else none
    outputs := built.outputs
    finished }
  return { r with
    seqs := built.seqs
    cachedOutputs := if r.useCache then some built.outputs else r.cachedOutputs
    made := (output, built.seqs) :: r.made }

def fromSeqGroup (r : Request) (i : ℕ) : Option Request := do
  let seq ← r.seqs[i]?
  let finished := seq.isFinished
  let r := { r with concluded := if finished then r.concluded ++ [i] else r.concluded }
  if r.parallel then
    let (assembled, r) ← r.maybeAssembleGroup i finished
    let r ← r.finishSeq i finished
    if assembled then r.makeOutput else return r
  else r.makeOutput

def step (r : Request) : RequestEvent → Option Request
  | .token i tokenId logprobs => do
    let seq ← r.seqs[i]?
    if seq.isFinished then none
    else
      let seq ← seq.appendTokenId tokenId logprobs
      return { r with seqs := r.seqs.set i seq }
  | .check i outputText status stopReason => do
    let seq ← r.seqs[i]?
    if seq.isFinished then none
    else return { r with seqs := r.seqs.set i { seq with outputText, status, stopReason } }
  -- the engine makes no outputs of a group that was aborted
  | .output i => if r.aborted then none else r.fromSeqGroup i
  | .abort =>
    some { r with
      aborted := true
      seqs := r.seqs.map fun seq => if seq.isFinished then seq else { seq with status := .finishedAborted } }

abbrev Reaches (r₀ : Request) (history : List RequestEvent) (r : Request) : Prop :=
  Run (fun r event r' => r.step event = some r') r₀ history r

end Request

/-- The token ids of a sequence in the outputs, one after the other. -/
def returnedTokenIds (i : ℕ) : List (RequestOutput × List Sequence) → List TokenId
  | [] => []
  | m :: earlier => returnedTokenIds i earlier ++ (m.1.outputs[i]?.map CompletionOutput.tokenIds).getD []

def returnedLogprobs (i : ℕ) : List (RequestOutput × List Sequence) → List TokenLogprobs
  | [] => []
  | m :: earlier => returnedLogprobs i earlier ++ ((m.1.outputs[i]?.bind CompletionOutput.logprobs).getD [])

/-- The outputs hold the output tokens of each sequence, and their logprobs, each once. -/
def Exact (made : List (RequestOutput × List Sequence)) (seqs : List Sequence) : Prop :=
  ∀ i seq, seqs[i]? = some seq →
    returnedTokenIds i made = seq.outputTokenIds ∧ returnedLogprobs i made = seq.outputLogprobs

/-- After each output everything has been returned, and nothing is left when the last group is finished. -/
structure Request.Delivered (r : Request) : Prop where
  made : ∀ m earlier, m :: earlier <:+ r.made → Exact (m :: earlier) m.2
  complete : (∀ i < r.params.n, i ∈ r.concluded) → Exact r.made r.seqs

/-- Whether a call for the group of sequence `i` makes an output of the whole request. -/
def Request.Makes (r : Request) (i : ℕ) : Prop := r.parallel = true → r.toBeFinished.head? = some i

instance (r : Request) (i : ℕ) : Decidable (r.Makes i) := inferInstanceAs (Decidable (_ → _))

/-- When an output is made, each sequence has new tokens, or has none at all. -/
def Request.Advanced (r : Request) : RequestEvent → Prop
  | .output i => r.Makes i →
    ∀ seq ∈ r.seqs, seq.lastOutputTokenIdsOffset = seq.getOutputLen → seq.outputTokenIds = []
  | _ => True

instance (r : Request) (event : RequestEvent) : Decidable (r.Advanced event) := by
  cases event <;> unfold Request.Advanced <;> infer_instance

end Vllm.Outputs
