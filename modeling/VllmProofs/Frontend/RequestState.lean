import VllmProofs.Base
import VllmProofs.Data.Dict
import VllmProofs.Data.PySlice

/-!
What the frontend of the V1 engine keeps of a request, and what it makes of the outputs of the engine core:
`vllm/v1/engine/detokenizer.py`, `logprobs.py`, `parallel_sampling.py` and `RequestState` of
`output_processor.py`. Statistics, LoRA names and cumulative logprobs are left out.
-/

namespace Vllm.Frontend

abbrev RequestId := String
abbrev Text := List Char

/-- The text that a token adds, when it is the last of these; tokenizers are not part of the repository. -/
class Tokenizer where
  newText : List TokenId → Text

inductive FinishReason where
  | stop | length | abort
  deriving DecidableEq, Repr

inductive StopReason where
  | tokenId (tokenId : TokenId)
  | text (text : Text)
  deriving DecidableEq, Repr

inductive RequestOutputKind where
  | cumulative | delta | finalOnly
  deriving DecidableEq, Repr

structure SamplingParams where
  n : ℕ := 1
  outputKind : RequestOutputKind := .cumulative
  logprobs : Option ℕ := none
  promptLogprobs : Option ℕ := none
  stop : List Text := []
  includeStopStrInOutput : Bool := false
  detokenize : Bool := true

structure EngineCoreRequest where
  requestId : RequestId
  prompt : Option Text := none
  promptTokenIds : List TokenId
  samplingParams : SamplingParams

structure EngineCoreOutput (L : Type) where
  requestId : RequestId
  newTokenIds : List TokenId
  newLogprobs : Option (List L) := none
  newPromptLogprobs : Option (List L) := none
  finishReason : Option FinishReason := none
  stopReason : Option StopReason := none

structure CompletionOutput (L : Type) where
  index : ℕ
  text : Text
  tokenIds : List TokenId
  logprobs : Option (List L)
  finishReason : Option FinishReason
  stopReason : Option StopReason
  deriving DecidableEq

structure RequestOutput (L : Type) where
  requestId : RequestId
  prompt : Option Text
  promptTokenIds : List TokenId
  promptLogprobs : Option (List (Option L))
  outputs : List (CompletionOutput L)
  finished : Bool
  deriving DecidableEq

def extendLogprobs {L : Type} (logprobs : Option (List L)) : List L → Option (Option (List L))
  | [] => some logprobs
  | new => logprobs.map fun logprobs => some (logprobs ++ new)

/-- `RequestOutput.add`, which may fail an assertion or raise an `IndexError`. -/
def RequestOutput.add {L : Type} (self nextOutput : RequestOutput L) : Option (RequestOutput L) :=
  match self.outputs, nextOutput.outputs with
  | completion :: others, nextCompletion :: _ => do
    let logprobs ← extendLogprobs completion.logprobs (nextCompletion.logprobs.getD [])
    return {
      requestId := self.requestId
      prompt := nextOutput.prompt
      promptTokenIds := nextOutput.promptTokenIds
      promptLogprobs := nextOutput.promptLogprobs
      finished := self.finished || nextOutput.finished
      outputs := {
        completion with
        text := completion.text ++ nextCompletion.text
        tokenIds := completion.tokenIds ++ nextCompletion.tokenIds
        logprobs } :: others }
  | _, _ => none

def find (text sub : Text) (start : ℤ) : Option ℕ :=
  (List.range (text.length + 1)).find? fun i => PySlice.bound text.length start ≤ i ∧ sub <+: text.drop i

/-- `StopChecker.check_stop_strings`: the stop string, and where the text is to be cut off, if it is. -/
def checkStopStrings (outputText : Text) (newCharCount : ℕ) (stop : List Text) (includeInOutput : Bool) :
    Option (Text × Option ℕ) :=
  if newCharCount = 0 then none
  else stop.findSome? fun stopStr =>
    (find outputText stopStr (1 - newCharCount - stopStr.length)).map fun stopIndex =>
      if includeInOutput then
        let stopIndex := stopIndex + stopStr.length
        (stopStr, if outputText.length ≤ stopIndex then none else some stopIndex)
      else (stopStr, some stopIndex)

structure IncrementalDetokenizer where
  tokenIds : List TokenId
  outputText : Text := []
  promptLen : ℕ := 0
  stop : List Text := []
  includeStopStrInOutput : Bool := false
  /-- `tokenizer is not None` -/
  hasTokenizer : Bool := false
  stopBufferLength : ℕ := 0
  lastOutputTextOffset : ℕ := 0

namespace IncrementalDetokenizer

def outputTokenIds (s : IncrementalDetokenizer) : List TokenId :=
  if s.promptLen = 0 then s.tokenIds else s.tokenIds.drop s.promptLen

def fromNewRequest (request : EngineCoreRequest) : IncrementalDetokenizer :=
  let params := request.samplingParams
  if params.detokenize then
    { tokenIds := request.promptTokenIds
      promptLen := request.promptTokenIds.length
      stop := params.stop
      includeStopStrInOutput := params.includeStopStrInOutput
      hasTokenizer := true
      stopBufferLength := if params.stop ≠ [] ∧ ¬ params.includeStopStrInOutput then
        (params.stop.map List.length).foldl max 0 - 1 else 0 }
  else { tokenIds := [] }

/-- The texts of new tokens, one after the other. -/
def decode [Tokenizer] (tokenIds : List TokenId) : List TokenId → Text
  | [] => []
  | newTokenId :: rest => Tokenizer.newText (tokenIds ++ [newTokenId]) ++ decode (tokenIds ++ [newTokenId]) rest

/-- The matched stop string is returned. -/
def update [Tokenizer] (newTokenIds : List TokenId) (s : IncrementalDetokenizer) :
    Option Text × IncrementalDetokenizer :=
  if s.hasTokenizer then
    let decodedText := decode s.tokenIds newTokenIds
    let outputText := s.outputText ++ decodedText
    let s := { s with
      tokenIds := s.tokenIds ++ newTokenIds
      outputText }
    match checkStopStrings outputText decodedText.length s.stop s.includeStopStrInOutput with
    | none => (none, s)
    | some (stopString, none) => (some stopString, s)
    | some (stopString, some truncateTo) => (some stopString, { s with outputText := outputText.take truncateTo })
  else (none, { s with tokenIds := s.tokenIds ++ newTokenIds })

def getNextOutputText (finished delta : Bool) (s : IncrementalDetokenizer) : Text × IncrementalDetokenizer :=
  let bufferLength := if finished then 0 else s.stopBufferLength
  let length := s.outputText.length - bufferLength
  if ¬ delta then (s.outputText.take length, s)
  else if s.lastOutputTextOffset < length then
    ((s.outputText.take length).drop s.lastOutputTextOffset, { s with lastOutputTextOffset := length })
  else ([], s)

end IncrementalDetokenizer

structure LogprobsProcessor (L : Type) where
  logprobs : Option (List L)
  promptLogprobs : Option (List (Option L))

namespace LogprobsProcessor

variable {L : Type}

def fromNewRequest (request : EngineCoreRequest) : LogprobsProcessor L where
  logprobs := request.samplingParams.logprobs.map fun _ => []
  promptLogprobs := request.samplingParams.promptLogprobs.map fun _ => [none]

/-- What the engine core sends is appended; an assertion fails if there is no list. -/
def append {α : Type} (logprobs : Option (List α)) : Option (List α) → Option (Option (List α))
  | none => some logprobs
  | some new => logprobs.map fun logprobs => some (logprobs ++ new)

def updateFromOutput (output : EngineCoreOutput L) (s : LogprobsProcessor L) : Option (LogprobsProcessor L) := do
  let logprobs ← append s.logprobs output.newLogprobs
  let promptLogprobs ← append s.promptLogprobs (output.newPromptLogprobs.map (List.map some))
  return { logprobs, promptLogprobs }

def popPromptLogprobs (s : LogprobsProcessor L) : Option (List (Option L)) × LogprobsProcessor L :=
  (s.promptLogprobs, { s with promptLogprobs := s.promptLogprobs.map fun _ => [] })

end LogprobsProcessor

structure ParentRequest (L : Type) where
  requestId : RequestId
  /-- `sampling_params.n` -/
  n : ℕ
  /-- A set. -/
  childRequests : List RequestId := []
  outputAggregator : Option (RequestOutput L) := none

def childRequestId (index : ℕ) (requestId : RequestId) : RequestId := toString index ++ "_" ++ requestId

/-- The parameters of a child; the seed, in which children may differ, is left out. -/
def SamplingParams.forChild (params : SamplingParams) : SamplingParams := { params with n := 1 }

structure RequestState (L : Type) where
  requestId : RequestId
  requestIndex : ℕ
  outputKind : RequestOutputKind
  prompt : Option Text
  promptTokenIds : List TokenId
  logprobsProcessor : LogprobsProcessor L
  detokenizer : IncrementalDetokenizer
  isPrefilling : Bool := true

structure Processed (L : Type) where
  state : RequestState L
  parentReq : Option (ParentRequest L)
  requestOutput : Option (RequestOutput L)
  finishReason : Option FinishReason

namespace RequestState

variable {L : Type}

def fromNewRequest (request : EngineCoreRequest) (requestIndex : ℕ) : RequestState L where
  requestId := request.requestId
  requestIndex
  outputKind := request.samplingParams.outputKind
  prompt := request.prompt
  promptTokenIds := request.promptTokenIds
  logprobsProcessor := .fromNewRequest request
  detokenizer := .fromNewRequest request

def newRequestOutput (requestId : RequestId) (finished : Bool) (s : RequestState L) :
    RequestOutput L × RequestState L :=
  let output (promptLogprobs : Option (List (Option L))) : RequestOutput L :=
    { requestId
      prompt := s.prompt
      promptTokenIds := s.promptTokenIds
      promptLogprobs
      outputs := []
      finished }
  if s.outputKind = .delta then
    let (promptLogprobs, logprobsProcessor) := s.logprobsProcessor.popPromptLogprobs
    (output promptLogprobs, { s with logprobsProcessor })
  else (output s.logprobsProcessor.promptLogprobs, s)

def newCompletionOutput (tokenIds : List TokenId) (finishReason : Option FinishReason) (stopReason : Option StopReason)
    (s : RequestState L) : CompletionOutput L × RequestState L :=
  let finished := finishReason.isSome
  let delta : Bool := s.outputKind = .delta
  let (text, detokenizer) := s.detokenizer.getNextOutputText finished delta
  let logprobs := s.logprobsProcessor.logprobs
  ({ index := s.requestIndex
     text
     tokenIds := if delta then tokenIds else detokenizer.outputTokenIds
     logprobs := if delta then logprobs.map (PySlice.sliceFrom · (-tokenIds.length)) else logprobs
     finishReason
     stopReason := if finished then stopReason else none },
    { s with detokenizer })

/-- `ParentRequest.make_request_output`: with `final_only` the completions are collected. -/
def makeParentOutput (finalOnly finished : Bool) (completionOutput : CompletionOutput L) (parent : ParentRequest L)
    (s : RequestState L) : Option (RequestOutput L) × ParentRequest L × RequestState L :=
  let (requestOutput, s) := match parent.outputAggregator with
    | some requestOutput => (requestOutput, s)
    | none => s.newRequestOutput parent.requestId finished
  let outputs := requestOutput.outputs ++ [completionOutput]
  if finalOnly ∧ outputs.length ≠ parent.n then
    (none, { parent with outputAggregator := some { requestOutput with outputs } }, s)
  else
    let outputs := outputs.insertionSort fun x y => x.index ≤ y.index
    (some { requestOutput with outputs }, { parent with outputAggregator := none }, s)

def makeRequestOutput (newTokenIds : List TokenId) (finishReason : Option FinishReason)
    (stopReason : Option StopReason) (parentReq : Option (ParentRequest L)) (s : RequestState L) :
    Option (RequestOutput L) × Option (ParentRequest L) × RequestState L :=
  let finished := finishReason.isSome
  let finalOnly : Bool := s.outputKind = .finalOnly
  if ¬ finished ∧ (s.isPrefilling ∨ finalOnly) then (none, parentReq, s)
  else
    let (completionOutput, s) := s.newCompletionOutput newTokenIds finishReason stopReason
    match parentReq with
    | some parent =>
      let (requestOutput, parent, s) := s.makeParentOutput finalOnly finished completionOutput parent
      (requestOutput, some parent, s)
    | none =>
      let (requestOutput, s) := s.newRequestOutput s.requestId finished
      (some { requestOutput with outputs := [completionOutput] }, none, s)

/-- Why the request ends, if it does; the detokenizer may have found a stop string. -/
def reasonsFor (stopString : Option Text) (output : EngineCoreOutput L) : Option FinishReason × Option StopReason :=
  if stopString.isSome ∧ output.finishReason ≠ some .stop then (some .stop, stopString.map .text)
  else (output.finishReason, output.stopReason)

/-- A round of the loop of `process_outputs`, for a request that is known; it may fail an assertion. -/
def processOutput [Tokenizer] (output : EngineCoreOutput L) (parentReq : Option (ParentRequest L))
    (s : RequestState L) : Option (Processed L) := do
  let detokenized := s.detokenizer.update output.newTokenIds
  let reasons := reasonsFor detokenized.1 output
  let logprobsProcessor ← s.logprobsProcessor.updateFromOutput output
  let s := { s with
    isPrefilling := output.newTokenIds.isEmpty
    detokenizer := detokenized.2
    logprobsProcessor }
  let made := s.makeRequestOutput output.newTokenIds reasons.1 reasons.2 parentReq
  return {
    state := made.2.2
    parentReq := made.2.1
    requestOutput := made.1
    finishReason := reasons.1 }

end RequestState
end Vllm.Frontend
