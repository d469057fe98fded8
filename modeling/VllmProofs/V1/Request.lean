import VllmProofs.Base
import VllmProofs.Data.Dict
import VllmProofs.Data.PySlice
import VllmProofs.Data.Wp

/-!
The requests of the V1 engine, `vllm/v1/request.py`, and what its methods raise.
-/

namespace Vllm.V1
open Exec

abbrev RequestId := ℕ
abbrev MmHash := ℕ
/-- The identity of a `MultiModalKwargs` object. -/
abbrev MmInput := ℕ
/-- A `Request` object. Its id can be given again once it has finished. -/
abbrev RequestRef := ℕ

inductive Assertion where
  -- block hashes, `FreeKVCacheBlockQueue`, `BlockPool` and `KVCacheManager`
  | startMmIdxInRange | freeListIsEmpty | refCntIsZero | enoughBlockHashes | prevBlockHasHash | blockHashIsNone
  | blockTokensAreFull | newComputedBlocksEmpty | numNewBlocksPositive | requestIsRunning
  -- `Scheduler`
  | numNewTokensPositive | atMostMaxLoras | withinTokenBudget | withinMaxNumSeqs
  | scheduledAreRunning | computedWithinTokens | statusIsFinished
  -- `GPUModelRunner` and `InputBatch`
  | reqIndexInBatch | withinMaxNumReqs | movedReqExists | swappedReqsExist | encoderSliceNonempty
  | encoderOutputCached
  -- the client and the server of the cache of inputs, and `RequestOutput.add`
  | mmInputsHaveHashes | mmInputIsCached | completionHasLogprobs
  deriving DecidableEq, Repr

inductive Raised where
  | assertionError (assertion : Assertion)
  | indexError
  | keyError
  | runtimeError (message : String)
  | valueError (message : String)
  deriving DecidableEq, Repr

/-- A method of an object of type `σ`. -/
abbrev Call (σ α : Type) := EStateM Raised σ α

def check {σ : Type} (assertion : Assertion) (p : Prop) [Decidable p] : Call σ Unit :=
  if p then pure () else throw (.assertionError assertion)

def getItem {σ α : Type} (raised : Raised) : Option α → Call σ α
  | none => throw raised
  | some a => pure a

structure PlaceholderRange where
  offset : ℕ
  length : ℕ
  deriving DecidableEq, Repr

def PlaceholderRange.stop (p : PlaceholderRange) : ℕ := p.offset + p.length

namespace Placeholders

theorem nonempty_nil : ∀ p ∈ ([] : List PlaceholderRange), 0 < p.length := by decide

theorem ordered_nil : ([] : List PlaceholderRange).Pairwise fun p q => p.stop ≤ q.offset := by decide

end Placeholders

structure Placeholders where
  ranges : List PlaceholderRange := []
  nonempty : ∀ p ∈ ranges, 0 < p.length := by first | exact Placeholders.nonempty_nil | decide
  ordered : ranges.Pairwise fun p q => p.stop ≤ q.offset := by first | exact Placeholders.ordered_nil | decide
  deriving DecidableEq

theorem Placeholders.sameInputs_nil : ([] : List MmInput).length = ([] : List PlaceholderRange).length := rfl

theorem Placeholders.sameHashes_nil : ([] : List MmHash) = [] ∨ ([] : List MmHash).length = ([] : List MmInput).length :=
  Or.inl rfl

inductive RequestStatus where
  | waiting | waitingForFsm | running | preempted
  | finishedStopped | finishedLengthCapped | finishedAborted | finishedIgnored
  deriving DecidableEq, Repr

def RequestStatus.isFinished : RequestStatus → Bool
  | .waiting | .waitingForFsm | .running | .preempted => false
  | .finishedStopped | .finishedLengthCapped | .finishedAborted | .finishedIgnored => true

/-- What does not concern the scheduler stands after `guidedDecoding`. -/
structure SamplingParams where
  maxTokens : ℕ
  ignoreEos : Bool := false
  stopTokenIds : List TokenId := []
  promptLogprobs : Option ℕ := none
  /-- `guided_decoding is not None` -/
  guidedDecoding : Bool := false
  presencePenalty : ℚ := 0
  frequencyPenalty : ℚ := 0
  repetitionPenalty : ℚ := 1
  temperature : ℚ := 1
  topP : ℚ := 1
  topK : ℤ := -1
  minP : ℚ := 0
  seed : Option ℤ := none
  minTokens : ℕ := 0
  logprobs : Option ℕ := none
  allStopTokenIds : List TokenId := []
  logitBias : Option (List (TokenId × ℚ)) := none
  allowedTokenIds : Option (List TokenId) := none
  badWordsTokenIds : List (List TokenId) := []
  deriving DecidableEq, Repr

inductive SamplingType where
  | greedy | random | randomSeed
  deriving DecidableEq, Repr

def samplingEps : ℚ := 1 / 100000

def SamplingParams.samplingType (params : SamplingParams) : SamplingType :=
  if params.temperature < samplingEps then .greedy
  else if params.seed ≠ none then .randomSeed
  else .random

structure Request where
  requestId : RequestId
  samplingParams : SamplingParams
  eosTokenId : Option TokenId := none
  /-- `lora_request.lora_int_id` -/
  loraRequest : Option ℕ := none
  status : RequestStatus := .waiting
  stopReason : Option TokenId := none
  /-- `structured_output_request.grammar` has been compiled. -/
  grammarIsReady : Bool := false
  promptTokenIds : List TokenId
  outputTokenIds : List TokenId := []
  specTokenIds : List TokenId := []
  numComputedTokens : ℕ := 0
  mmPositions : Placeholders := {}
  mmInputs : List MmInput := []
  mmHashes : List MmHash := []
  sameInputs : mmInputs.length = mmPositions.ranges.length := by
    first | exact Placeholders.sameInputs_nil | decide
  sameHashes : mmHashes = [] ∨ mmHashes.length = mmInputs.length := by
    first | exact Placeholders.sameHashes_nil | decide

namespace Request

def allTokenIds (r : Request) : List TokenId := r.promptTokenIds ++ r.outputTokenIds

def numTokens (r : Request) : ℕ := r.allTokenIds.length

def numTokensWithSpec (r : Request) : ℕ := r.allTokenIds.length + r.specTokenIds.length

def numOutputTokens (r : Request) : ℕ := r.outputTokenIds.length

def isFinished (r : Request) : Bool := r.status.isFinished

def hasEncoderInputs (r : Request) : Bool := 0 < r.mmInputs.length

/-- `get_num_encoder_tokens`; its assertion holds for the ids the scheduler asks for. -/
def getNumEncoderTokens (r : Request) (inputId : ℕ) : ℕ :=
  ((r.mmPositions.ranges[inputId]?).map PlaceholderRange.length).getD 0

def useStructuredOutput (r : Request) : Bool := r.samplingParams.guidedDecoding

def appendOutputTokenIds (r : Request) (tokenIds : List TokenId) : Request :=
  { r with outputTokenIds := r.outputTokenIds ++ tokenIds }

@[simp] theorem allTokenIds_append (r : Request) (tokenIds : List TokenId) :
    (r.appendOutputTokenIds tokenIds).allTokenIds = r.allTokenIds ++ tokenIds := by
  simp [allTokenIds, appendOutputTokenIds]

end Request

section
variable {σ α : Type} {s t : σ} {assertion : Assertion} {p : Prop} [Decidable p]
  {Q : Unit → σ → Prop} {E : Raised → σ → Prop}

@[simp] theorem wp_check :
    wp (check assertion p : Call σ Unit) Q E s ↔ (p → Q () s) ∧ (¬p → E (.assertionError assertion) s) := by
  unfold check
  split
  · simp_all
  · simp_all

theorem check_ok {u : Unit} (h : (check assertion p : Call σ Unit) s = .ok u t) : p ∧ s = t := by
  unfold check at h
  split at h
  · rename_i holds
    exact ⟨holds, (pure_ok h).2⟩
  · cases h

theorem getItem_ok {raised : Raised} {o : Option α} {a : α}
    (h : (getItem raised o : Call σ α) s = .ok a t) : o = some a ∧ s = t := by
  cases o with
  | none => cases h
  | some b =>
    obtain ⟨rfl, rfl⟩ := pure_ok h
    exact ⟨rfl, rfl⟩

theorem check_avoids {e : Raised} (other : .assertionError assertion ≠ e) :
    Avoids e (check assertion p : Call σ Unit) :=
  Avoids.ite (Avoids.pure _) (Avoids.throw other)

theorem getItem_avoids {e raised : Raised} {found : Option α} (other : raised ≠ e) :
    Avoids e (getItem raised found : Call σ α) := by
  cases found with
  | none => exact Avoids.throw other
  | some a => exact Avoids.pure a

end
end Vllm.V1
