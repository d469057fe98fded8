import VllmProofs.Data.DictSum
import VllmProofs.V1.KVCacheManager

/-!
`Scheduler`, `vllm/v1/core/scheduler.py`: which requests get how many tokens in a step, and what the
output of the step does to them; and `EncoderCacheManager`, the slots that encoder outputs take.
-/

namespace Vllm.V1

structure EncoderCacheManager where
  cacheSize : ℕ
  numFreeSlots : ℤ
  /-- The input ids of a request are a set: each is in the list once. -/
  cached : Dict RequestId (List ℕ) := ∅
  freed : List (RequestId × ℕ) := []

namespace EncoderCacheManager

def init (cacheSize : ℕ) : EncoderCacheManager where
  cacheSize
  numFreeSlots := cacheSize

def getCachedInputIds (s : EncoderCacheManager) (id : RequestId) : List ℕ := (s.cached.get? id).getD []

def hasCache (s : EncoderCacheManager) (request : Request) (inputId : ℕ) : Prop :=
  inputId ∈ s.getCachedInputIds request.requestId

instance (s : EncoderCacheManager) (request : Request) (inputId : ℕ) : Decidable (s.hasCache request inputId) :=
  inferInstanceAs (Decidable (_ ∈ _))

def canAllocate (s : EncoderCacheManager) (request : Request) (inputId : ℕ) : Prop :=
  (request.getNumEncoderTokens inputId : ℤ) ≤ s.numFreeSlots

instance (s : EncoderCacheManager) (request : Request) (inputId : ℕ) : Decidable (s.canAllocate request inputId) :=
  inferInstanceAs (Decidable (_ ≤ _))

def allocate (request : Request) (s : EncoderCacheManager) (inputId : ℕ) : EncoderCacheManager :=
  let id := request.requestId
  { s with
    cached := s.cached.insert id ((s.getCachedInputIds id).insert inputId)
    numFreeSlots := s.numFreeSlots - request.getNumEncoderTokens inputId }

/-- The loop of `schedule` over the inputs to allocate. -/
def allocateAll (request : Request) (inputIds : List ℕ) (s : EncoderCacheManager) : EncoderCacheManager :=
  inputIds.foldl (allocate request) s

def freeEncoderInput (request : Request) (s : EncoderCacheManager) (inputId : ℕ) : EncoderCacheManager :=
  let id := request.requestId
  match s.cached.get? id with
  | none => s
  | some inputIds =>
    let inputIds := inputIds.erase inputId
    { s with
      cached := if inputIds.length = 0 then s.cached.erase id else s.cached.insert id inputIds
      numFreeSlots := s.numFreeSlots + request.getNumEncoderTokens inputId
      freed := s.freed ++ [(id, inputId)] }

def freeInputs (request : Request) (inputIds : List ℕ) (s : EncoderCacheManager) : EncoderCacheManager :=
  inputIds.foldl (freeEncoderInput request) s

def free (request : Request) (s : EncoderCacheManager) : EncoderCacheManager :=
  freeInputs request (s.getCachedInputIds request.requestId) s

end EncoderCacheManager
end Vllm.V1

namespace Vllm.V1
open Exec

instance : Inhabited Request := ⟨{ requestId := 0, samplingParams := { maxTokens := 1 }, promptTokenIds := [] }⟩

structure SchedulerConfig extends CacheConfig where
  maxNumSeqs : ℕ
  maxNumBatchedTokens : ℕ
  /-- `lora_config.max_loras` -/
  maxLoras : Option ℕ := none
  maxNumEncoderInputTokens : ℕ := 0
  encoderCacheSize : ℕ := 0

structure Scheduler where
  maxNumRunningReqs : ℕ
  maxNumScheduledTokens : ℕ
  maxModelLen : ℕ
  blockSize : ℕ
  maxLoras : Option ℕ
  maxNumEncoderInputTokens : ℕ
  kvCacheManager : KVCacheManager
  encoderCacheManager : EncoderCacheManager
  /-- The `Request` objects; those there have been are the first `numObjects`. -/
  objects : RequestRef → Request := fun _ => default
  numObjects : ℕ := 0
  requests : Dict RequestId RequestRef := ∅
  waiting : List RequestRef := []
  running : List RequestRef := []
  /-- A set, as `finishedReqIds` is. -/
  scheduledReqIds : List RequestId := []
  finishedReqIds : List RequestId := []

structure NewRequestData where
  reqId : RequestId
  promptTokenIds : List TokenId
  mmInputs : List MmInput
  mmHashes : List MmHash
  mmPositions : Placeholders
  samplingParams : SamplingParams
  blockIds : List BlockId
  numComputedTokens : ℕ
  loraRequest : Option ℕ

def NewRequestData.fromRequest (request : Request) (blockIds : List BlockId) : NewRequestData where
  reqId := request.requestId
  promptTokenIds := request.promptTokenIds
  mmInputs := request.mmInputs
  mmHashes := request.mmHashes
  mmPositions := request.mmPositions
  samplingParams := request.samplingParams
  blockIds
  numComputedTokens := request.numComputedTokens
  loraRequest := request.loraRequest

structure CachedRequestData where
  reqId : RequestId
  resumedFromPreemption : Bool
  newTokenIds : List TokenId
  newBlockIds : List BlockId
  numComputedTokens : ℕ

structure SchedulerOutput where
  scheduledNewReqs : List NewRequestData
  scheduledCachedReqs : List CachedRequestData
  numScheduledTokens : Dict RequestId ℕ
  totalNumScheduledTokens : ℕ
  scheduledSpecDecodeTokens : Dict RequestId (List TokenId)
  scheduledEncoderInputs : Dict RequestId (List ℕ)
  numCommonPrefixBlocks : ℕ
  finishedReqIds : List RequestId
  freeEncoderInputIds : List (RequestId × ℕ)
  structuredOutputRequestIds : Dict RequestId ℕ

structure ModelRunnerOutput where
  reqIdToIndex : Dict RequestId ℕ
  sampledTokenIds : List (List TokenId)
  specTokenIds : Option (List (List TokenId)) := none
  /-- The requests that have prompt logprobs. -/
  promptLogprobsDict : List RequestId := []

structure EngineCoreOutput where
  requestId : RequestId
  newTokenIds : List TokenId
  /-- `finish_reason` is a function of the status. -/
  status : RequestStatus
  stopReason : Option TokenId
  deriving DecidableEq

structure Pass where
  scheduledNewReqs : List RequestRef := []
  scheduledResumedReqs : List RequestRef := []
  scheduledRunningReqs : List RequestRef := []
  preemptedReqs : List RequestRef := []
  structuredOutputRequestIds : Dict RequestId ℕ := ∅
  reqToNewBlockIds : Dict RequestId (List BlockId) := ∅
  numScheduledTokens : Dict RequestId ℕ := ∅
  tokenBudget : ℕ
  scheduledEncoderInputs : Dict RequestId (List ℕ) := ∅
  encoderBudget : ℕ
  scheduledSpecDecodeTokens : Dict RequestId (List TokenId) := ∅
  reqIndex : ℕ := 0
  requestedLoras : List ℕ := []
  waitingForFsm : List RequestRef := []

structure EncoderPlan where
  encoderInputsToSchedule : List ℕ
  numNewTokens : ℕ
  encoderBudget : ℕ

namespace Request

/-- Draft tokens among the next `numNewTokens` tokens. -/
def schedulesDrafts (r : Request) (numNewTokens : ℕ) : Prop :=
  r.specTokenIds ≠ [] ∧ r.numTokens < numNewTokens + r.numComputedTokens

instance (r : Request) (numNewTokens : ℕ) : Decidable (r.schedulesDrafts numNewTokens) :=
  inferInstanceAs (Decidable (_ ∧ _))

/-- `spec_token_ids` after the next `numNewTokens` tokens have been scheduled. -/
def trimmedSpecTokenIds (r : Request) (numNewTokens : ℕ) : List TokenId :=
  if r.schedulesDrafts numNewTokens then
    r.specTokenIds.take (numNewTokens + r.numComputedTokens - r.numTokens)
  else r.specTokenIds

@[simps] def trimmed (r : Request) (numNewTokens : ℕ) : Request :=
  { r with specTokenIds := r.trimmedSpecTokenIds numNewTokens }

@[simps] def setStatus (status : RequestStatus) (r : Request) : Request := { r with status }

@[simps] def preempt (r : Request) : Request := { r with status := .preempted, numComputedTokens := 0 }

@[simps] def run (numComputedTokens : ℕ) (r : Request) : Request :=
  { r with status := .running, numComputedTokens }

/-- `_check_stop`: what it sets the request to when it returns true. -/
def checkStop (r : Request) (maxModelLen : ℕ) : Option Request :=
  if maxModelLen ≤ r.numTokens ∨ r.samplingParams.maxTokens ≤ r.numOutputTokens then
    some { r with status := .finishedLengthCapped }
  else if r.samplingParams.ignoreEos = false ∧ r.outputTokenIds.getLast? = r.eosTokenId then
    some { r with status := .finishedStopped }
  else
    match r.outputTokenIds.getLast? with
    | none => none
    | some lastTokenId =>
      if lastTokenId ∈ r.samplingParams.stopTokenIds then
        some { r with status := .finishedStopped, stopReason := some lastTokenId }
      else none

/-- The loop of `update_from_output` over generated tokens: the request, the tokens appended to it,
and whether it has stopped. -/
def generate (maxModelLen : ℕ) (r : Request) : List TokenId → Request × List TokenId × Bool
  | [] => (r, [], false)
  | outputTokenId :: rest =>
    let r := r.appendOutputTokenIds [outputTokenId]
    match r.checkStop maxModelLen with
    | some stopped => (stopped, [outputTokenId], true)
    | none =>
      let (r, newTokenIds, stopped) := generate maxModelLen r rest
      (r, outputTokenId :: newTokenIds, stopped)

end Request

namespace Scheduler

def init (config : SchedulerConfig) : Scheduler where
  maxNumRunningReqs := config.maxNumSeqs
  maxNumScheduledTokens := config.maxNumBatchedTokens
  maxModelLen := config.maxModelLen
  blockSize := config.blockSize
  maxLoras := config.maxLoras
  maxNumEncoderInputTokens := config.maxNumEncoderInputTokens
  kvCacheManager := config.toCacheConfig.manager
  encoderCacheManager := .init config.encoderCacheSize

@[simps] def setRequest (ref : RequestRef) (request : Request) (s : Scheduler) : Scheduler :=
  { s with objects := Function.update s.objects ref request }

@[simps] def setKVCacheManager (manager : KVCacheManager) (s : Scheduler) : Scheduler :=
  { s with kvCacheManager := manager }

@[simps] def setEncoderCache (manager : EncoderCacheManager) (s : Scheduler) : Scheduler :=
  { s with encoderCacheManager := manager }

@[simps] def setWaiting (waiting : List RequestRef) (s : Scheduler) : Scheduler := { s with waiting }

@[simps] def setRunning (running : List RequestRef) (s : Scheduler) : Scheduler := { s with running }

@[simps] def setScheduledReqIds (scheduledReqIds : List RequestId) (s : Scheduler) : Scheduler :=
  { s with scheduledReqIds }

def onKVCacheManager {α : Type} : Call KVCacheManager α → Call Scheduler α :=
  zoom (fun s => s.kvCacheManager) setKVCacheManager

/-! ### `_try_schedule_encoder_inputs` -/

/-- The loop of `_try_schedule_encoder_inputs` over the inputs from the `i`-th on. -/
def planInputs (cache : EncoderCacheManager) (request : Request) (numComputedTokens numNewTokens : ℕ) :
    ℕ → List PlaceholderRange → ℕ → EncoderPlan
  | _, [], encoderBudget => ⟨[], numNewTokens, encoderBudget⟩
  | i, pos :: rest, encoderBudget =>
    if numComputedTokens + numNewTokens ≤ pos.offset then ⟨[], numNewTokens, encoderBudget⟩
    else if pos.stop ≤ numComputedTokens ∨ cache.hasCache request i then
      planInputs cache request numComputedTokens numNewTokens (i + 1) rest encoderBudget
    else if ¬cache.canAllocate request i ∨ encoderBudget < pos.length then
      -- only the tokens before the input, none if it has begun already
      ⟨[], pos.offset - numComputedTokens, encoderBudget⟩
    else
      let plan := planInputs cache request numComputedTokens numNewTokens (i + 1) rest
        (encoderBudget - pos.length)
      { plan with encoderInputsToSchedule := i :: plan.encoderInputsToSchedule }

def tryScheduleEncoderInputs (s : Scheduler) (request : Request)
    (numComputedTokens numNewTokens encoderBudget : ℕ) : EncoderPlan :=
  if request.hasEncoderInputs then
    planInputs s.encoderCacheManager request numComputedTokens numNewTokens 0
      request.mmPositions.ranges encoderBudget
  else ⟨[], numNewTokens, encoderBudget⟩

/-! ### `schedule` -/

def startPass (s : Scheduler) : Pass where
  tokenBudget := s.maxNumScheduledTokens
  encoderBudget := s.maxNumEncoderInputTokens

end Scheduler

namespace Pass

def skip (p : Pass) : Pass := { p with reqIndex := p.reqIndex + 1 }

def preempt (p : Pass) (ref : RequestRef) : Pass := { p with preemptedReqs := p.preemptedReqs ++ [ref] }

/-- A request has got `plan.numNewTokens` tokens; `blocks` are sent to the workers. -/
def give (p : Pass) (request : Request) (plan : EncoderPlan) (blocks : List BlockId) : Pass :=
  let id := request.requestId
  { p with
    structuredOutputRequestIds := if request.useStructuredOutput then
      p.structuredOutputRequestIds.insert id p.reqIndex else p.structuredOutputRequestIds
    reqToNewBlockIds := p.reqToNewBlockIds.insert id blocks
    numScheduledTokens := p.numScheduledTokens.insert id plan.numNewTokens
    tokenBudget := p.tokenBudget - plan.numNewTokens
    reqIndex := p.reqIndex + 1
    scheduledEncoderInputs := if plan.encoderInputsToSchedule = [] then p.scheduledEncoderInputs
      else p.scheduledEncoderInputs.insert id plan.encoderInputsToSchedule
    encoderBudget := if plan.encoderInputsToSchedule = [] then p.encoderBudget else plan.encoderBudget }

def giveRunning (p : Pass) (ref : RequestRef) (request : Request) (plan : EncoderPlan)
    (newBlocks : List BlockId) : Pass :=
  { p.give request plan newBlocks with
    scheduledRunningReqs := p.scheduledRunningReqs ++ [ref]
    scheduledSpecDecodeTokens := if request.schedulesDrafts plan.numNewTokens then
      p.scheduledSpecDecodeTokens.insert request.requestId (request.trimmedSpecTokenIds plan.numNewTokens)
      else p.scheduledSpecDecodeTokens }

/-- `requested_loras` with that of the request, if LoRAs are counted at all. -/
def addLora (p : Pass) (maxLoras : Option ℕ) (request : Request) : List ℕ :=
  match maxLoras, request.loraRequest with
  | some _, some loraIntId => p.requestedLoras.insert loraIntId
  | _, _ => p.requestedLoras

def giveWaiting (p : Pass) (ref : RequestRef) (request : Request) (maxLoras : Option ℕ) (plan : EncoderPlan)
    (blocks : List BlockId) : Pass :=
  { p.give request plan blocks with
    requestedLoras := p.addLora maxLoras request
    scheduledNewReqs := if request.status = .waiting then p.scheduledNewReqs ++ [ref] else p.scheduledNewReqs
    scheduledResumedReqs := if request.status = .preempted then p.scheduledResumedReqs ++ [ref]
      else p.scheduledResumedReqs }

def setAside (p : Pass) (ref : RequestRef) : Pass := { p with waitingForFsm := ref :: p.waitingForFsm }

end Pass

namespace Scheduler

@[simps!] def preempted (ref : RequestRef) (s : Scheduler) : Scheduler :=
  (s.setRequest ref (s.objects ref).preempt).setWaiting
    (ref :: s.waiting)

def preemptLast : Call Scheduler RequestRef := do
  let s ← get
  let ref ← getItem .indexError s.running.getLast?
  set (s.setRunning s.running.dropLast)
  onKVCacheManager (KVCacheManager.free (s.objects ref))
  modify (preempted ref)
  return ref

/-- A running request is scheduled: its drafts are cut to those scheduled. -/
@[simps] def takeRunning (ref : RequestRef) (plan : EncoderPlan) (s : Scheduler) : Scheduler :=
  { s.setRequest ref ((s.objects ref).trimmed plan.numNewTokens) with
    scheduledReqIds := s.scheduledReqIds.insert (s.objects ref).requestId
    encoderCacheManager := s.encoderCacheManager.allocateAll (s.objects ref) plan.encoderInputsToSchedule }

/-- `request.status` before the waiting loop looks further at it. -/
def wake (ref : RequestRef) (s : Scheduler) : Scheduler :=
  if (s.objects ref).status = .waitingForFsm then s.setRequest ref ((s.objects ref).setStatus .waiting) else s

def waitsForGrammar (request : Request) : Prop :=
  request.status = .waitingForFsm ∧ request.grammarIsReady = false

instance (request : Request) : Decidable (waitsForGrammar request) := inferInstanceAs (Decidable (_ ∧ _))

/-- Another LoRA would be one too many. -/
def lacksLora (s : Scheduler) (p : Pass) (request : Request) : Prop :=
  ∃ loraIntId ∈ request.loraRequest, some p.requestedLoras.length = s.maxLoras ∧ loraIntId ∉ p.requestedLoras

instance (s : Scheduler) (p : Pass) (request : Request) : Decidable (s.lacksLora p request) :=
  match found : request.loraRequest with
  | none => isFalse (by simp [lacksLora, found])
  | some loraIntId => decidable_of_iff (some p.requestedLoras.length = s.maxLoras ∧ loraIntId ∉ p.requestedLoras)
      (by simp [lacksLora, found])

/-- The hits a waiting request uses, and the number of tokens they stand for: when all its tokens
are cached, the last block is computed again. -/
def hitsToUse (request : Request) (blockSize : ℕ) (found : List BlockId × ℕ) :
    Call Scheduler (List BlockId × ℕ × ℕ) :=
  if request.numTokens = found.2 then do
    let _ ← getItem .indexError found.1.getLast?
    return (found.1.dropLast, found.2 - blockSize, blockSize)
  else return (found.1, found.2, request.numTokens - found.2)

@[simps] def takeWaiting (ref : RequestRef) (numComputedTokens : ℕ) (plan : EncoderPlan) (s : Scheduler) :
    Scheduler :=
  { s.setRequest ref ((s.objects ref).run numComputedTokens) with
    waiting := s.waiting.tail
    running := s.running ++ [ref]
    scheduledReqIds := s.scheduledReqIds.insert (s.objects ref).requestId
    encoderCacheManager := s.encoderCacheManager.allocateAll (s.objects ref) plan.encoderInputsToSchedule }

/-- LoRAs of the running requests scheduled in this step. -/
def runningLoras (s : Scheduler) (p : Pass) : List ℕ :=
  ((p.scheduledRunningReqs.filterMap fun ref => (s.objects ref).loraRequest).filter (0 < ·)).dedup

/-- `requested_loras` before the waiting requests are looked at. -/
def recordLoras (p : Pass) : Call Scheduler Pass := do
  let s ← get
  match s.maxLoras with
  | none => return p
  | some maxLoras =>
    check .atMostMaxLoras ((s.runningLoras p).length ≤ maxLoras)
    return { p with requestedLoras := s.runningLoras p }

@[simps!] def putBack (p : Pass) (s : Scheduler) : Scheduler :=
  s.setWaiting (p.waitingForFsm.reverse ++ s.waiting)

def checkPass (p : Pass) : Call Scheduler Unit := do
  let s ← get
  check .withinTokenBudget (p.numScheduledTokens.values.sum ≤ s.maxNumScheduledTokens)
  check .withinMaxNumSeqs (s.running.length ≤ s.maxNumRunningReqs)
  check .scheduledAreRunning (p.scheduledNewReqs.length + p.scheduledResumedReqs.length +
    p.scheduledRunningReqs.length ≤ s.running.length)

def numCommonPrefixBlocks : Call Scheduler ℕ := do
  let s ← get
  match s.running.head? with
  | none => return 0
  | some anyRequest =>
    onKVCacheManager (KVCacheManager.getNumCommonPrefixBlocks (s.objects anyRequest) s.running.length)

def newRequestData (s : Scheduler) (p : Pass) (ref : RequestRef) : NewRequestData :=
  let request := s.objects ref
  .fromRequest request ((p.reqToNewBlockIds.get? request.requestId).getD [])

/-- `_make_cached_request_data`; the object of an earlier step is overwritten in all its fields. -/
def makeCachedRequestData (s : Scheduler) (p : Pass) (resumedFromPreemption : Bool) (ref : RequestRef) :
    CachedRequestData :=
  let request := s.objects ref
  let id := request.requestId
  let numRegularTokens : ℤ := (p.numScheduledTokens.get? id).getD 0 -
    ((p.scheduledSpecDecodeTokens.get? id).getD []).length
  { reqId := id
    resumedFromPreemption
    newTokenIds := PySlice.slice request.allTokenIds request.numComputedTokens
      (request.numComputedTokens + numRegularTokens)
    newBlockIds := (p.reqToNewBlockIds.get? id).getD []
    numComputedTokens := request.numComputedTokens }

def output (s : Scheduler) (p : Pass) (numCommonPrefixBlocks : ℕ) : SchedulerOutput where
  scheduledNewReqs := p.scheduledNewReqs.map (s.newRequestData p)
  scheduledCachedReqs := p.scheduledResumedReqs.map (s.makeCachedRequestData p true) ++
    p.scheduledRunningReqs.map (s.makeCachedRequestData p false)
  numScheduledTokens := p.numScheduledTokens
  totalNumScheduledTokens := p.numScheduledTokens.values.sum
  scheduledSpecDecodeTokens := p.scheduledSpecDecodeTokens
  scheduledEncoderInputs := p.scheduledEncoderInputs
  numCommonPrefixBlocks
  finishedReqIds := s.finishedReqIds
  freeEncoderInputIds := s.encoderCacheManager.freed
  structuredOutputRequestIds := p.structuredOutputRequestIds

/-- What the output takes over is gone from the scheduler. -/
@[simps] def flush (s : Scheduler) : Scheduler :=
  { s with
    finishedReqIds := []
    encoderCacheManager := { s.encoderCacheManager with freed := [] } }

variable [TupleHash]

/-- The inner loop of `schedule`: requests are preempted until there are slots for this one. -/
def allocateOrPreempt (ref : RequestRef) (request : Request) (numNewTokens : ℕ) :
    ℕ → Pass → Call Scheduler (Option (List BlockId) × Pass)
  | 0, p => return (none, p)
  | fuel + 1, p => do
    match ← onKVCacheManager (KVCacheManager.allocateSlots request numNewTokens []) with
    | some newBlocks => return (some newBlocks, p)
    | none =>
      let preemptedReq ← preemptLast
      if preemptedReq = ref then return (none, p.preempt preemptedReq)
      else allocateOrPreempt ref request numNewTokens fuel (p.preempt preemptedReq)

/-- A round of the loop over running requests; `false` is a `break`. -/
def runningRound (ref : RequestRef) (p : Pass) : Call Scheduler (Pass × Bool) := do
  let s ← get
  let request := s.objects ref
  if request.requestId ∈ s.scheduledReqIds then return (p.skip, true)
  else
    let numNewTokens := min (request.numTokensWithSpec - request.numComputedTokens) p.tokenBudget
    check .numNewTokensPositive (0 < numNewTokens)
    let plan := s.tryScheduleEncoderInputs request request.numComputedTokens numNewTokens p.encoderBudget
    if plan.numNewTokens = 0 then return (p.skip, true)
    else
      -- each round of the inner loop that does not end it takes a request from the running ones
      match ← allocateOrPreempt ref request plan.numNewTokens s.running.length p with
      | (none, p) => return (p, false)
      | (some newBlocks, p) =>
        modify (takeRunning ref plan)
        return (p.giveRunning ref request plan newBlocks, true)

/-- The loop over running requests; each round moves on, takes requests from the end, or is the last. -/
def scheduleRunning : ℕ → Pass → Call Scheduler Pass
  | 0, p => return p
  | fuel + 1, p => do
    let s ← get
    match s.running[p.reqIndex]? with
    | none => return p
    | some ref =>
      if p.tokenBudget = 0 then return p
      else
        let (p, goesOn) ← runningRound ref p
        if goesOn then scheduleRunning fuel p else return p

/-- A round of the loop over waiting requests, for one that does not wait for its grammar. -/
def waitingRound (ref : RequestRef) (p : Pass) : Call Scheduler (Pass × Bool) := do
  let s ← get
  let request := s.objects ref
  if s.lacksLora p request then return (p, false)
  else
    let found ← onKVCacheManager (KVCacheManager.getComputedBlocks request)
    let (computedBlocks, numComputedTokens, numNewTokens) ← hitsToUse request s.blockSize found
    let numNewTokens := min numNewTokens p.tokenBudget
    check .numNewTokensPositive (0 < numNewTokens)
    let plan := s.tryScheduleEncoderInputs request numComputedTokens numNewTokens p.encoderBudget
    if plan.numNewTokens = 0 then return (p, false)
    else
      match ← onKVCacheManager (KVCacheManager.allocateSlots request plan.numNewTokens computedBlocks) with
      | none => return (p, false)
      | some newBlocks =>
        if request.status = .waiting ∨ request.status = .preempted then
          modify (takeWaiting ref numComputedTokens plan)
          return (p.giveWaiting ref request s.maxLoras plan (computedBlocks ++ newBlocks), true)
        else throw (.runtimeError "Invalid request status")

/-- The loop over waiting requests; each round but the last takes one from the queue. -/
def scheduleWaiting : ℕ → Pass → Call Scheduler Pass
  | 0, p => return p
  | fuel + 1, p => do
    let s ← get
    match s.waiting with
    | [] => return p
    | ref :: rest =>
      if p.tokenBudget = 0 ∨ s.running.length = s.maxNumRunningReqs then return p
      else if waitsForGrammar (s.objects ref) then do
        set (s.setWaiting rest)
        scheduleWaiting fuel (p.setAside ref)
      else
        modify (wake ref)
        let (p, goesOn) ← waitingRound ref p
        if goesOn then scheduleWaiting fuel p else return p

/-- Waiting requests are looked at only when none has been preempted. -/
def scheduleWaitingUnlessPreempted (p : Pass) : Call Scheduler Pass := do
  let s ← get
  if p.preemptedReqs = [] then scheduleWaiting s.waiting.length p else return p

def schedule : Call Scheduler SchedulerOutput := do
  let s ← get
  let p ← scheduleRunning s.running.length s.startPass
  let p ← recordLoras p
  let p ← scheduleWaitingUnlessPreempted p
  modify (putBack p)
  checkPass p
  let numCommonPrefixBlocks ← numCommonPrefixBlocks
  let s ← get
  set s.flush
  return s.output p numCommonPrefixBlocks

/-! ### `add_request` and `finish_requests` -/

omit [TupleHash]

@[simps] def addRequest (request : Request) (s : Scheduler) : Scheduler :=
  { s.setRequest s.numObjects request with
    numObjects := s.numObjects + 1
    waiting := s.waiting ++ [s.numObjects]
    requests := s.requests.insert request.requestId s.numObjects }

/-- What becomes of the scheduler when a request is freed, the KV cache manager apart. -/
@[simps] def released (ref : RequestRef) (s : Scheduler) : Scheduler :=
  { s with
    encoderCacheManager := s.encoderCacheManager.free (s.objects ref)
    requests := s.requests.erase (s.objects ref).requestId
    finishedReqIds := s.finishedReqIds.insert (s.objects ref).requestId }

def freeRequest (ref : RequestRef) : Call Scheduler Unit := do
  let s ← get
  let request := s.objects ref
  check .statusIsFinished request.isFinished
  onKVCacheManager (KVCacheManager.free request)
  onKVCacheManager (KVCacheManager.freeBlockHashes request)
  let s ← get
  let _ ← getItem .keyError (s.requests.get? request.requestId)
  set (s.released ref)

def dequeue (ref : RequestRef) : Call Scheduler Unit := do
  let s ← get
  if (s.objects ref).status = .running then
    if ref ∈ s.running then
      set ((s.setRunning (s.running.erase ref)).setScheduledReqIds
        (s.scheduledReqIds.erase (s.objects ref).requestId))
    else throw (.valueError "list.remove(x): x not in list")
  else if ref ∈ s.waiting then set (s.setWaiting (s.waiting.erase ref))
  else throw (.valueError "deque.remove(x): x not in deque")

def finishRequest (finishedStatus : RequestStatus) (id : RequestId) : Call Scheduler Unit := do
  let s ← get
  match s.requests.get? id with
  | none => return ()
  | some ref =>
    dequeue ref
    modify fun s => s.setRequest ref ((s.objects ref).setStatus finishedStatus)
    freeRequest ref

/-- `finish_requests`; the ids are a set, gone through in any order. -/
def finishRequests (ids : List RequestId) (finishedStatus : RequestStatus) : Call Scheduler Unit := do
  check .statusIsFinished finishedStatus.isFinished
  ids.forM (finishRequest finishedStatus)

def hasRequests (s : Scheduler) : Prop :=
  0 < s.waiting.length + s.running.length ∨ 0 < s.finishedReqIds.length

instance (s : Scheduler) : Decidable s.hasRequests := inferInstanceAs (Decidable (_ ∨ _))

def resetPrefixCache : Call Scheduler Bool := onKVCacheManager KVCacheManager.resetPrefixCache

/-! ### `update_from_output` -/

/-- `num_computed_tokens` after a step: rejected drafts are taken off again. -/
def advanceComputed (request : Request) (numTokensScheduled : ℕ) (drafts : Option (List TokenId))
    (generated : List TokenId) : Call Scheduler Request :=
  match drafts with
  | none => do
    let request := { request with numComputedTokens := request.numComputedTokens + numTokensScheduled }
    check .computedWithinTokens (request.numComputedTokens ≤ request.numTokens)
    return request
  | some drafts => return { request with
      numComputedTokens := request.numComputedTokens + numTokensScheduled + generated.length - (drafts.length + 1) }

@[simps!] def freeComputedInputs (request : Request) (s : Scheduler) : Scheduler :=
  let computed := (s.encoderCacheManager.getCachedInputIds request.requestId).filter fun inputId =>
    ∃ pos ∈ request.mmPositions.ranges[inputId]?, pos.stop ≤ request.numComputedTokens
  s.setEncoderCache (s.encoderCacheManager.freeInputs request computed)

/-- The drafts the runner proposes for its `reqIndex`-th request. -/
def newSpecTokenIds (request : Request) (specTokenIds : Option (List (List TokenId))) (reqIndex : ℕ) :
    Call Scheduler Request :=
  match specTokenIds with
  | none => return request
  | some specTokenIds => do
    let drafts ← getItem .indexError specTokenIds[reqIndex]?
    return { request with specTokenIds := drafts }

/-- Tokens are appended once all tokens the request had are computed. -/
def generated (maxModelLen : ℕ) (request : Request) (generatedTokenIds : List TokenId) :
    Request × List TokenId × Bool :=
  if request.numTokens ≤ request.numComputedTokens then request.generate maxModelLen generatedTokenIds
  else (request, [], false)

def freeIf (stopped : Bool) (ref : RequestRef) : Call Scheduler Unit :=
  if stopped then freeRequest ref else return ()

/-- `self.scheduled_req_ids.remove(req_id)` -/
def unschedule (id : RequestId) : Call Scheduler Unit := do
  let s ← get
  if id ∈ s.scheduledReqIds then set (s.setScheduledReqIds (s.scheduledReqIds.erase id))
  else throw .keyError

/-- A round of the loop of `update_from_output`, for a request with `numTokensScheduled` tokens; what it
sends out, and whether the request has stopped. -/
def updateScheduled (schedulerOutput : SchedulerOutput) (modelRunnerOutput : ModelRunnerOutput)
    (ref : RequestRef) (numTokensScheduled : ℕ) : Call Scheduler (Option EngineCoreOutput × Bool) := do
  let s ← get
  let request := s.objects ref
  let id := request.requestId
  let reqIndex ← getItem .keyError (modelRunnerOutput.reqIdToIndex.get? id)
  let generatedTokenIds ← getItem .indexError modelRunnerOutput.sampledTokenIds[reqIndex]?
  let request ← advanceComputed request numTokensScheduled
    (schedulerOutput.scheduledSpecDecodeTokens.get? id) generatedTokenIds
  modify (freeComputedInputs request)
  let request ← newSpecTokenIds request modelRunnerOutput.specTokenIds reqIndex
  let (request, newTokenIds, stopped) := generated s.maxModelLen request generatedTokenIds
  modify (setRequest ref request)
  freeIf stopped ref
  unschedule id
  let sent := if newTokenIds ≠ [] ∨ id ∈ modelRunnerOutput.promptLogprobsDict then
    some ⟨id, newTokenIds, request.status, request.stopReason⟩ else none
  return (sent, stopped)

def updateRequest (schedulerOutput : SchedulerOutput) (modelRunnerOutput : ModelRunnerOutput)
    (ref : RequestRef) : Call Scheduler (Option EngineCoreOutput × Bool) := do
  let s ← get
  let numTokensScheduled := (schedulerOutput.numScheduledTokens.get? (s.objects ref).requestId).getD 0
  if numTokensScheduled = 0 then return (none, false)
  else updateScheduled schedulerOutput modelRunnerOutput ref numTokensScheduled

/-- The loop of `update_from_output`: what is sent out, and the requests that go on running. -/
def updateEach (schedulerOutput : SchedulerOutput) (modelRunnerOutput : ModelRunnerOutput) :
    List RequestRef → Call Scheduler (List EngineCoreOutput × List RequestRef)
  | [] => return ([], [])
  | ref :: rest => do
    let (sent, stopped) ← updateRequest schedulerOutput modelRunnerOutput ref
    let (outputs, newRunning) ← updateEach schedulerOutput modelRunnerOutput rest
    return (sent.toList ++ outputs, if stopped then newRunning else ref :: newRunning)

def updateFromOutput (schedulerOutput : SchedulerOutput) (modelRunnerOutput : ModelRunnerOutput) :
    Call Scheduler (List EngineCoreOutput) := do
  let s ← get
  let (outputs, newRunning) ← updateEach schedulerOutput modelRunnerOutput s.running
  modify (setRunning newRunning)
  return outputs

end Scheduler
end Vllm.V1
