import VllmProofs.Sequence

/-!
The configuration of the scheduler, and what one call of `schedule` may still hand out: the
`SchedulingBudget` and, with chunked prefill, the `PartialPrefillMetadata`.
-/

namespace Vllm
open Exec

inductive PreemptionMode where
  | swap | recompute
  deriving DecidableEq, Repr

inductive SchedulingPolicy where
  | fcfs | priority
  deriving DecidableEq, Repr

structure SchedulerConfig where
  maxNumBatchedTokens : ℤ
  maxNumSeqs : ℤ
  maxModelLen : ℤ
  maxNumPartialPrefills : ℕ := 1
  maxLongPartialPrefills : ℕ := 1
  longPrefillTokenThreshold : ℤ := 0
  numLookaheadSlots : ℕ := 0
  delayFactor : ℚ := 0
  chunkedPrefillEnabled : Bool := false
  preemptionMode : Option PreemptionMode := none
  numSchedulerSteps : ℕ := 1
  sendDeltaData : Bool := false
  policy : SchedulingPolicy := .fcfs
  deriving DecidableEq, Repr

namespace SchedulerConfig

def isMultiStep (s : SchedulerConfig) : Bool := 1 < s.numSchedulerSteps

def getNumLookaheadSlots (s : SchedulerConfig) (isPrefill enableChunking : Bool) : ℕ :=
  if isPrefill then
    if s.isMultiStep && enableChunking then s.numLookaheadSlots + 1 else 0
  else s.numLookaheadSlots

def partialPrefillBudget (s : SchedulerConfig) (numPrefills : ℕ) : ℤ :=
  if numPrefills = 0 then s.maxNumBatchedTokens else s.maxNumBatchedTokens / numPrefills

end SchedulerConfig

structure CacheConfig where
  blockSize : ℕ
  enablePrefixCaching : Bool
  deriving DecidableEq, Repr

structure SchedulingBudget where
  tokenBudget : ℤ
  maxNumSeqs : ℤ
  requestIdsNumBatchedTokens : Finset String := ∅
  requestIdsNumCurrSeqs : Finset String := ∅
  numCachedTokens : ℤ := 0
  numBatchedTokens : ℤ := 0
  numCurrSeqs : ℤ := 0

namespace SchedulingBudget

def canSchedule (numNewTokens numNewSeqs : ℤ) : Method SchedulingBudget Bool := do
  assertThat (0 ≤ numNewTokens)
  assertThat (numNewSeqs ≠ 0)
  let s ← get
  return s.numBatchedTokens + numNewTokens ≤ s.tokenBudget && s.numCurrSeqs + numNewSeqs ≤ s.maxNumSeqs

def remainingTokenBudget (s : SchedulingBudget) : ℤ := s.tokenBudget - s.numBatchedTokens

def addNumBatchedTokens (reqId : String) (numBatchedTokens numCachedTokens : ℤ) :
    Method SchedulingBudget Unit := do
  let s ← get
  if reqId ∈ s.requestIdsNumBatchedTokens then pure ()
  else
    assertThat (0 ≤ numCachedTokens)
    assertThat (0 ≤ numBatchedTokens)
    set { s with
      requestIdsNumBatchedTokens := insert reqId s.requestIdsNumBatchedTokens
      numBatchedTokens := s.numBatchedTokens + numBatchedTokens
      numCachedTokens := s.numCachedTokens + numCachedTokens }

def subtractNumBatchedTokens (reqId : String) (numBatchedTokens : ℤ) : Method SchedulingBudget Unit :=
  modify fun s =>
    if reqId ∈ s.requestIdsNumBatchedTokens then
      { s with
        requestIdsNumBatchedTokens := s.requestIdsNumBatchedTokens.erase reqId
        numBatchedTokens := s.numBatchedTokens - numBatchedTokens }
    else s

def addNumSeqs (reqId : String) (numCurrSeqs : ℤ) : Method SchedulingBudget Unit :=
  modify fun s =>
    if reqId ∈ s.requestIdsNumCurrSeqs then s
    else
      { s with
        requestIdsNumCurrSeqs := insert reqId s.requestIdsNumCurrSeqs
        numCurrSeqs := s.numCurrSeqs + numCurrSeqs }

def subtractNumSeqs (reqId : String) (numCurrSeqs : ℤ) : Method SchedulingBudget Unit :=
  modify fun s =>
    if reqId ∈ s.requestIdsNumCurrSeqs then
      { s with
        requestIdsNumCurrSeqs := s.requestIdsNumCurrSeqs.erase reqId
        numCurrSeqs := s.numCurrSeqs - numCurrSeqs }
    else s

end SchedulingBudget

structure PartialPrefillMetadata where
  schedulablePrefills : ℕ
  longPrefills : ℕ
  deriving DecidableEq, Repr

namespace PartialPrefillMetadata

/-- Has the first sequence more new tokens than the threshold? -/
def isLong (config : SchedulerConfig) (seqGroup : SequenceGroup) : Bool :=
  config.longPrefillTokenThreshold < seqGroup.firstSeq.getNumNewTokens

def canSchedule (config : SchedulerConfig) (s : PartialPrefillMetadata) (seqGroup : SequenceGroup) :
    Bool :=
  !(isLong config seqGroup && config.maxLongPartialPrefills ≤ s.longPrefills &&
    1 < config.maxNumPartialPrefills)

def maybeIncrementPartialPrefills (config : SchedulerConfig) (seqGroup : SequenceGroup)
    (s : PartialPrefillMetadata) : PartialPrefillMetadata :=
  if isLong config seqGroup then { s with longPrefills := s.longPrefills + 1 } else s

/-- The second loop of `from_queues`: the number of prefills after the waiting groups. -/
def countWaiting (config : SchedulerConfig) (longPrefills : ℕ) : ℕ → ℕ → List SequenceGroup → ℕ
  | prefills, _, [] => prefills
  | prefills, waitingLongPrefills, sg :: rest =>
    if config.maxNumPartialPrefills ≤ prefills then prefills
    else if isLong config sg then
      if config.maxLongPartialPrefills ≤ longPrefills + waitingLongPrefills then
        countWaiting config longPrefills prefills waitingLongPrefills rest
      else countWaiting config longPrefills (prefills + 1) (waitingLongPrefills + 1) rest
    else countWaiting config longPrefills (prefills + 1) waitingLongPrefills rest

def fromQueues (config : SchedulerConfig) (running waiting : List SequenceGroup) :
    PartialPrefillMetadata :=
  let prefills := running.filter SequenceGroup.isPrefill
  let longPrefills := (prefills.filter (isLong config)).length
  { schedulablePrefills := min (countWaiting config longPrefills prefills.length 0 waiting)
      config.maxNumPartialPrefills
    longPrefills }

end PartialPrefillMetadata
end Vllm
