import VllmProofs.Scheduler.Queues

/-!
`schedule`: the default and the chunked policy, the metadata of the batch, and the access times
and computed blocks it records.
-/

namespace Vllm
open Exec

/-- Beside the block ids of the sequences, what the workers are told about a scheduled group.
Sampling parameters, multi-modal data and adapters are left out. -/
structure SequenceGroupMetadata where
  requestId : String
  isPrompt : Bool
  blockTables : Dict SeqId (List BlockId)
  doSample : Bool
  tokenChunkSize : ℤ
  computedBlockNums : List BlockId
  /-- A `SequenceGroupMetadataDelta`. -/
  delta : Bool

structure SchedulerOutputs where
  scheduledSeqGroups : List ScheduledSequenceGroup
  numPrefillGroups : ℕ
  numBatchedTokens : ℤ
  blocksToSwapIn : List (BlockId × BlockId)
  blocksToSwapOut : List (BlockId × BlockId)
  blocksToCopy : List (BlockId × BlockId)
  ignoredSeqGroups : List GroupRef
  numLookaheadSlots : ℕ
  runningQueueSize : ℕ
  preempted : ℕ
  deriving DecidableEq, Repr

namespace Scheduling
open Scheduler

variable {M : Type}

/-- The key of `_sort_by_lora_ids`, compared as Python compares the tuples. -/
def loraOrder (s : Scheduler M) (mixed : Bool) (left right : ScheduledSequenceGroup) : Bool :=
  let l := s.groups left.seqGroup
  let r := s.groups right.seqGroup
  let byAdapter := l.loraIntId < r.loraIntId ||
    (l.loraIntId = r.loraIntId && l.requestId ≤ r.requestId)
  if mixed && l.isPrefill != r.isPrefill then l.isPrefill else byAdapter

def postInit (outputs : SchedulerOutputs) : Method (Scheduler M) SchedulerOutputs := do
  assertThat (¬(outputs.blocksToSwapIn ≠ [] ∧ outputs.blocksToSwapOut ≠ []))
  let s ← get
  let groups := outputs.scheduledSeqGroups
  if groups.any fun g => (s.groups g.seqGroup).loraIntId ≠ 0 then
    assertThat (outputs.numPrefillGroups ≤ groups.length)
    let mixed := 0 < outputs.numPrefillGroups && outputs.numPrefillGroups < groups.length
    return { outputs with scheduledSeqGroups := groups.insertionSort fun g g' => loraOrder s mixed g g' }
  else return outputs

def extendLeft (queue groups : List GroupRef) : List GroupRef := groups.reverse ++ queue

def seqGroupsOf (groups : List ScheduledSequenceGroup) : List GroupRef :=
  groups.map ScheduledSequenceGroup.seqGroup

def checkBudget : Method (Scheduling M) Unit := do
  let s ← get
  assertThat (s.budget.numBatchedTokens ≤ s.scheduler.schedulerConfig.maxNumBatchedTokens)
  assertThat (s.budget.numCurrSeqs ≤ s.scheduler.schedulerConfig.maxNumSeqs)

variable [BlockSpaceManager M] [OutputProcessor M]

/-- `_schedule_running` and, when it preempts nothing, `_schedule_swapped`. -/
def scheduleDecodes (enableChunking : Bool) :
    Method (Scheduling M) (SchedulerRunningOutputs × SchedulerSwappedInOutputs) := do
  let runningScheduled ← scheduleRunning enableChunking
  if runningScheduled.preempted.length + runningScheduled.swappedOut.length = 0 then
    let swappedIn ← scheduleSwapped false
    return (runningScheduled, swappedIn)
  else return (runningScheduled, {})

/-- Swapped groups go before waiting ones. -/
def prefillsUnlessSwapped : Method (Scheduling M) SchedulerPrefillOutputs := do
  let s ← getScheduler
  if s.swapped = [] then schedulePrefills false else return {}

/-- The start of `_schedule_default`: prefills, and without any the preemption by priority; the
number of its preemptions beside the prefills. -/
def beginDefault : Method (Scheduling M) (SchedulerPrefillOutputs × ℕ) := do
  let s ← getScheduler
  let prefills ← prefillsUnlessSwapped
  if prefills.seqGroups.length = 0 ∧ s.schedulerConfig.policy = .priority then
    let forcePreemptionCount ← schedulePriorityPreemption
    return (prefills, forcePreemptionCount)
  else return (prefills, 0)

def fillDefault : Method (Scheduling M)
    (SchedulerPrefillOutputs × SchedulerRunningOutputs × SchedulerSwappedInOutputs) := do
  let (prefills, _) ← beginDefault
  if prefills.seqGroups.length = 0 then
    let (runningScheduled, swappedIn) ← scheduleDecodes false
    return (prefills, runningScheduled, swappedIn)
  else return (prefills, {}, {})

def scheduleDefaultBatch : Method (Scheduling M) SchedulerOutputs := do
  let (prefills, runningScheduled, swappedIn) ← fillDefault
  checkBudget
  onScheduler (modify fun s =>
    { s with
      waiting := extendLeft s.waiting runningScheduled.preempted
      running := s.running ++ seqGroupsOf prefills.seqGroups ++
        seqGroupsOf runningScheduled.decodeSeqGroups ++ seqGroupsOf swappedIn.decodeSeqGroups
      swapped := s.swapped ++ runningScheduled.swappedOut })
  assertThat (runningScheduled.prefillSeqGroups.length = 0)
  assertThat (swappedIn.prefillSeqGroups.length = 0)
  let s ← get
  onScheduler (postInit
    { scheduledSeqGroups :=
        prefills.seqGroups ++ runningScheduled.decodeSeqGroups ++ swappedIn.decodeSeqGroups
      numPrefillGroups := prefills.seqGroups.length
      numBatchedTokens := s.budget.numBatchedTokens + s.budget.numCachedTokens
      blocksToSwapIn := swappedIn.blocksToSwapIn
      blocksToSwapOut := runningScheduled.blocksToSwapOut
      blocksToCopy := runningScheduled.blocksToCopy ++ swappedIn.blocksToCopy
      ignoredSeqGroups := prefills.ignoredSeqGroups ++ swappedIn.infeasibleSeqGroups
      numLookaheadSlots := runningScheduled.numLookaheadSlots
      runningQueueSize := s.scheduler.running.length
      preempted := runningScheduled.preempted.length + runningScheduled.swappedOut.length })

def orderFinishingPrefillsFirst (s : Scheduler M) (groups : List ScheduledSequenceGroup) :
    List GroupRef :=
  let finishing := fun g : ScheduledSequenceGroup =>
    decide ((s.groups g.seqGroup).getNumUncomputedTokens = g.tokenChunkSize)
  seqGroupsOf (groups.filter finishing) ++ seqGroupsOf (groups.filter fun g => !finishing g)

def scheduleChunkedPrefillBatch : Method (Scheduling M) SchedulerOutputs := do
  let (runningScheduled, swappedIn) ← scheduleDecodes true
  let prefills ← schedulePrefills true
  checkBudget
  onScheduler (modify fun s =>
    { s with
      waiting := extendLeft s.waiting runningScheduled.preempted
      running := s.running ++ seqGroupsOf swappedIn.decodeSeqGroups ++
        seqGroupsOf swappedIn.prefillSeqGroups ++ seqGroupsOf runningScheduled.decodeSeqGroups ++
        orderFinishingPrefillsFirst s runningScheduled.prefillSeqGroups ++
        seqGroupsOf prefills.seqGroups
      swapped := s.swapped ++ runningScheduled.swappedOut })
  let s ← get
  let scheduledSeqGroups := prefills.seqGroups ++ runningScheduled.prefillSeqGroups ++
    swappedIn.prefillSeqGroups ++ runningScheduled.decodeSeqGroups ++ swappedIn.decodeSeqGroups
  let numPrefillGroups := prefills.seqGroups.length + swappedIn.prefillSeqGroups.length +
    runningScheduled.prefillSeqGroups.length
  let allPrefills := scheduledSeqGroups.length = numPrefillGroups
  onScheduler (postInit
    { scheduledSeqGroups
      numPrefillGroups
      numBatchedTokens := s.budget.numBatchedTokens + s.budget.numCachedTokens
      blocksToSwapIn := swappedIn.blocksToSwapIn
      blocksToSwapOut := runningScheduled.blocksToSwapOut
      blocksToCopy := runningScheduled.blocksToCopy ++ swappedIn.blocksToCopy
      ignoredSeqGroups := prefills.ignoredSeqGroups ++ swappedIn.infeasibleSeqGroups
      numLookaheadSlots := if allPrefills ∧ s.scheduler.schedulerConfig.isMultiStep = false then 0
        else runningScheduled.numLookaheadSlots
      runningQueueSize := s.scheduler.running.length
      preempted := runningScheduled.preempted.length + runningScheduled.swappedOut.length })

end Scheduling

namespace Scheduler
open Scheduling

variable {M : Type}

/-- A method of the call, which begins with the given budget and adapters. -/
def inCall {β : Type} (budget : SchedulingBudget) (currLoras : Option (Finset ℕ))
    (partialPrefillMetadata : Option PartialPrefillMetadata) :
    Method (Scheduling M) β → Method (Scheduler M) β :=
  zoom (fun scheduler => { scheduler, budget, currLoras, partialPrefillMetadata })
    fun t _ => t.scheduler

def emptyBudget (config : SchedulerConfig) : SchedulingBudget where
  tokenBudget := config.maxNumBatchedTokens
  maxNumSeqs := config.maxNumSeqs

/-- `budget.add_num_seqs` for a running group -/
def countRunning (budget : SchedulingBudget) (seqGroup : SequenceGroup) : SchedulingBudget :=
  after (SchedulingBudget.addNumSeqs seqGroup.requestId seqGroup.getMaxNumRunningSeqs) budget

section
variable [BlockSpaceManager M] [OutputProcessor M]

/-- A method of `_schedule_default`, under the budget and the adapters of the running groups. -/
def inDefault {β : Type} (method : Method (Scheduling M) β) : Method (Scheduler M) β := do
  let s ← get
  let groups := s.running.map s.groups
  let budget := groups.foldl countRunning (emptyBudget s.schedulerConfig)
  let loras := ((groups.map SequenceGroup.loraIntId).filter (0 < ·)).toFinset
  inCall budget (s.maxLoras.map fun _ => loras) none method

def scheduleDefault : Method (Scheduler M) SchedulerOutputs := inDefault scheduleDefaultBatch

def scheduleChunkedPrefill : Method (Scheduler M) SchedulerOutputs := do
  let s ← get
  let metadata := PartialPrefillMetadata.fromQueues s.schedulerConfig (s.running.map s.groups)
    (s.waiting.map s.groups)
  inCall (emptyBudget s.schedulerConfig) (some ∅) (some metadata) scheduleChunkedPrefillBatch

def scheduleBatch : Method (Scheduler M) SchedulerOutputs := do
  let s ← get
  if s.schedulerConfig.chunkedPrefillEnabled then scheduleChunkedPrefill else scheduleDefault

/-- The block table of one sequence of the batch, whose blocks count as accessed. -/
def accessSeq (now : Time) (seq : Sequence) : Method (Scheduler M) (SeqId × List BlockId) := do
  let blockTable ← onManager (BlockSpaceManager.getBlockTable seq)
  onManager (BlockSpaceManager.accessAllBlocksInSeq seq now)
  return (seq.seqId, blockTable)

def commonComputedBlockNums (seqs : List Sequence) : Method (Scheduler M) (List BlockId) := do
  let s ← get
  if s.cacheConfig.enablePrefixCaching then
    onManager (BlockSpaceManager.getCommonComputedBlockIds seqs)
  else return []

def groupMetadata (now : Time) (scheduled : ScheduledSequenceGroup) :
    Method (Scheduler M) SequenceGroupMetadata := do
  let s ← get
  let seqGroup := s.groups scheduled.seqGroup
  let running := seqGroup.getSeqs .running
  let blockTables ← running.mapM (accessSeq now)
  let computedBlockNums ← commonComputedBlockNums running
  let isPrompt := seqGroup.isPrefill
  assertThat (isPrompt = true → seqGroup.seqs.length = 1)
  let numComputedTokens := seqGroup.firstSeq.numComputedTokens
  let isFirstPrefill := isPrompt && numComputedTokens = 0
  let doSample :=
    !(isPrompt && scheduled.tokenChunkSize + numComputedTokens < seqGroup.firstSeq.getLen)
  return {
    requestId := seqGroup.requestId
    isPrompt
    blockTables := blockTables.foldl (fun tables pair => tables.insert pair.1 pair.2) ∅
    doSample
    tokenChunkSize := scheduled.tokenChunkSize
    computedBlockNums
    delta := !(isFirstPrefill || !s.schedulerConfig.sendDeltaData) }

def markComputed (scheduled : ScheduledSequenceGroup) : Method (Scheduler M) Unit := do
  let seqGroup ← group scheduled.seqGroup
  onManager (BlockSpaceManager.markBlocksAsComputed seqGroup scheduled.tokenChunkSize)

def schedule : Method (Scheduler M) (List SequenceGroupMetadata × SchedulerOutputs) := do
  let schedulerOutputs ← scheduleBatch
  let now ← time
  let metadata ← schedulerOutputs.scheduledSeqGroups.mapM (groupMetadata now)
  schedulerOutputs.scheduledSeqGroups.forM markComputed
  return (metadata, schedulerOutputs)

end
end Scheduler
end Vllm
