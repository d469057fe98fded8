import VllmProofs.Scheduler.Basic

/-!
How `schedule` goes through its queues: `_schedule_running`, `_schedule_swapped`,
`_schedule_priority_preemption` and `_schedule_prefills`.
-/

namespace Vllm
open Exec

structure ScheduledSequenceGroup where
  seqGroup : GroupRef
  tokenChunkSize : ℤ
  deriving DecidableEq, Repr

structure SchedulerRunningOutputs where
  decodeSeqGroups : List ScheduledSequenceGroup := []
  prefillSeqGroups : List ScheduledSequenceGroup := []
  preempted : List GroupRef := []
  swappedOut : List GroupRef := []
  blocksToSwapOut : List (BlockId × BlockId) := []
  blocksToCopy : List (BlockId × BlockId) := []
  numLookaheadSlots : ℕ := 0
  deriving DecidableEq, Repr

structure SchedulerSwappedInOutputs where
  decodeSeqGroups : List ScheduledSequenceGroup := []
  prefillSeqGroups : List ScheduledSequenceGroup := []
  blocksToSwapIn : List (BlockId × BlockId) := []
  blocksToCopy : List (BlockId × BlockId) := []
  infeasibleSeqGroups : List GroupRef := []
  deriving DecidableEq, Repr

structure SchedulerPrefillOutputs where
  seqGroups : List ScheduledSequenceGroup := []
  ignoredSeqGroups : List GroupRef := []
  deriving DecidableEq, Repr

/-- One call of `schedule`: the scheduler, and what its methods hand to each other to update. -/
structure Scheduling (M : Type) where
  scheduler : Scheduler M
  budget : SchedulingBudget
  currLoras : Option (Finset ℕ)
  partialPrefillMetadata : Option PartialPrefillMetadata := none

namespace Scheduling
open Scheduler

variable {M β : Type}

def onScheduler : Method (Scheduler M) β → Method (Scheduling M) β :=
  zoom scheduler fun scheduler s => { s with scheduler }

def onBudget : Method SchedulingBudget β → Method (Scheduling M) β :=
  zoom budget fun budget s => { s with budget }

def getScheduler : Method (Scheduling M) (Scheduler M) := onScheduler get

def modifyLoras (f : Finset ℕ → Finset ℕ) : Method (Scheduling M) Unit :=
  modify fun s => { s with currLoras := s.currLoras.map f }

/-- The adapter of a scheduled group is in the batch. -/
def addLora (loraIntId : ℕ) : Method (Scheduling M) Unit :=
  if 0 < loraIntId then modifyLoras (insert loraIntId) else pure ()

/-- With LoRA enabled, the adapter of a group that leaves its queue is in the batch. -/
def countAdapter (seqGroup : SequenceGroup) : Method (Scheduling M) Unit := do
  let s ← get
  if s.scheduler.maxLoras.isSome then addLora seqGroup.loraIntId else pure ()

/-- Is there no space for the adapter of the group? -/
def loraIsFull (seqGroup : SequenceGroup) : Method (Scheduling M) Bool := do
  let s ← get
  match s.scheduler.maxLoras with
  | none => return false
  | some maxLoras =>
    match s.currLoras with
    | none => throw .assertionError
    | some currLoras =>
      return 0 < seqGroup.loraIntId && seqGroup.loraIntId ∉ currLoras && maxLoras ≤ currLoras.card

/-! ### How many tokens to schedule -/

def getPromptLimit (config : SchedulerConfig) (seqGroup : SequenceGroup) : Method (Scheduling M) ℤ := do
  let promptLimit := if config.chunkedPrefillEnabled && !config.isMultiStep then config.maxModelLen
    else min config.maxModelLen config.maxNumBatchedTokens
  if seqGroup.longLoraMaxLen ≠ 0 then
    assertThat (promptLimit ≤ seqGroup.longLoraMaxLen)
    return seqGroup.longLoraMaxLen
  else return promptLimit

def chunkNewTokensToSchedule (s : Scheduling M) (promptLimit numNewTokens : ℤ) : ℤ :=
  let config := s.scheduler.schedulerConfig
  let remainingTokenBudget := s.budget.remainingTokenBudget
  if config.isMultiStep then
    if promptLimit < numNewTokens then numNewTokens
    else if remainingTokenBudget < numNewTokens then 0 else numNewTokens
  else
    let prefillSlotBudget := s.partialPrefillMetadata.elim remainingTokenBudget fun metadata =>
      config.partialPrefillBudget metadata.schedulablePrefills
    let remainingTokenBudget :=
      if s.scheduler.cacheConfig.enablePrefixCaching then
        let blockSize := s.scheduler.cacheConfig.blockSize
        min remainingTokenBudget prefillSlotBudget / blockSize * blockSize
      else remainingTokenBudget
    min numNewTokens (min remainingTokenBudget prefillSlotBudget)

variable [BlockSpaceManager M]

def newTokensOfSeq (seq : Sequence) : Method (Scheduling M) (ℤ × ℤ) :=
  if seq.isPrefill = false then return (1, 0)
  else do
    let s ← getScheduler
    let allNumNewTokens : ℤ := seq.getLen - seq.numComputedTokens
    if s.cacheConfig.enablePrefixCaching = false then return (allNumNewTokens, 0)
    else
      let numCachedTokens ← onScheduler (onManager (BlockSpaceManager.getNumCachedTokens seq))
      if numCachedTokens < seq.numComputedTokens then
        assertThat (seq.status = .running ∧ s.schedulerConfig.chunkedPrefillEnabled = true)
      let numCachedNewTokens := max 0 ((numCachedTokens : ℤ) - seq.numComputedTokens)
      return (allNumNewTokens - numCachedNewTokens, numCachedNewTokens)

def sumNewTokens : List Sequence → Method (Scheduling M) (ℤ × ℤ)
  | [] => return (0, 0)
  | seq :: rest => do
    let (uncached, cached) ← newTokensOfSeq seq
    let (uncached', cached') ← sumNewTokens rest
    return (uncached + uncached', cached + cached')

def getNumNewUncachedAndCachedTokens (seqGroup : SequenceGroup) (status : SequenceStatus)
    (enableChunking : Bool) : Method (Scheduling M) (ℤ × ℤ) := do
  let seqs := seqGroup.getSeqs status
  let (uncached, cached) ← sumNewTokens seqs
  -- a fully cached sequence still computes its last token
  let (uncached, cached) := if uncached = 0 ∧ 0 < cached then (1, cached - 1) else (uncached, cached)
  if enableChunking && seqs.length = 1 then
    let s ← get
    let promptLimit ← getPromptLimit s.scheduler.schedulerConfig seqGroup
    return (chunkNewTokensToSchedule s promptLimit uncached, cached)
  else return (uncached, cached)

/-! ### The running queue -/

def releaseBudget (seqGroup : SequenceGroup) (numTokens : ℤ) : Method (Scheduling M) Unit := do
  onBudget (SchedulingBudget.subtractNumBatchedTokens seqGroup.requestId numTokens)
  onBudget (SchedulingBudget.subtractNumSeqs seqGroup.requestId seqGroup.getMaxNumRunningSeqs)

section
variable [OutputProcessor M]

/-- The victim's pending output is processed first, which may finish it. -/
def finishedByOutput (victim : GroupRef) : Method (Scheduling M) Bool := do
  let s ← getScheduler
  if s.useAsyncOutputProc then
    onScheduler (OutputProcessor.outputProcCallback (s.groups victim).requestId)
    let victimGroup ← onScheduler (group victim)
    if victimGroup.isFinished then
      onScheduler (freeFinishedSeqGroup victim)
      return true
    else return false
  else return false

def preemptVictim (victim : GroupRef) (ret : SchedulerRunningOutputs) :
    Method (Scheduling M) SchedulerRunningOutputs := do
  if ← finishedByOutput victim then return ret
  else
    let (mode, mapping) ← onScheduler (preempt victim)
    match mode with
    | .recompute => return { ret with preempted := ret.preempted ++ [victim] }
    | .swap =>
      return { ret with
        swappedOut := ret.swappedOut ++ [victim]
        blocksToSwapOut := ret.blocksToSwapOut ++ mapping }

/-- The group loses its place in the budget, and its adapter its place in the batch. -/
def withdraw (g : GroupRef) (numRunningTokens : ℤ) : Method (Scheduling M) Unit := do
  let seqGroup ← onScheduler (group g)
  releaseBudget seqGroup numRunningTokens
  if 0 < seqGroup.loraIntId then modifyLoras fun loras => loras.erase seqGroup.loraIntId else pure ()

def preemptItself (g : GroupRef) (ret : SchedulerRunningOutputs) :
    Method (Scheduling M) (Bool × SchedulerRunningOutputs) := do
  let ret ← preemptVictim g ret
  return (false, ret)

/-- The inner `while` loop: preempt from the end of the queue until there are slots to append for
`g`, and `g` itself when the queue is empty. A round takes a group out of the queue. -/
def makeRoom (g : GroupRef) (numRunningTokens : ℤ) (enableChunking : Bool) :
    ℕ → SchedulerRunningOutputs → Method (Scheduling M) (Bool × SchedulerRunningOutputs)
  | 0, ret => do
    if ← onScheduler (canAppendSlots g enableChunking) then return (true, ret)
    else
      withdraw g numRunningTokens
      preemptItself g ret
  | rounds + 1, ret => do
    if ← onScheduler (canAppendSlots g enableChunking) then return (true, ret)
    else
      withdraw g numRunningTokens
      let s ← getScheduler
      match s.running.getLast? with
      | none => preemptItself g ret
      | some victim =>
        onScheduler (modify fun s => { s with running := s.running.dropLast })
        let ret ← preemptVictim victim ret
        makeRoom g numRunningTokens enableChunking rounds ret

/-- With chunked prefill the budget did not count the sequences before. -/
def countScheduled (seqGroup : SequenceGroup) (numRunningTokens : ℤ) (enableChunking : Bool) :
    Method (Scheduling M) Unit := do
  onBudget (SchedulingBudget.addNumBatchedTokens seqGroup.requestId numRunningTokens 0)
  if enableChunking then
    onBudget (SchedulingBudget.addNumSeqs seqGroup.requestId seqGroup.getMaxNumRunningSeqs)
  else pure ()

def scheduleRunningGroup (g : GroupRef) (numRunningTokens : ℤ) (enableChunking : Bool)
    (ret : SchedulerRunningOutputs) : Method (Scheduling M) SchedulerRunningOutputs := do
  let cows ← onScheduler (appendSlots g enableChunking)
  let seqGroup ← onScheduler (group g)
  countScheduled seqGroup numRunningTokens enableChunking
  addLora seqGroup.loraIntId
  let ret := { ret with blocksToCopy := ret.blocksToCopy ++ cows }
  if seqGroup.isPrefill then
    return { ret with prefillSeqGroups := ret.prefillSeqGroups ++ [⟨g, numRunningTokens⟩] }
  else return { ret with decodeSeqGroups := ret.decodeSeqGroups ++ [⟨g, 1⟩] }

/-- The outer `while` loop. A round takes a group out of the queue. -/
def scheduleRunningLoop (enableChunking : Bool) :
    ℕ → SchedulerRunningOutputs → Method (Scheduling M) SchedulerRunningOutputs
  | 0, ret => return ret
  | rounds + 1, ret => do
    let s ← getScheduler
    match s.running with
    | [] => return ret
    | g :: rest =>
      let (numRunningTokens, _) ←
        getNumNewUncachedAndCachedTokens (s.groups g) .running enableChunking
      if numRunningTokens = 0 then return ret
      else
        onScheduler (modify fun s => { s with running := rest })
        if s.useAsyncOutputProc && s.schedulerConfig.maxModelLen < (s.groups g).firstSeq.getLen then
          onScheduler (modify fun s => { s with asyncStopped := s.asyncStopped ++ [g] })
          scheduleRunningLoop enableChunking rounds ret
        else
          let (fits, ret) ← makeRoom g numRunningTokens enableChunking rest.length ret
          if fits then
            let ret ← scheduleRunningGroup g numRunningTokens enableChunking ret
            scheduleRunningLoop enableChunking rounds ret
          else scheduleRunningLoop enableChunking rounds ret

def scheduleRunning (enableChunking : Bool) : Method (Scheduling M) SchedulerRunningOutputs := do
  let s ← getScheduler
  assertThat (s.asyncStopped = [])
  scheduleRunningLoop enableChunking s.running.length
    { numLookaheadSlots := s.schedulerConfig.getNumLookaheadSlots false enableChunking }

end

/-! ### The swapped queue -/

def setSwapped (swapped : List GroupRef) : Method (Scheduling M) Unit :=
  onScheduler (modify fun s => { s with swapped })

/-- What a loop over the waiting or the swapped queue does with the first group. -/
inductive Decision where
  /-- The loop ends. -/
  | stop
  /-- The group is left over for the next time. -/
  | leave
  /-- The group can never be scheduled. -/
  | fail
  /-- The group is scheduled, with these numbers of new uncached and cached tokens. -/
  | take (uncached cached : ℤ)
  deriving DecidableEq, Repr

/-- The lines of `_schedule_swapped` after the group has been found to fit. -/
def resume (g : GroupRef) (isPrefill : Bool) (numNewTokensUncached numNewTokensCached : ℤ)
    (enableChunking : Bool) (ret : SchedulerSwappedInOutputs) :
    Method (Scheduling M) SchedulerSwappedInOutputs := do
  let mapping ← onScheduler (swapIn g)
  let cows ← onScheduler (appendSlots g enableChunking)
  let seqGroup ← onScheduler (group g)
  onBudget (SchedulingBudget.addNumBatchedTokens seqGroup.requestId numNewTokensUncached
    numNewTokensCached)
  onBudget (SchedulingBudget.addNumSeqs seqGroup.requestId seqGroup.getMaxNumRunningSeqs)
  let ret := { ret with
    blocksToSwapIn := ret.blocksToSwapIn ++ mapping
    blocksToCopy := ret.blocksToCopy ++ cows }
  if isPrefill then
    return { ret with prefillSeqGroups :=
      ret.prefillSeqGroups ++ [⟨g, numNewTokensUncached + numNewTokensCached⟩] }
  else return { ret with decodeSeqGroups := ret.decodeSeqGroups ++ [⟨g, 1⟩] }

/-- Does the budget hold the tokens and the sequences of a group? -/
def fitsBudget (numNewTokensUncached numNewSeqs : ℤ) : Method (Scheduling M) Bool :=
  if numNewTokensUncached = 0 then return false
  else onBudget (SchedulingBudget.canSchedule numNewTokensUncached numNewSeqs)

def considerSwapped (seqGroup : SequenceGroup) (enableChunking : Bool) :
    Method (Scheduling M) Decision := do
  let s ← getScheduler
  let numLookaheadSlots :=
    s.schedulerConfig.getNumLookaheadSlots seqGroup.isPrefill enableChunking
  match ← onScheduler (onManager (BlockSpaceManager.canSwapIn seqGroup numLookaheadSlots)) with
  | .later => return .stop
  | .never => return .fail
  | .ok =>
    if ← loraIsFull seqGroup then return .leave
    else
      let (uncached, cached) ← getNumNewUncachedAndCachedTokens seqGroup .swapped enableChunking
      if ← fitsBudget uncached seqGroup.getMaxNumRunningSeqs then return .take uncached cached
      else return .stop

def ignoreAll : SequenceGroup → SequenceGroup :=
  SequenceGroup.mapSeqs fun seq => { seq with status := .finishedIgnored }

/-- The `while` loop, and the groups left over. A round takes a group out of the queue. -/
def scheduleSwappedLoop (enableChunking : Bool) : ℕ → List GroupRef → SchedulerSwappedInOutputs →
    Method (Scheduling M) (List GroupRef × SchedulerSwappedInOutputs)
  | 0, leftover, ret => return (leftover, ret)
  | rounds + 1, leftover, ret => do
    let s ← getScheduler
    match s.swapped with
    | [] => return (leftover, ret)
    | g :: rest =>
      match ← considerSwapped (s.groups g) enableChunking with
      | .stop => return (leftover, ret)
      | .leave =>
        setSwapped rest
        scheduleSwappedLoop enableChunking rounds (g :: leftover) ret
      | .fail =>
        onScheduler (updateGroup g ignoreAll)
        setSwapped rest
        scheduleSwappedLoop enableChunking rounds leftover
          { ret with infeasibleSeqGroups := ret.infeasibleSeqGroups ++ [g] }
      | .take uncached cached =>
        countAdapter (s.groups g)
        setSwapped rest
        let ret ← resume g (s.groups g).isPrefill uncached cached enableChunking ret
        scheduleSwappedLoop enableChunking rounds leftover ret

def scheduleSwapped (enableChunking : Bool) : Method (Scheduling M) SchedulerSwappedInOutputs := do
  let s ← getScheduler
  -- the metadata about partial prefills is not handed to this method
  let metadata := (← get).partialPrefillMetadata
  modify fun s => { s with partialPrefillMetadata := none }
  let (leftover, ret) ← scheduleSwappedLoop enableChunking s.swapped.length [] {}
  modify fun s => { s with partialPrefillMetadata := metadata }
  onScheduler (modify fun s => { s with swapped := leftover.reverse ++ s.swapped })
  return ret

/-! ### Preemption by priority -/

/-- `_get_priority`, compared as Python compares the pairs. -/
def lowerPriority (left right : SequenceGroup) : Bool :=
  right.priority < left.priority ||
    (right.priority = left.priority && right.arrivalTime < left.arrivalTime)

def sortByPriority (groups : GroupRef → SequenceGroup) (queue : List GroupRef) : List GroupRef :=
  queue.insertionSort fun g g' => lowerPriority (groups g) (groups g') = false

/-- Could the waiting group be scheduled without a preemption? -/
def fitsNow (seqGroup : SequenceGroup) (numNewTokensUncached numNewSeqs : ℤ) :
    Method (Scheduling M) Bool := do
  let canAllocate ← onScheduler (onManager (BlockSpaceManager.canAllocate seqGroup 0))
  if 0 < numNewTokensUncached ∧ canAllocate = .ok then
    onBudget (SchedulingBudget.canSchedule numNewTokensUncached numNewSeqs)
  else return false

/-- The `while` loop over the running queue, last group first; the groups that stay, in the same
order, and the number of preemptions. What it has to swap out goes nowhere. -/
def forcePreempt (seqGroup : SequenceGroup) (numNewTokensUncached numNewSeqs : ℤ) :
    List GroupRef → Method (Scheduling M) (List GroupRef × ℕ)
  | [] => return ([], 0)
  | victim :: others => do
    let s ← getScheduler
    if lowerPriority (s.groups victim) seqGroup then
      if ← fitsNow seqGroup numNewTokensUncached numNewSeqs then return (victim :: others, 0)
      else
        let victimGroup := s.groups victim
        let (numRunningTokens, _) ← getNumNewUncachedAndCachedTokens victimGroup .running false
        releaseBudget victimGroup numRunningTokens
        let _ ← onScheduler (preempt victim)
        onScheduler (modify fun s => { s with waiting := victim :: s.waiting })
        let (stay, count) ← forcePreempt seqGroup numNewTokensUncached numNewSeqs others
        return (stay, count + 1)
    else return (victim :: others, 0)

/-- Makes room for the first waiting group, which stays at the front of its queue. -/
def preemptForWaiting (runningQueue : List GroupRef) : Method (Scheduling M) (List GroupRef × ℕ) := do
  let s ← getScheduler
  match s.waiting with
  | [] => return (runningQueue.reverse, 0)
  | g :: rest =>
    onScheduler (modify fun s => { s with waiting := rest })
    let seqGroup := s.groups g
    let (uncached, _) ← getNumNewUncachedAndCachedTokens seqGroup .waiting false
    let outcome ← forcePreempt seqGroup uncached seqGroup.getMaxNumRunningSeqs runningQueue.reverse
    onScheduler (modify fun s => { s with waiting := g :: s.waiting })
    return outcome

def schedulePriorityPreemption : Method (Scheduling M) ℕ := do
  let s ← getScheduler
  let (stay, count) ← preemptForWaiting (sortByPriority s.groups s.running)
  onScheduler (modify fun s =>
    { s with waiting := sortByPriority s.groups s.waiting, running := stay.reverse })
  return count

/-! ### The waiting queue -/

def setWaiting (waiting : List GroupRef) : Method (Scheduling M) Unit :=
  onScheduler (modify fun s => { s with waiting })

def delayHasPassed : Method (Scheduler M) Bool := do
  let now ← time
  passedDelay now

def prefillLookaheadSlots (config : SchedulerConfig) (enableChunking : Bool) : ℕ :=
  if config.isMultiStep && enableChunking then config.getNumLookaheadSlots true enableChunking else 0

/-- A group that can never be scheduled leaves the queue. -/
def ignore (g : GroupRef) (rest : List GroupRef) : Method (Scheduling M) Unit := do
  onScheduler (updateGroup g (SequenceGroup.setStatus .waiting .finishedIgnored))
  setWaiting rest

def considerPrefill (seqGroup : SequenceGroup) (enableChunking : Bool) :
    Method (Scheduling M) Decision := do
  let s ← get
  let config := s.scheduler.schedulerConfig
  let waitingSeqs := seqGroup.getSeqs .waiting
  assertThat (waitingSeqs.length = 1)
  if s.partialPrefillMetadata.any fun metadata => !metadata.canSchedule config seqGroup then
    return .leave
  else
    let (uncached, cached) ← getNumNewUncachedAndCachedTokens seqGroup .waiting enableChunking
    assertThat (enableChunking = true ∨
      waitingSeqs.map (fun seq => (seq.getLen : ℤ)) = [uncached + cached])
    let promptLimit ← getPromptLimit config seqGroup
    if promptLimit < uncached + cached then return .fail
    else
      let numLookaheadSlots := prefillLookaheadSlots config enableChunking
      match ← onScheduler (onManager (BlockSpaceManager.canAllocate seqGroup numLookaheadSlots)) with
      | .later => return .stop
      | .never => return .fail
      | .ok =>
        if ← loraIsFull seqGroup then return .leave
        else
          let t ← get
          if config.maxNumBatchedTokens ≤ t.budget.numBatchedTokens then return .stop
          else if ← fitsBudget uncached seqGroup.getMaxNumRunningSeqs then
            return .take uncached cached
          else return .stop

/-- The state of the prefill that begins, and its slots if prefills take several steps. -/
def prepare (g : GroupRef) (seqGroup : SequenceGroup) (enableChunking : Bool) :
    Method (Scheduling M) Unit := do
  let s ← getScheduler
  let config := s.schedulerConfig
  let increment := PartialPrefillMetadata.maybeIncrementPartialPrefills config seqGroup
  modify fun t => { t with partialPrefillMetadata := t.partialPrefillMetadata.map increment }
  if enableChunking && config.isMultiStep then
    let blocksToCopy ← onScheduler (appendSlots g enableChunking)
    assertThat (blocksToCopy = [])
  else
    onScheduler (initMultiStepFromLookaheadSlots seqGroup (prefillLookaheadSlots config enableChunking)
      enableChunking)

/-- The lines of `_schedule_prefills` after the group has been found to fit. -/
def start (g : GroupRef) (rest : List GroupRef) (uncached cached : ℤ) (enableChunking : Bool) :
    Method (Scheduling M) Unit := do
  let seqGroup ← onScheduler (group g)
  countAdapter seqGroup
  setWaiting rest
  onScheduler (allocateAndSetRunning g)
  prepare g seqGroup enableChunking
  onBudget (SchedulingBudget.addNumBatchedTokens seqGroup.requestId uncached cached)
  onBudget (SchedulingBudget.addNumSeqs seqGroup.requestId seqGroup.getMaxNumRunningSeqs)

/-- The `while` loop, and the groups left over. A round takes a group out of the queue. -/
def schedulePrefillsLoop (enableChunking : Bool) : ℕ → List GroupRef → SchedulerPrefillOutputs →
    Method (Scheduling M) (List GroupRef × SchedulerPrefillOutputs)
  | 0, leftover, ret => do
    let _ ← onScheduler delayHasPassed
    return (leftover, ret)
  | rounds + 1, leftover, ret => do
    let passed ← onScheduler delayHasPassed
    let s ← getScheduler
    match passed, s.waiting with
    | true, g :: rest =>
      match ← considerPrefill (s.groups g) enableChunking with
      | .stop => return (leftover, ret)
      | .leave =>
        setWaiting rest
        schedulePrefillsLoop enableChunking rounds (g :: leftover) ret
      | .fail =>
        ignore g rest
        schedulePrefillsLoop enableChunking rounds leftover
          { ret with ignoredSeqGroups := ret.ignoredSeqGroups ++ [g] }
      | .take uncached cached =>
        start g rest uncached cached enableChunking
        schedulePrefillsLoop enableChunking rounds leftover
          { ret with seqGroups := ret.seqGroups ++ [⟨g, uncached + cached⟩] }
    | _, _ => return (leftover, ret)

def schedulePrefills (enableChunking : Bool) : Method (Scheduling M) SchedulerPrefillOutputs := do
  let s ← get
  if s.budget.remainingTokenBudget = 0 then return {}
  else
    let (leftover, ret) ← schedulePrefillsLoop enableChunking s.scheduler.waiting.length [] {}
    onScheduler (modify fun s =>
      { s with
        waiting := leftover.reverse ++ s.waiting
        prevPrompt := if ret.seqGroups.length = 0 then s.prevPrompt else true })
    return ret

end Scheduling
end Vllm
