import VllmProofs.BlockManager
import VllmProofs.Scheduler.Budget

/-!
The state of the V0 `Scheduler`, over any block space manager, and the methods that allocate,
preempt, swap and free one sequence group. Sequence groups are objects, and the queues hold
references to them. Metrics, logging and the caches of output objects are left out.
-/

namespace Vllm
open Exec

abbrev GroupRef := ℕ

/-- `vllm/core/interfaces.py` -/
class BlockSpaceManager (M : Type) where
  canAllocate : SequenceGroup → ℕ → Method M AllocStatus
  allocate : SequenceGroup → Method M Unit
  canAppendSlots : SequenceGroup → ℕ → Method M Bool
  appendSlots : Sequence → ℕ → Method M (List (BlockId × BlockId))
  fork : Sequence → Sequence → Method M Unit
  canSwapIn : SequenceGroup → ℕ → Method M AllocStatus
  swapIn : SequenceGroup → Method M (List (BlockId × BlockId))
  canSwapOut : SequenceGroup → Method M Bool
  swapOut : SequenceGroup → Method M (List (BlockId × BlockId))
  free : Sequence → Method M Unit
  getBlockTable : Sequence → Method M (List BlockId)
  accessAllBlocksInSeq : Sequence → Time → Method M Unit
  getCommonComputedBlockIds : List Sequence → Method M (List BlockId)
  markBlocksAsComputed : SequenceGroup → ℤ → Method M Unit
  getNumCachedTokens : Sequence → Method M ℕ

instance {α : Type} [BlockAllocator α] [PythonHash] :
    BlockSpaceManager (Heaped (SelfAttnBlockSpaceManager α)) where
  canAllocate := SelfAttnBlockSpaceManager.canAllocate
  allocate := SelfAttnBlockSpaceManager.allocate
  canAppendSlots := SelfAttnBlockSpaceManager.canAppendSlots
  appendSlots := SelfAttnBlockSpaceManager.appendSlots
  fork := SelfAttnBlockSpaceManager.fork
  canSwapIn := SelfAttnBlockSpaceManager.canSwapIn
  swapIn := SelfAttnBlockSpaceManager.swapIn
  canSwapOut := SelfAttnBlockSpaceManager.canSwapOut
  swapOut := SelfAttnBlockSpaceManager.swapOut
  free := SelfAttnBlockSpaceManager.free
  getBlockTable := SelfAttnBlockSpaceManager.getBlockTable
  accessAllBlocksInSeq := SelfAttnBlockSpaceManager.accessAllBlocksInSeq
  getCommonComputedBlockIds := SelfAttnBlockSpaceManager.getCommonComputedBlockIds
  markBlocksAsComputed := SelfAttnBlockSpaceManager.markBlocksAsComputed
  getNumCachedTokens := SelfAttnBlockSpaceManager.getNumCachedTokens

structure Scheduler (M : Type) where
  schedulerConfig : SchedulerConfig
  cacheConfig : CacheConfig
  /-- `lora_config.max_loras`, with LoRA enabled. -/
  maxLoras : Option ℕ := none
  useAsyncOutputProc : Bool := false
  blockManager : M
  /-- The objects the queues refer to. -/
  groups : GroupRef → SequenceGroup
  waiting : List GroupRef := []
  running : List GroupRef := []
  swapped : List GroupRef := []
  asyncStopped : List GroupRef := []
  finishedRequestsIds : List String := []
  prevTime : Time := 0
  prevPrompt : Bool := false
  lastPromptLatency : Time := 0
  enableArtificialPreemption : Bool := false
  artificialPreemptCnt : ℕ := 0
  clock : Evictor.Clock
  /-- The values of `random.uniform(0, 1)`, and how many of them are spent. -/
  draws : ℕ → ℚ
  drawn : ℕ := 0
  /-- Not in the source: the copies to the CPU that all swap-outs together have produced. -/
  copies : List (BlockId × BlockId) := []

/-- `output_proc_callback`, which processes the pending output of a request. -/
class OutputProcessor (M : Type) where
  outputProcCallback : String → Method (Scheduler M) Unit

namespace Scheduler

variable {M β : Type}

def onManager : Method M β → Method (Scheduler M) β :=
  zoom blockManager fun blockManager s => { s with blockManager }

def group (g : GroupRef) : Method (Scheduler M) SequenceGroup := do
  let s ← get
  return s.groups g

def updateGroup (g : GroupRef) (f : SequenceGroup → SequenceGroup) : Method (Scheduler M) Unit :=
  modify fun s => { s with groups := Function.update s.groups g (f (s.groups g)) }

def time : Method (Scheduler M) Time := do
  let s ← get
  set { s with clock := { s.clock with reads := s.clock.reads + 1 } }
  return s.clock.readings s.clock.reads

def uniform : Method (Scheduler M) ℚ := do
  let s ← get
  set { s with drawn := s.drawn + 1 }
  return s.draws s.drawn

def artificialPreemptionProb : ℚ := 1 / 2

/-- The condition of `_can_append_slots` that only holds in tests. -/
def preemptsArtificially : Method (Scheduler M) Bool := do
  let s ← get
  if s.enableArtificialPreemption then
    (fun u => u < artificialPreemptionProb && 0 < s.artificialPreemptCnt) <$> uniform
  else return false

def addSeqGroup (g : GroupRef) (seqGroup : SequenceGroup) : Method (Scheduler M) Unit := do
  updateGroup g fun _ => seqGroup
  modify fun s => { s with waiting := s.waiting ++ [g] }

/-- `init_multi_step_from_lookahead_slots`, whose state nothing here reads. -/
def initMultiStepFromLookaheadSlots (seqGroup : SequenceGroup) (numLookaheadSlots : ℕ)
    (enableChunking : Bool) : Method (Scheduler M) Unit := do
  let s ← get
  let numSchedulerSteps := s.schedulerConfig.numSchedulerSteps
  if s.schedulerConfig.isMultiStep = false then pure ()
  else if seqGroup.isPrefill && enableChunking then
    assertThat (numLookaheadSlots = numSchedulerSteps)
  else
    assertThat (numLookaheadSlots = 0 ∨ seqGroup.isPrefill = false)
    assertThat (numLookaheadSlots + 1 = numSchedulerSteps ∨ seqGroup.isPrefill = true)

def passedDelay (now : Time) : Method (Scheduler M) Bool := do
  let s ← get
  let lastPromptLatency := if s.prevPrompt then now - s.prevTime else s.lastPromptLatency
  set { s with lastPromptLatency, prevTime := now, prevPrompt := false }
  match (s.waiting.map fun g => (s.groups g).arrivalTime).min? with
  | some earliestArrivalTime =>
    if 0 < s.schedulerConfig.delayFactor then
      return s.schedulerConfig.delayFactor * lastPromptLatency < now - earliestArrivalTime ||
        s.running.isEmpty
    else return true
  | none => return true

section
variable [BlockSpaceManager M]

def canAppendSlots (g : GroupRef) (enableChunking : Bool) : Method (Scheduler M) Bool := do
  if ← preemptsArtificially then
    modify fun s => { s with artificialPreemptCnt := s.artificialPreemptCnt - 1 }
    return false
  else
    let s ← get
    let seqGroup ← group g
    let numLookaheadSlots :=
      s.schedulerConfig.getNumLookaheadSlots seqGroup.isPrefill enableChunking
    if seqGroup.isPrefill && 0 < numLookaheadSlots then
      assertThat ((s.schedulerConfig.isMultiStep && enableChunking) = true)
    onManager (BlockSpaceManager.canAppendSlots seqGroup numLookaheadSlots)

/-- `_append_slots`; the pairs of blocks it adds to `blocks_to_copy`. -/
def appendSlots (g : GroupRef) (enableChunking : Bool) :
    Method (Scheduler M) (List (BlockId × BlockId)) := do
  let seqGroup ← group g
  let s ← get
  let numLookaheadSlots := s.schedulerConfig.getNumLookaheadSlots seqGroup.isPrefill enableChunking
  initMultiStepFromLookaheadSlots seqGroup numLookaheadSlots enableChunking
  let seqs := if s.schedulerConfig.isMultiStep && enableChunking then seqGroup.seqs
    else seqGroup.getSeqs .running
  let cows ← seqs.mapM fun seq =>
    (onManager (BlockSpaceManager.appendSlots seq numLookaheadSlots) : Method (Scheduler M) _)
  return cows.flatten

def allocateAndSetRunning (g : GroupRef) : Method (Scheduler M) Unit := do
  let seqGroup ← group g
  onManager (BlockSpaceManager.allocate seqGroup)
  updateGroup g (SequenceGroup.setStatus .waiting .running)

def freeSeq (seq : Sequence) : Method (Scheduler M) Unit := onManager (BlockSpaceManager.free seq)

def preemptByRecompute (g : GroupRef) : Method (Scheduler M) Unit := do
  let seqGroup ← group g
  match seqGroup.getSeqs .running with
  | [seq] =>
    updateGroup g (SequenceGroup.setStatus .running .waiting)
    freeSeq seq
    updateGroup g (SequenceGroup.mapSeqs fun seq' =>
      if seq'.seqId = seq.seqId then seq'.resetStateForRecompute else seq')
  | _ => throw .assertionError

def lackOfSwapSpace : PyError := .runtimeError
  "Aborted due to the lack of CPU swap space. Please increase the swap space to avoid this error."

def swapOut (g : GroupRef) : Method (Scheduler M) (List (BlockId × BlockId)) := do
  let seqGroup ← group g
  if ← onManager (BlockSpaceManager.canSwapOut seqGroup) then
    let mapping ← onManager (BlockSpaceManager.swapOut seqGroup)
    modify fun s => { s with copies := s.copies ++ mapping }
    updateGroup g (SequenceGroup.setStatus .running .swapped)
    return mapping
  else throw lackOfSwapSpace

def swapIn (g : GroupRef) : Method (Scheduler M) (List (BlockId × BlockId)) := do
  let seqGroup ← group g
  let mapping ← onManager (BlockSpaceManager.swapIn seqGroup)
  updateGroup g (SequenceGroup.setStatus .swapped .running)
  return mapping

def preemptionMode (config : SchedulerConfig) (seqGroup : SequenceGroup) : PreemptionMode :=
  config.preemptionMode.getD (if seqGroup.getMaxNumRunningSeqs = 1 then .recompute else .swap)

/-- `_preempt`; its mode, and the pairs of blocks it adds to `blocks_to_swap_out`. -/
def preempt (g : GroupRef) : Method (Scheduler M) (PreemptionMode × List (BlockId × BlockId)) := do
  let seqGroup ← group g
  let s ← get
  match preemptionMode s.schedulerConfig seqGroup with
  | .recompute =>
    preemptByRecompute g
    return (.recompute, [])
  | .swap =>
    let mapping ← swapOut g
    return (.swap, mapping)

def freeFinishedSeqs (g : GroupRef) : Method (Scheduler M) Unit := do
  let seqGroup ← group g
  (seqGroup.seqs.filter Sequence.isFinished).forM freeSeq

def addFinishedRequest (g : GroupRef) : Method (Scheduler M) Unit := do
  let seqGroup ← group g
  modify fun s => { s with finishedRequestsIds := s.finishedRequestsIds ++ [seqGroup.requestId] }

def freeFinishedSeqGroup (g : GroupRef) : Method (Scheduler M) Unit := do
  let seqGroup ← group g
  if seqGroup.isFinished then addFinishedRequest g
  freeFinishedSeqs g

/-- The second loop of `free_finished_seq_groups`. -/
def freeAsyncStopped (g : GroupRef) : Method (Scheduler M) Unit := do
  addFinishedRequest g
  freeFinishedSeqs g

def freeFinishedSeqGroups : Method (Scheduler M) Unit := do
  let s ← get
  s.running.forM freeFinishedSeqGroup
  modify fun s => { s with running := s.running.filter fun g => !(s.groups g).isFinished }
  let s ← get
  s.asyncStopped.forM freeAsyncStopped
  modify fun s => { s with asyncStopped := [] }

/-- One round of the loop over the sequences of an aborted group. -/
def abortSeq (g : GroupRef) (seq : Sequence) : Method (Scheduler M) Unit :=
  if seq.isFinished then pure ()
  else do
    updateGroup g (SequenceGroup.mapSeqs fun seq' =>
      if seq'.seqId = seq.seqId then { seq' with status := .finishedAborted } else seq')
    freeSeq seq

/-- What happens to a group after `state_queue.remove`. -/
def abortGroup (g : GroupRef) : Method (Scheduler M) Unit := do
  addFinishedRequest g
  let seqGroup ← group g
  seqGroup.seqs.forM (abortSeq g)

/-- The request a group is a sample of; `groupIds` knows those with several samples. -/
def realRequestId (groupIds : Dict String String) (seqGroup : SequenceGroup) : String :=
  (groupIds.get? seqGroup.requestId).getD seqGroup.requestId

/-- The body of the loop over the groups found in a queue. -/
def abortFrom (queue : Scheduler M → List GroupRef)
    (withQueue : List GroupRef → Scheduler M → Scheduler M) (g : GroupRef) :
    Method (Scheduler M) Unit := do
  modify fun s => withQueue ((queue s).erase g) s
  abortGroup g

/-- The loop over the queues, for one of them; the groups aborted are deleted from `groupIds`. -/
def abortQueue (queue : Scheduler M → List GroupRef)
    (withQueue : List GroupRef → Scheduler M → Scheduler M) (requestIds : List String)
    (groupIds : Dict String String) : Method (Scheduler M) (Dict String String) := do
  let s ← get
  let abortedGroups := (queue s).filter fun g => realRequestId groupIds (s.groups g) ∈ requestIds
  abortedGroups.forM (abortFrom queue withQueue)
  return abortedGroups.foldl (fun groupIds g => groupIds.erase (s.groups g).requestId) groupIds

def abortSeqGroup (requestIds : List String) (groupIds : Dict String String) :
    Method (Scheduler M) Unit := do
  let groupIds ← abortQueue waiting (fun waiting s => { s with waiting }) requestIds groupIds
  let groupIds ← abortQueue running (fun running s => { s with running }) requestIds groupIds
  let _ ← abortQueue swapped (fun swapped s => { s with swapped }) requestIds groupIds

def forkSeq (parentSeq childSeq : Sequence) : Method (Scheduler M) Unit :=
  onManager (BlockSpaceManager.fork parentSeq childSeq)

end
end Scheduler
end Vllm
