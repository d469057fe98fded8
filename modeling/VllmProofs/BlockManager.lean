import VllmProofs.Block.BlockTable

/-!
`SelfAttnBlockSpaceManager` for decoder-only models: one block table for each sequence, and the
questions the scheduler asks before it allocates, appends or swaps.
-/

namespace Vllm
open Exec Heaped

inductive AllocStatus where
  | ok | later | never
  deriving DecidableEq, Repr

structure SelfAttnBlockSpaceManager (α : Type) where
  blockSize : ℕ
  numTotalGpuBlocks : ℕ
  numTotalCpuBlocks : ℕ
  maxBlockSlidingWindow : Option ℕ
  watermarkBlocks : ℕ
  enableCaching : Bool
  blockAllocator : CpuGpuBlockAllocator α
  blockTables : Dict SeqId BlockTable := ∅
  computedBlocksTracker : ComputedBlocksTracker
  lastAccessBlocksTracker : LastAccessBlocksTracker := {}

namespace SelfAttnBlockSpaceManager
open CpuGpuBlockAllocator

variable {α β : Type}

/-- The number of blocks a window may stretch over. -/
def windowBlocks (blockSize slidingWindow : ℕ) : ℕ := slidingWindow / blockSize + 1 + 1

/-- `__init__`, with the allocators that `CpuGpuBlockAllocator.create` returns. -/
def init (blockSize numGpuBlocks numCpuBlocks : ℕ) (watermark : ℚ) (slidingWindow : Option ℕ)
    (enableCaching : Bool) (blockAllocator : CpuGpuBlockAllocator α) :
    SelfAttnBlockSpaceManager α where
  blockSize
  numTotalGpuBlocks := numGpuBlocks
  numTotalCpuBlocks := numCpuBlocks
  maxBlockSlidingWindow := slidingWindow.map (windowBlocks blockSize)
  watermarkBlocks := ⌊watermark * numGpuBlocks⌋.toNat
  enableCaching
  blockAllocator
  computedBlocksTracker := { blockSize, enableCaching }

def onAllocator (method : Method (Heaped (CpuGpuBlockAllocator α)) β) :
    Method (Heaped (SelfAttnBlockSpaceManager α)) β :=
  zoom (fun s => ⟨s.objects, s.self.blockAllocator⟩)
    (fun t s => ⟨t.objects, { s.self with blockAllocator := t.self }⟩) method

def onComputedBlocks (method : Method (Tracking ComputedBlocksTracker (CpuGpuBlockAllocator α)) β) :
    Method (Heaped (SelfAttnBlockSpaceManager α)) β :=
  zoom (fun s => ⟨s.self.computedBlocksTracker, s.self.blockAllocator⟩)
    (fun t s => { s with self := { s.self with
      computedBlocksTracker := t.tracker, blockAllocator := t.allocator } }) method

def onLastAccess (method : Method (Tracking LastAccessBlocksTracker (CpuGpuBlockAllocator α)) β) :
    Method (Heaped (SelfAttnBlockSpaceManager α)) β :=
  zoom (fun s => ⟨s.self.lastAccessBlocksTracker, s.self.blockAllocator⟩)
    (fun t s => { s with self := { s.self with
      lastAccessBlocksTracker := t.tracker, blockAllocator := t.allocator } }) method

def tableOf (seqId : SeqId) : Method (Heaped (SelfAttnBlockSpaceManager α)) BlockTable := do
  let s ← get
  match s.self.blockTables.get? seqId with
  | none => throw .keyError
  | some table => return table

def setTable (seqId : SeqId) (table : BlockTable) :
    Method (Heaped (SelfAttnBlockSpaceManager α)) Unit :=
  modify fun s => { s with self :=
    { s.self with blockTables := s.self.blockTables.insert seqId table } }

/-- A method of `self.block_tables[seq_id]`. -/
def onTable (seqId : SeqId) (method : Method (Heaped (Tabled α)) β) :
    Method (Heaped (SelfAttnBlockSpaceManager α)) β := do
  let table ← tableOf seqId
  zoom (fun s => ⟨s.objects, ⟨s.self.blockAllocator, table⟩⟩)
    (fun t s => ⟨t.objects, { s.self with
      blockAllocator := t.self.allocator
      blockTables := s.self.blockTables.insert seqId t.self.table }⟩) method

/-- A method of a block table that is not among the tables yet, with that table afterwards. -/
def withTable (table : BlockTable) (method : Method (Heaped (Tabled α)) β) :
    Method (Heaped (SelfAttnBlockSpaceManager α)) BlockTable :=
  zoom (fun s => ⟨s.objects, ⟨s.self.blockAllocator, table⟩⟩)
    (fun t s => ⟨t.objects, { s.self with blockAllocator := t.self.allocator }⟩) (do
      let _ ← method
      BlockTable.getTable)

variable [BlockAllocator α]

def numFreeGpuBlocks (s : SelfAttnBlockSpaceManager α) : ℕ := getNumFreeBlocks .gpu s.blockAllocator

/-- The blocks `can_allocate` counts for the prompt of a sequence. -/
def numRequiredBlocks (s : SelfAttnBlockSpaceManager α) (seq : Sequence) (numLookaheadSlots : ℕ) : ℤ :=
  let required := BlockTable.getNumRequiredBlocks seq.getTokenIds s.blockSize numLookaheadSlots
  match s.maxBlockSlidingWindow with
  | none => required
  | some maxBlockSlidingWindow => min required maxBlockSlidingWindow

def allocStatus (s : SelfAttnBlockSpaceManager α) (numRequiredBlocks : ℤ) : AllocStatus :=
  if s.numTotalGpuBlocks - numRequiredBlocks < s.watermarkBlocks then .never
  else if s.watermarkBlocks ≤ s.numFreeGpuBlocks - numRequiredBlocks then .ok
  else .later

/-- The first waiting sequence, whose prompt stands for that of the group. -/
def firstWaiting (seqGroup : SequenceGroup) :
    Method (Heaped (SelfAttnBlockSpaceManager α)) Sequence :=
  match seqGroup.getSeqs .waiting with
  | [] => throw .indexError
  | seq :: _ => return seq

def canAllocate (seqGroup : SequenceGroup) (numLookaheadSlots : ℕ) :
    Method (Heaped (SelfAttnBlockSpaceManager α)) AllocStatus := do
  let seq ← firstWaiting seqGroup
  let s ← get
  return s.self.allocStatus (s.self.numRequiredBlocks seq numLookaheadSlots)

def allocateSequence (seq : Sequence) : Method (Heaped (SelfAttnBlockSpaceManager α)) BlockTable := do
  let s ← get
  let table : BlockTable :=
    { blockSize := s.self.blockSize, maxBlockSlidingWindow := s.self.maxBlockSlidingWindow }
  if seq.getTokenIds = [] then return table
  else withTable table (BlockTable.allocate seq.getTokenIds .gpu seq.extraHash)

def trackSeq (seqId : SeqId) : Method (Heaped (SelfAttnBlockSpaceManager α)) Unit :=
  onLastAccess (Tracking.onTracker (LastAccessBlocksTracker.addSeq seqId))

/-- One round of the loop of `allocate`: a waiting sequence gets a fork of the first one's table. -/
def allocateFork (first seq : Sequence) : Method (Heaped (SelfAttnBlockSpaceManager α)) Unit := do
  let forked ← onTable first.seqId BlockTable.fork
  setTable seq.seqId forked
  trackSeq seq.seqId

def allocate (seqGroup : SequenceGroup) : Method (Heaped (SelfAttnBlockSpaceManager α)) Unit := do
  let waitingSeqs := seqGroup.getSeqs .waiting
  let s ← get
  assertThat (waitingSeqs.all (fun seq => !s.self.blockTables.contains seq.seqId) = true)
  match waitingSeqs with
  | [] => throw .indexError
  | seq :: rest =>
    let blockTable ← allocateSequence seq
    setTable seq.seqId blockTable
    trackSeq seq.seqId
    rest.forM (allocateFork seq)

/-- The blocks that appending the unseen tokens of the sequences touches. -/
def numTouchedBlocks (numLookaheadSlots : ℕ) : List Sequence →
    Method (Heaped (SelfAttnBlockSpaceManager α)) ℤ
  | [] => return 0
  | seq :: rest => do
    let blockTable ← tableOf seq.seqId
    let touched := blockTable.getNumBlocksTouchedByAppendSlots
      (blockTable.getUnseenTokenIds seq.getTokenIds) numLookaheadSlots
    let others ← numTouchedBlocks numLookaheadSlots rest
    return touched + others

def canAppendSlots (seqGroup : SequenceGroup) (numLookaheadSlots : ℕ) :
    Method (Heaped (SelfAttnBlockSpaceManager α)) Bool := do
  let touched ← numTouchedBlocks numLookaheadSlots (seqGroup.getSeqs .running)
  let s ← get
  return touched ≤ s.self.numFreeGpuBlocks

def appendSlots (seq : Sequence) (numLookaheadSlots : ℕ) :
    Method (Heaped (SelfAttnBlockSpaceManager α)) (List (BlockId × BlockId)) := do
  let blockTable ← tableOf seq.seqId
  onTable seq.seqId (BlockTable.appendTokenIds (blockTable.getUnseenTokenIds seq.getTokenIds)
    numLookaheadSlots (some seq.numComputedTokens) seq.extraHash)
  onAllocator (onSelf clearCopyOnWrites)

def free (seq : Sequence) : Method (Heaped (SelfAttnBlockSpaceManager α)) Unit := do
  let s ← get
  match s.self.blockTables.get? seq.seqId with
  | none => pure ()
  | some blockTable =>
    onLastAccess (LastAccessBlocksTracker.updateBlocksMetadata seq.seqId blockTable.blockIds)
    onTable seq.seqId BlockTable.free
    modify fun s => { s with self :=
      { s.self with blockTables := s.self.blockTables.erase seq.seqId } }
    onLastAccess (Tracking.onTracker (LastAccessBlocksTracker.removeSeq seq.seqId))
    onComputedBlocks (Tracking.onTracker (ComputedBlocksTracker.removeSeq seq.seqId))

def getBlockTable (seq : Sequence) : Method (Heaped (SelfAttnBlockSpaceManager α)) (List BlockId) := do
  let blockTable ← tableOf seq.seqId
  return blockTable.blockIds

def fork (parentSeq childSeq : Sequence) : Method (Heaped (SelfAttnBlockSpaceManager α)) Unit := do
  let s ← get
  if s.self.blockTables.contains parentSeq.seqId then
    let forked ← onTable parentSeq.seqId BlockTable.fork
    setTable childSeq.seqId forked
    trackSeq childSeq.seqId

def accessAllBlocksInSeq (seq : Sequence) (now : Time) :
    Method (Heaped (SelfAttnBlockSpaceManager α)) Unit := do
  let s ← get
  if s.self.enableCaching then
    onLastAccess (Tracking.onTracker (LastAccessBlocksTracker.updateLastAccess seq.seqId now))
    onLastAccess (LastAccessBlocksTracker.updateCacheHint seq.seqId seq.cacheHint)

/-- `mark_blocks_as_computed`, which ignores the group and the chunk it is called for. -/
def markBlocksAsComputed (_seqGroup : SequenceGroup) (_tokenChunkSize : ℤ) :
    Method (Heaped (SelfAttnBlockSpaceManager α)) Unit :=
  onAllocator (onSelf CpuGpuBlockAllocator.markBlocksAsComputed)

variable [PythonHash]

def getNumCachedTokens (seq : Sequence) : Method (Heaped (SelfAttnBlockSpaceManager α)) ℕ :=
  onComputedBlocks (ComputedBlocksTracker.getNumCachedTokens seq)

/-- One round of the loop of `get_common_computed_block_ids`. -/
def computedBlockIds (seq : Sequence) : Method (Heaped (SelfAttnBlockSpaceManager α)) (List BlockId) := do
  let blockTable ← tableOf seq.seqId
  let numCachedTokens ← getNumCachedTokens seq
  let s ← get
  assertThat (numCachedTokens % s.self.blockSize = 0)
  return blockTable.blockIds.take (numCachedTokens / s.self.blockSize)

def getCommonComputedBlockIds (seqs : List Sequence) :
    Method (Heaped (SelfAttnBlockSpaceManager α)) (List BlockId) := do
  let computedSeqBlockIds ← seqs.mapM computedBlockIds
  return BlockAllocator.getCommonComputedBlockIds α computedSeqBlockIds

omit [PythonHash]

/-- The physical ids of a mapping: a dict, whose keys the source ids are. -/
def physicalMapping (srcDevice dstDevice : Device) : List (BlockId × BlockId) →
    Dict BlockId BlockId → Method (CpuGpuBlockAllocator α) (Dict BlockId BlockId)
  | [], mapping => return mapping
  | (source, target) :: rest, mapping => do
    let physicalSource ← CpuGpuBlockAllocator.getPhysicalBlockId srcDevice source
    let physicalTarget ← CpuGpuBlockAllocator.getPhysicalBlockId dstDevice target
    physicalMapping srcDevice dstDevice rest (mapping.insert physicalSource physicalTarget)

def swapSeq (srcDevice dstDevice : Device) (seq : Sequence) :
    Method (Heaped (SelfAttnBlockSpaceManager α)) (List (BlockId × BlockId)) := do
  let blockTable ← tableOf seq.seqId
  if blockTable.blocks = [] then return []
  else
    let seqSwapMapping ← onAllocator (swap blockTable.blocks srcDevice dstDevice)
    onTable seq.seqId (BlockTable.update blockTable.blocks)
    let mapping ← onAllocator (onSelf (physicalMapping srcDevice dstDevice seqSwapMapping.items ∅))
    return mapping.items

def swapSeqs (srcDevice dstDevice : Device) (seqs : List Sequence) :
    Method (Heaped (SelfAttnBlockSpaceManager α)) (List (BlockId × BlockId)) := do
  let mappings ← seqs.mapM (swapSeq srcDevice dstDevice)
  return mappings.flatten

def swapIn (seqGroup : SequenceGroup) :
    Method (Heaped (SelfAttnBlockSpaceManager α)) (List (BlockId × BlockId)) :=
  swapSeqs .cpu .gpu (seqGroup.getSeqs .swapped)

def swapOut (seqGroup : SequenceGroup) :
    Method (Heaped (SelfAttnBlockSpaceManager α)) (List (BlockId × BlockId)) :=
  swapSeqs .gpu .cpu (seqGroup.getSeqs .running)

/-- The blocks of the tables of the sequences, table after table. -/
def blocksOf : List Sequence → Method (Heaped (SelfAttnBlockSpaceManager α)) (List Slot)
  | [] => return []
  | seq :: rest => do
    let blockTable ← tableOf seq.seqId
    let others ← blocksOf rest
    return blockTable.blocks ++ others

def canSwap (seqGroup : SequenceGroup) (device : Device) (status : SequenceStatus)
    (numLookaheadSlots : ℕ) : Method (Heaped (SelfAttnBlockSpaceManager α)) AllocStatus := do
  let seqs := seqGroup.getSeqs status
  let appended ← numTouchedBlocks numLookaheadSlots seqs
  let blocks ← blocksOf seqs
  let full ← onAllocator (getNumFullBlocksTouched blocks device)
  let numBlocksTouched := appended + full
  let s ← get
  let watermarkBlocks := if device = .gpu then s.self.watermarkBlocks else 0
  if getNumTotalBlocks device s.self.blockAllocator < numBlocksTouched then return .never
  else if watermarkBlocks ≤ getNumFreeBlocks device s.self.blockAllocator - numBlocksTouched then
    return .ok
  else return .later

def canSwapIn (seqGroup : SequenceGroup) (numLookaheadSlots : ℕ) :
    Method (Heaped (SelfAttnBlockSpaceManager α)) AllocStatus :=
  canSwap seqGroup .gpu .swapped numLookaheadSlots

def canSwapOut (seqGroup : SequenceGroup) : Method (Heaped (SelfAttnBlockSpaceManager α)) Bool := do
  let status ← canSwap seqGroup .cpu .running 0
  return status = .ok

end SelfAttnBlockSpaceManager
end Vllm
