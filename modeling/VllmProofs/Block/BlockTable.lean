import VllmProofs.Block.CpuGpu

/-!
`BlockTable`: the blocks of one sequence, in order, on top of the allocators they come from. The
table caches the block ids of its entries as `BlockList` does.
-/

namespace Vllm
open Exec Heaped

def cdiv (a b : ℤ) : ℤ := -(a.fdiv (-b))

def chunkList (lst : List TokenId) (chunkSize : ℕ) : List (List TokenId) :=
  (List.range (cdiv lst.length chunkSize).toNat).map fun i => (lst.drop (i * chunkSize)).take chunkSize

structure BlockTable where
  blockSize : ℕ
  blocks : List Slot := []
  blockIds : List BlockId := []
  maxBlockSlidingWindow : Option ℕ := none
  numFullSlots : ℕ := 0
  deriving DecidableEq, Repr

structure Tabled (α : Type) where
  allocator : CpuGpuBlockAllocator α
  table : BlockTable

namespace BlockTable

variable {α β : Type}

def isAllocated (s : BlockTable) : Bool := 0 < s.blocks.length

def numEmptySlots (s : BlockTable) : ℤ := s.blocks.length * s.blockSize - s.numFullSlots

def getNumRequiredBlocks (tokenIds : List TokenId) (blockSize numLookaheadSlots : ℕ) : ℤ :=
  cdiv (tokenIds.length + numLookaheadSlots) blockSize

def getUnseenTokenIds (s : BlockTable) (sequenceTokenIds : List TokenId) : List TokenId :=
  sequenceTokenIds.drop s.numFullSlots

/-- The free slots of the block the next token goes to. -/
def firstChunkSize (s : BlockTable) : ℕ := s.blockSize - s.numFullSlots % s.blockSize

def getNumBlocksTouchedByAppendSlots (s : BlockTable) (tokenIds : List TokenId)
    (numLookaheadSlots : ℕ) : ℤ :=
  let numTokenIds := tokenIds.length + numLookaheadSlots
  1 + ⌈((numTokenIds : ℚ) - s.firstChunkSize) / s.blockSize⌉

def chunkTokenBlocksForAppend (s : BlockTable) (tokenIds : List TokenId) : List (List TokenId) :=
  if tokenIds = [] then []
  else
    tokenIds.take s.firstChunkSize :: chunkList (tokenIds.drop s.firstChunkSize) s.blockSize

def onAllocator (method : Method (Heaped (CpuGpuBlockAllocator α)) β) : Method (Heaped (Tabled α)) β :=
  zoom (fun s => ⟨s.objects, s.self.allocator⟩)
    (fun t s => ⟨t.objects, { s.self with allocator := t.self }⟩) method

def modifyTable (f : BlockTable → BlockTable) : Method (Heaped (Tabled α)) Unit :=
  modify fun s => { s with self := { s.self with table := f s.self.table } }

def getTable : Method (Heaped (Tabled α)) BlockTable := do
  let s ← get
  return s.self.table

def slotAt (blockIndex : ℕ) : Method (Heaped (Tabled α)) Slot := do
  let s ← getTable
  match s.blocks[blockIndex]? with
  | none => throw .indexError
  | some slot => return slot

def lastSlot : Method (Heaped (Tabled α)) Slot := do
  let s ← getTable
  match s.blocks.getLast? with
  | none => throw .indexError
  | some slot => return slot

variable [BlockAllocator α]

def readId (slot : Slot) : Method (Heaped (Tabled α)) (Option BlockId) := do
  let s ← get
  return CpuGpuBlockAllocator.slotId ⟨s.objects, s.self.allocator⟩ slot

def addBlockId (slot : Slot) : Method (Heaped (Tabled α)) Unit := do
  match ← readId slot with
  | none => throw .assertionError
  | some blockId => modifyTable fun s => { s with blockIds := s.blockIds ++ [blockId] }

def updateBlockId (blockIndex : ℕ) (newBlockId : Option BlockId) : Method (Heaped (Tabled α)) Unit :=
  match newBlockId with
  | none => throw .assertionError
  | some blockId => modifyTable fun s => { s with blockIds := s.blockIds.set blockIndex blockId }

def update (blocks : List Slot) : Method (Heaped (Tabled α)) Unit := do
  modifyTable fun s => { s with blocks, blockIds := [] }
  blocks.forM addBlockId

def appendToBlock (blockIndex : ℕ) (tokenIds : List TokenId) : Method (Heaped (Tabled α)) Unit := do
  let slot ← slotAt blockIndex
  let prevBlockId ← readId slot
  onAllocator (CpuGpuBlockAllocator.appendTokenIds slot tokenIds)
  let blockId ← readId slot
  if prevBlockId ≠ blockId then updateBlockId blockIndex blockId

def appendBlock (slot : Slot) : Method (Heaped (Tabled α)) Unit := do
  modifyTable fun s => { s with blocks := s.blocks ++ [slot] }
  addBlockId slot

def setItem (blockIndex : ℕ) (slot : Slot) : Method (Heaped (Tabled α)) Unit := do
  modifyTable fun s => { s with blocks := s.blocks.set blockIndex slot }
  let blockId ← readId slot
  updateBlockId blockIndex blockId

def allocateBlocksForTokenIds (tokenIds : List TokenId) (device : Device) (extraHash : Option ℤ) :
    Method (Heaped (Tabled α)) (List BlockRef) := do
  let s ← getTable
  let chunks := chunkList tokenIds s.blockSize
  let blockTokenIds := chunks.filter fun curTokenIds => curTokenIds.length = s.blockSize
  let tailTokenIds := chunks.filter fun curTokenIds => curTokenIds.length ≠ s.blockSize
  let blocks ← if blockTokenIds = [] then pure [] else
    onAllocator (CpuGpuBlockAllocator.allocateImmutableBlocks blockTokenIds device extraHash)
  match tailTokenIds with
  | [] => return blocks
  | [curTokenIds] => do
    let block ← onAllocator (CpuGpuBlockAllocator.allocateMutableBlock (blocks.getLast?.map Slot.block)
      device extraHash)
    onAllocator (CpuGpuBlockAllocator.appendTokenIds (.block block) curTokenIds)
    return blocks ++ [block]
  | _ => throw .assertionError

def allocate (tokenIds : List TokenId) (device : Device) (extraHash : Option ℤ) :
    Method (Heaped (Tabled α)) Unit := do
  let s ← getTable
  assertThat (s.isAllocated = false)
  assertThat (tokenIds ≠ [])
  let blocks ← allocateBlocksForTokenIds tokenIds device extraHash
  update (blocks.map Slot.block)
  modifyTable fun s => { s with numFullSlots := tokenIds.length }

def dropBlock (idx : ℕ) : Method (Heaped (Tabled α)) Unit := do
  let b ← slotAt idx
  if b = .null then pure ()
  else
    onAllocator (CpuGpuBlockAllocator.free b)
    setItem idx .null

/-- The blocks before the sliding window go, and the null block stands in their place. -/
def dropOutOfWindow (numComputedSlots : Option ℕ) : Method (Heaped (Tabled α)) Unit := do
  let s ← getTable
  match s.maxBlockSlidingWindow with
  | none => pure ()
  | some maxBlockSlidingWindow =>
    onAllocator CpuGpuBlockAllocator.allocateOrGetNullBlock
    match numComputedSlots with
    | none => throw .assertionError
    | some numComputedSlots =>
      (List.range (numComputedSlots / s.blockSize - maxBlockSlidingWindow)).forM dropBlock

/-- One round of the loop of `ensure_num_empty_slots`. -/
def allocateAnother (extraHash : Option ℤ) : Method (Heaped (Tabled α)) Unit := do
  let last ← lastSlot
  let block ← onAllocator (CpuGpuBlockAllocator.allocateMutableBlock (some last) .gpu extraHash)
  appendBlock (.block block)

def ensureNumEmptySlots (numEmptySlots : ℕ) (extraHash : Option ℤ) :
    Method (Heaped (Tabled α)) Unit := do
  let s ← getTable
  assertThat (s.isAllocated = true)
  if numEmptySlots ≤ s.numEmptySlots then pure ()
  else
    let slotsToAllocate := numEmptySlots - s.numEmptySlots
    let blocksToAllocate := cdiv slotsToAllocate s.blockSize
    (List.range blocksToAllocate.toNat).forM fun _ => allocateAnother extraHash

/-- The loop at the end of `append_token_ids`, from position `blockIndex` on. -/
def appendEach : ℕ → List (List TokenId) → Method (Heaped (Tabled α)) Unit
  | _, [] => pure ()
  | blockIndex, tokenBlock :: rest => do
    appendToBlock blockIndex tokenBlock
    appendEach (blockIndex + 1) rest

def appendTokenIds (tokenIds : List TokenId) (numLookaheadSlots : ℕ) (numComputedSlots : Option ℕ)
    (extraHash : Option ℤ) : Method (Heaped (Tabled α)) Unit := do
  let s ← getTable
  assertThat (s.isAllocated = true)
  dropOutOfWindow numComputedSlots
  ensureNumEmptySlots (tokenIds.length + numLookaheadSlots) extraHash
  let s ← getTable
  appendEach (s.numFullSlots / s.blockSize) (s.chunkTokenBlocksForAppend tokenIds)
  modifyTable fun s => { s with numFullSlots := s.numFullSlots + tokenIds.length }

/-- `BlockTable(block_size, block_allocator, _blocks, max_block_sliding_window)` -/
def create (blockSize : ℕ) (blocks : List Slot) (maxBlockSlidingWindow : Option ℕ) :
    Method (Heaped (CpuGpuBlockAllocator α)) BlockTable := do
  let s ← get
  match blocks.mapM (CpuGpuBlockAllocator.slotId s) with
  | none => throw .assertionError
  | some blockIds =>
    let numTokenIds := (blocks.map fun slot =>
      (s.self.object slot).elim 0 fun r => (s.block r).tokenIds.length).sum
    return { blockSize, blocks, blockIds, maxBlockSlidingWindow, numFullSlots := numTokenIds }

def fork : Method (Heaped (Tabled α)) BlockTable := do
  let s ← getTable
  assertThat (s.isAllocated = true)
  let last ← lastSlot
  let forkedBlocks ← onAllocator (CpuGpuBlockAllocator.fork last)
  onAllocator (create s.blockSize (forkedBlocks.map Slot.block) s.maxBlockSlidingWindow)

def free : Method (Heaped (Tabled α)) Unit := do
  let s ← getTable
  s.blocks.forM fun block => onAllocator (CpuGpuBlockAllocator.free block)
  modifyTable fun s => { s with blocks := [], blockIds := [] }

end BlockTable
end Vllm
