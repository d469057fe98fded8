import VllmProofs.Block.Common

/-!
`NaiveBlockAllocator` and `NaiveBlock`: a free list of block ids, reference counts and
copy-on-write. The prefix caching allocator keeps one inside for the blocks that have no hash.
-/

namespace Vllm
open Exec Heaped

structure NaiveBlockAllocator where
  freeBlockIndices : List BlockId
  allBlockIndices : Finset BlockId
  refcounter : RefCounter
  blockSize : ℕ
  cowTracker : CopyOnWriteTracker := {}
  blockPool : BlockPool

namespace NaiveBlockAllocator

def extraFactor : ℕ := 4

def init (device : Device) (blockSize : ℕ) (blockIds : List BlockId) : NaiveBlockAllocator where
  freeBlockIndices := blockIds
  allBlockIndices := blockIds.toFinset
  refcounter := .init blockIds
  blockSize
  blockPool := .init device (blockIds.length * extraFactor)

def onRefcounter {β : Type} : Method RefCounter β → Method NaiveBlockAllocator β :=
  zoom refcounter fun refcounter s => { s with refcounter }

def onPool {β : Type} : Method (Heaped BlockPool) β → Method (Heaped NaiveBlockAllocator) β :=
  zoom (fun s => ⟨s.objects, s.self.blockPool⟩)
    fun t s => ⟨t.objects, { s.self with blockPool := t.self }⟩

def allocateBlockId : Method NaiveBlockAllocator BlockId := do
  let s ← get
  match s.freeBlockIndices with
  | [] => throw .noFreeBlocksError
  | blockId :: rest =>
    set { s with freeBlockIndices := rest }
    let _ ← onRefcounter (RefCounter.incr blockId)
    return blockId

/-- `_free_block_id` of a block id, and what it does once it has read the id of a block. -/
def releaseId (blockId : Option BlockId) : Method NaiveBlockAllocator Unit :=
  match blockId with
  | none => throw .assertionError
  | some blockId => do
    let refcount ← onRefcounter (RefCounter.decr blockId)
    if refcount = 0 then
      modify fun s => { s with freeBlockIndices := blockId :: s.freeBlockIndices }

def freeBlockId (r : BlockRef) : Method (Heaped NaiveBlockAllocator) Unit := do
  let s ← get
  modify (setBlockId r none)
  onSelf (releaseId (s.block r).blockId)

def free (r : BlockRef) (keepBlockObject : Bool) : Method (Heaped NaiveBlockAllocator) Unit := do
  freeBlockId r
  if keepBlockObject then pure () else onPool (onSelf (BlockPool.freeBlock r))

def allocateMutableBlock (prevBlock : Option BlockRef) :
    Method (Heaped NaiveBlockAllocator) BlockRef := do
  let blockId ← onSelf allocateBlockId
  let s ← get
  onPool (BlockPool.initBlock prevBlock [] s.self.blockSize (some blockId) none)

def isAppendable (blockId : BlockId) : Method NaiveBlockAllocator Bool := do
  let refcount ← onRefcounter (RefCounter.count blockId)
  return refcount ≤ 1

def recordCow (source target : BlockId) : Method NaiveBlockAllocator Unit :=
  modify fun s => { s with cowTracker := s.cowTracker.recordCow source target }

def cowBlockIfNotAppendable (r : BlockRef) : Method (Heaped NaiveBlockAllocator) BlockId := do
  let s ← get
  match (s.block r).blockId with
  | none => throw .assertionError
  | some source =>
    if ← onSelf (isAppendable source) then return source
    else
      freeBlockId r
      let target ← onSelf allocateBlockId
      onSelf (recordCow source target)
      return target

/-- The last lines of `NaiveBlock.append_token_ids`. -/
def copyOnWrite (r : BlockRef) : Method (Heaped NaiveBlockAllocator) Unit := do
  let s ← get
  match (s.block r).blockId with
  | none => pure ()
  | some _ =>
    let blockId ← cowBlockIfNotAppendable r
    modify (setBlockId r (some blockId))

def appendTokenIds (r : BlockRef) (tokenIds : List TokenId) :
    Method (Heaped NaiveBlockAllocator) Unit := do
  let s ← get
  onObjects (Objects.appendTokenIdsNoCow s.self.blockSize r tokenIds)
  copyOnWrite r

def allocateImmutableBlock (prevBlock : Option BlockRef) (tokenIds : List TokenId) :
    Method (Heaped NaiveBlockAllocator) BlockRef := do
  let r ← allocateMutableBlock prevBlock
  appendTokenIds r tokenIds
  return r

def allocateBlockIds : ℕ → Method NaiveBlockAllocator (List BlockId)
  | 0 => return []
  | num + 1 => do
    let blockId ← allocateBlockId
    let others ← allocateBlockIds num
    return blockId :: others

/-- The second loop of `allocate_immutable_blocks`. -/
def initBlocks : Option BlockRef → List (List TokenId × BlockId) →
    Method (Heaped NaiveBlockAllocator) (List BlockRef)
  | _, [] => return []
  | prevBlock, (tokenIds, blockId) :: rest => do
    let s ← get
    let r ← onPool (BlockPool.initBlock prevBlock tokenIds s.self.blockSize (some blockId) none)
    let others ← initBlocks (some r) rest
    return r :: others

def allocateImmutableBlocks (prevBlock : Option BlockRef) (blockTokenIds : List (List TokenId)) :
    Method (Heaped NaiveBlockAllocator) (List BlockRef) := do
  let blockIds ← onSelf (allocateBlockIds blockTokenIds.length)
  initBlocks prevBlock (blockTokenIds.zip blockIds)

def forkEach : Option BlockRef → List BlockRef → Method (Heaped NaiveBlockAllocator) (List BlockRef)
  | _, [] => return []
  | prevBlock, r :: rest => do
    let s ← get
    match (s.block r).blockId with
    | none => throw .assertionError
    | some blockId =>
      let refcount ← onSelf (onRefcounter (RefCounter.incr blockId))
      assertThat (refcount ≠ 1)
      let forked ← onPool
        (BlockPool.initBlock prevBlock (s.block r).tokenIds s.self.blockSize (some blockId) none)
      let others ← forkEach (some forked) rest
      return forked :: others

def fork (lastBlock : BlockRef) : Method (Heaped NaiveBlockAllocator) (List BlockRef) := do
  let sourceBlocks ← onObjects (Objects.getAllBlocksRecursively lastBlock)
  forkEach none sourceBlocks

def getNumFreeBlocks (s : NaiveBlockAllocator) : ℕ := s.freeBlockIndices.length

def getNumTotalBlocks (s : NaiveBlockAllocator) : ℕ := s.allBlockIndices.card

/-- `get_num_full_blocks_touched`, where the blocks are objects and compared as such. -/
def getNumFullBlocksTouched (s : Heaped NaiveBlockAllocator) (blocks : List BlockRef) : ℕ :=
  (blocks.dedup.filter fun r => (s.block r).tokenIds.length = s.self.blockSize).length

def swapOut (blocks : List BlockRef) : Method (Heaped NaiveBlockAllocator) Unit :=
  blocks.forM freeBlockId

def temporaryBlock (r : BlockRef) : Method (Heaped NaiveBlockAllocator) BlockRef := do
  let s ← get
  let block := s.block r
  if block.tokenIds.length = s.self.blockSize then allocateImmutableBlock block.prevBlock block.tokenIds
  else
    let temporary ← allocateMutableBlock block.prevBlock
    appendTokenIds temporary block.tokenIds
    return temporary

def swapInBlock (r : BlockRef) : Method (Heaped NaiveBlockAllocator) Unit := do
  let temporary ← temporaryBlock r
  let s ← get
  modify (setBlockId temporary none)
  onPool (onSelf (BlockPool.freeBlock temporary))
  modify (setBlockId r (s.block temporary).blockId)

def swapIn (blocks : List BlockRef) : Method (Heaped NaiveBlockAllocator) Unit :=
  blocks.forM swapInBlock

def clearCopyOnWrites : Method NaiveBlockAllocator (List (BlockId × BlockId)) :=
  zoom cowTracker (fun cowTracker s => { s with cowTracker }) CopyOnWriteTracker.clearCows

end NaiveBlockAllocator
end Vllm
