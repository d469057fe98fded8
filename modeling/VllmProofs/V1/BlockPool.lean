import VllmProofs.V1.FreeBlockQueue

/-!
`BlockPool`, `vllm/v1/core/block_pool.py`: the blocks of the V1 KV cache, which are referenced or
free, and the hashes under which full blocks can be found.
-/

namespace Vllm.V1
open Exec

structure BlockPool where
  numGpuBlocks : ℕ
  enableCaching : Bool
  /-- The block objects are shared with the queue. -/
  freeBlockQueue : FreeKVCacheBlockQueue
  cachedBlockHashToBlock : Dict BlockHash (Dict BlockId Unit) := ∅

namespace BlockPool

def init (numGpuBlocks : ℕ) (enableCaching : Bool) : BlockPool where
  numGpuBlocks
  enableCaching
  freeBlockQueue := .init numGpuBlocks

def onQueue {α : Type} : Call FreeKVCacheBlockQueue α → Call BlockPool α :=
  zoom (fun s => s.freeBlockQueue) fun q s => { s with freeBlockQueue := q }

def block (s : BlockPool) (b : BlockId) : KVCacheBlock := s.freeBlockQueue.blocks b

def updateBlock (b : BlockId) (f : KVCacheBlock → KVCacheBlock) (s : BlockPool) : BlockPool :=
  { s with freeBlockQueue := s.freeBlockQueue.update b f }

def incrRef (b : BlockId) (s : BlockPool) : BlockPool :=
  s.updateBlock b fun block => { block with refCnt := block.refCnt + 1 }

def decrRef (b : BlockId) (s : BlockPool) : BlockPool :=
  s.updateBlock b fun block => { block with refCnt := block.refCnt - 1 }

def getNumFreeBlocks (s : BlockPool) : ℤ := s.freeBlockQueue.numFreeBlocks

def getCachedBlock (blockHash : BlockHash) : Call BlockPool (Option BlockId) := do
  let s ← get
  match s.cachedBlockHashToBlock.get? blockHash with
  | none => return none
  | some ids =>
    let firstBlockId ← getItem .indexError ids.keys.head?
    return some firstBlockId

def enter (blockHash : BlockHash) (b : BlockId) (s : BlockPool) : BlockPool :=
  let ids := (s.cachedBlockHashToBlock.get? blockHash).getD ∅
  { s.updateBlock b fun block => { block with blockHash := some blockHash } with
    cachedBlockHashToBlock := s.cachedBlockHashToBlock.insert blockHash (ids.insert b ()) }

def maybeEvictCachedBlock (b : BlockId) : Call BlockPool Bool := do
  let s ← get
  match (s.block b).blockHash with
  | none => return false
  | some blockHash =>
    match s.cachedBlockHashToBlock.get? blockHash with
    | none => return false
    | some ids =>
      modify (updateBlock b fun block => { block with blockHash := none })
      let _ ← getItem .keyError (ids.get? b)
      let ids := ids.erase b
      modify fun s => { s with cachedBlockHashToBlock :=
        if ids.size = 0 then s.cachedBlockHashToBlock.erase blockHash
        else s.cachedBlockHashToBlock.insert blockHash ids }
      return true

def evictIfCaching (b : BlockId) : Call BlockPool Unit := do
  let s ← get
  if s.enableCaching then
    let _ ← maybeEvictCachedBlock b
    return ()
  else return ()

def getNewBlock : Call BlockPool BlockId := do
  let currBlock ← onQueue FreeKVCacheBlockQueue.popleft
  let s ← get
  check .refCntIsZero ((s.block currBlock).refCnt = 0)
  evictIfCaching currBlock
  modify (incrRef currBlock)
  return currBlock

def getEach : ℕ → Call BlockPool (List BlockId)
  | 0 => return []
  | n + 1 => do
    let b ← getNewBlock
    let rest ← getEach n
    return b :: rest

def getNewBlocks (numBlocks : ℤ) : Call BlockPool (List BlockId) := do
  let s ← get
  if s.getNumFreeBlocks < numBlocks then
    throw (.valueError "Cannot get free blocks from the pool")
  else getEach numBlocks.toNat

def touchBlock (b : BlockId) : Call BlockPool Unit := do
  let s ← get
  if (s.block b).refCnt = 0 then
    set (incrRef b { s with freeBlockQueue := s.freeBlockQueue.remove b })
  else set (incrRef b s)

def touch (blocks : List BlockId) : Call BlockPool Unit := blocks.forM touchBlock

def freeBlock (b : BlockId) : Call BlockPool Unit := do
  modify (decrRef b)
  let s ← get
  if (s.block b).refCnt = 0 then onQueue (FreeKVCacheBlockQueue.append b) else return ()

def freeBlocks (orderedBlocks : List BlockId) : Call BlockPool Unit := orderedBlocks.forM freeBlock

def resetPrefixCache : Call BlockPool Bool := do
  let s ← get
  if 0 < s.numGpuBlocks - s.getNumFreeBlocks then return false
  else
    set { s with
      cachedBlockHashToBlock := ∅
      freeBlockQueue := { s.freeBlockQueue with blocks := fun b =>
        if b < s.numGpuBlocks then { s.block b with blockHash := none } else s.block b } }
    return true

variable [TupleHash]

/-- The hash `cache_full_blocks` computes for a block that generated tokens have filled. -/
def nextBlockHash (request : Request) (blockSize : ℕ) (blkIdx : ℤ) (prevBlockHashValue : Option ℤ) :
    Except Raised BlockHash :=
  let startTokenIdx := blkIdx * blockSize
  let endTokenIdx := (blkIdx + 1) * blockSize
  let blockTokens := PySlice.slice request.allTokenIds startTokenIdx endTokenIdx
  if blockTokens.length ≠ blockSize then .error (.assertionError .blockTokensAreFull)
  else do
    let (extraKeys, _) ← generateBlockHashExtraKeys request startTokenIdx endTokenIdx (-1)
    return hashBlockTokens prevBlockHashValue blockTokens extraKeys

/-- The hash of the `i`-th of the new full blocks, known or not, and all hashes known then. -/
def blockHashAt (request : Request) (blockSize : ℕ) (numCachedBlocks : ℤ)
    (newBlockHashes : List BlockHash) (i : ℕ) (prevBlockHashValue : Option ℤ)
    (blockHashes : List BlockHash) : Except Raised (BlockHash × List BlockHash) :=
  match newBlockHashes[i]? with
  | some blockHash => .ok (blockHash, blockHashes)
  | none => do
    let blockHash ← nextBlockHash request blockSize (numCachedBlocks + i) prevBlockHashValue
    return (blockHash, blockHashes ++ [blockHash])

/-- The loop of `cache_full_blocks`; the hashes of the request afterwards. -/
def cacheLoop (request : Request) (blockSize : ℕ) (numCachedBlocks : ℤ)
    (newBlockHashes : List BlockHash) :
    ℕ → List BlockId → Option ℤ → List BlockHash → Call BlockPool (List BlockHash)
  | _, [], _, blockHashes => return blockHashes
  | i, blk :: rest, prevBlockHashValue, blockHashes => do
    let s ← get
    check .blockHashIsNone ((s.block blk).blockHash = none)
    match blockHashAt request blockSize numCachedBlocks newBlockHashes i prevBlockHashValue blockHashes with
    | .error raised => throw raised
    | .ok (blockHash, blockHashes) =>
      modify (enter blockHash blk)
      cacheLoop request blockSize numCachedBlocks newBlockHashes (i + 1) rest
        (some blockHash.hashValue) blockHashes

/-- `prev_block_hash_value` before the loop of `cache_full_blocks`. -/
def prevHashValue (blocks : List BlockId) (numCachedBlocks : ℤ) : Call BlockPool (Option ℤ) := do
  if numCachedBlocks = 0 then return none
  else
    let prevBlock ← getItem .indexError (PySlice.get? blocks (numCachedBlocks - 1))
    let s ← get
    let blockHash ← getItem (.assertionError .prevBlockHasHash) (s.block prevBlock).blockHash
    return some blockHash.hashValue

/-- `cache_full_blocks`; the hashes it appends to `block_hashes` are in the list it returns. -/
def cacheFullBlocks (request : Request) (blocks : List BlockId) (blockHashes : List BlockHash)
    (numCachedBlocks numFullBlocks : ℤ) (blockSize : ℕ) : Call BlockPool (List BlockHash) := do
  if numCachedBlocks = numFullBlocks then return blockHashes
  else
    let newFullBlocks := PySlice.slice blocks numCachedBlocks numFullBlocks
    check .enoughBlockHashes (numCachedBlocks ≤ blockHashes.length)
    let newBlockHashes := PySlice.sliceFrom blockHashes numCachedBlocks
    let prevBlockHashValue ← prevHashValue blocks numCachedBlocks
    cacheLoop request blockSize numCachedBlocks newBlockHashes 0 newFullBlocks prevBlockHashValue
      blockHashes

end BlockPool
end Vllm.V1
