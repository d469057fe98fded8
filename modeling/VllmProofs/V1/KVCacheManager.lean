import VllmProofs.V1.BlockPool

/-!
`KVCacheManager`, `vllm/v1/core/kv_cache_manager.py`: the blocks of each request, found in the prefix
cache, allocated, and given up again.
-/

namespace Vllm.V1
open Exec

structure KVCacheManager where
  blockSize : ℕ
  maxNumBlocksPerReq : ℕ
  enableCaching : Bool
  numPreallocateBlocks : ℕ
  blockPool : BlockPool
  reqToBlocks : Dict RequestId (List BlockId) := ∅
  reqToBlockHashes : Dict RequestId (List BlockHash) := ∅
  numCachedBlock : Dict RequestId ℤ := ∅

theorem CacheConfig.four_pos : 0 < 4 := by decide

theorem CacheConfig.eight_pos : 0 < 8 := by decide

structure CacheConfig where
  blockSize : ℕ
  numGpuBlocks : ℕ
  maxModelLen : ℕ
  enableCaching : Bool
  numPreallocateTokens : ℕ := 0
  blocksHaveSlots : 0 < blockSize := by decide
  someBlocks : 0 < numGpuBlocks := by decide

namespace KVCacheManager

def init (blockSize numGpuBlocks maxModelLen : ℕ) (enableCaching : Bool)
    (numPreallocateTokens : ℕ) : KVCacheManager where
  blockSize
  maxNumBlocksPerReq := cdiv maxModelLen blockSize
  enableCaching
  numPreallocateBlocks := cdiv numPreallocateTokens blockSize
  blockPool := .init numGpuBlocks enableCaching

def onPool {α : Type} : Call BlockPool α → Call KVCacheManager α :=
  zoom (fun s => s.blockPool) fun pool s => { s with blockPool := pool }

/-- `self.req_to_blocks[request_id]`, of a `defaultdict`. -/
def blocksOf (s : KVCacheManager) (id : RequestId) : List BlockId := (s.reqToBlocks.get? id).getD []

/-- `self.req_to_block_hashes[request_id]`, of a `defaultdict`. -/
def hashesOf (s : KVCacheManager) (id : RequestId) : List BlockHash :=
  (s.reqToBlockHashes.get? id).getD []

def setBlocks (id : RequestId) (blocks : List BlockId) (s : KVCacheManager) : KVCacheManager :=
  { s with reqToBlocks := s.reqToBlocks.insert id blocks }

def setHashes (id : RequestId) (hashes : List BlockHash) (s : KVCacheManager) : KVCacheManager :=
  { s with reqToBlockHashes := s.reqToBlockHashes.insert id hashes }

/-- The loop of `get_computed_blocks`. -/
def cachedPrefix : List BlockHash → Call BlockPool (List BlockId)
  | [] => return []
  | blockHash :: rest => do
    match ← BlockPool.getCachedBlock blockHash with
    | none => return []
    | some cachedBlock =>
      let computedBlocks ← cachedPrefix rest
      return cachedBlock :: computedBlocks

/-- The blocks `allocate_slots` needs beyond those of the request and the new hits. -/
def numNewBlocks (s : KVCacheManager) (request : Request) (numTokens : ℕ)
    (newComputedBlocks : List BlockId) : ℤ :=
  let numComputedTokens := request.numComputedTokens + newComputedBlocks.length * s.blockSize
  cdiv (numComputedTokens + numTokens) s.blockSize - (s.blocksOf request.requestId).length -
    newComputedBlocks.length

def numEvictableComputedBlocks (s : KVCacheManager) (newComputedBlocks : List BlockId) : ℤ :=
  (newComputedBlocks.filter fun b => (s.blockPool.block b).refCnt = 0).length

/-- The free blocks that are no hits do not suffice. -/
def lacksBlocks (s : KVCacheManager) (request : Request) (numTokens : ℕ)
    (newComputedBlocks : List BlockId) : Prop :=
  s.blockPool.getNumFreeBlocks - s.numEvictableComputedBlocks newComputedBlocks <
    s.numNewBlocks request numTokens newComputedBlocks

instance (s : KVCacheManager) (request : Request) (numTokens : ℕ) (newComputedBlocks : List BlockId) :
    Decidable (s.lacksBlocks request numTokens newComputedBlocks) :=
  inferInstanceAs (Decidable (_ < _))

/-- The part of `allocate_slots` that gets blocks from the pool, preallocated ones among them. -/
def getBlocks (id : RequestId) (numNewBlocks : ℤ) : Call KVCacheManager (List BlockId) := do
  if numNewBlocks ≤ 0 then return []
  else
    let s ← get
    let numNewBlocks := min (min (numNewBlocks + s.numPreallocateBlocks) s.blockPool.getNumFreeBlocks)
      ((s.maxNumBlocksPerReq : ℤ) - (s.blocksOf id).length)
    check .numNewBlocksPositive (0 < numNewBlocks)
    let newBlocks ← onPool (BlockPool.getNewBlocks numNewBlocks)
    modify fun s => s.setBlocks id (s.blocksOf id ++ newBlocks)
    return newBlocks

/-- The hits are kept from being evicted. -/
def touchComputedBlocks (newComputedBlocks : List BlockId) : Call KVCacheManager Unit := do
  let s ← get
  if s.enableCaching then onPool (BlockPool.touch newComputedBlocks)
  else check .newComputedBlocksEmpty (newComputedBlocks = [])

def takeComputedBlocks (id : RequestId) (newComputedBlocks : List BlockId) :
    Call KVCacheManager Unit := do
  touchComputedBlocks newComputedBlocks
  modify fun s => s.setBlocks id (s.blocksOf id ++ newComputedBlocks)

def free (request : Request) : Call KVCacheManager Unit := do
  let s ← get
  let id := request.requestId
  let blocks := s.blocksOf id
  set { s with reqToBlocks := s.reqToBlocks.erase id }
  onPool (BlockPool.freeBlocks (if s.enableCaching then blocks.reverse else blocks))
  modify fun s => { s with numCachedBlock := s.numCachedBlock.erase id }

def freeBlockHashes (request : Request) : Call KVCacheManager Unit :=
  modify fun s => { s with reqToBlockHashes := s.reqToBlockHashes.erase request.requestId }

def resetPrefixCache : Call KVCacheManager Bool := onPool BlockPool.resetPrefixCache

def getNumCommonPrefixBlocks (request : Request) (numRunningRequests : ℕ) :
    Call KVCacheManager ℕ := do
  check .requestIsRunning (request.status = .running)
  let s ← get
  return ((s.blocksOf request.requestId).takeWhile fun b =>
    (s.blockPool.block b).refCnt = numRunningRequests).length

variable [TupleHash]

/-- The hashes of the request, computed unless some are known. -/
def blockHashesOf (request : Request) : Call KVCacheManager (List BlockHash) := do
  let s ← get
  let blockHashes := s.hashesOf request.requestId
  if blockHashes ≠ [] then return blockHashes
  else
    match hashRequestTokens s.blockSize request with
    | .error raised => throw raised
    | .ok blockHashes =>
      set (s.setHashes request.requestId blockHashes)
      return blockHashes

def getComputedBlocks (request : Request) : Call KVCacheManager (List BlockId × ℕ) := do
  let s ← get
  if s.enableCaching = false then return ([], 0)
  else
    let blockHashes ← blockHashesOf request
    match request.samplingParams.promptLogprobs with
    | some _ => return ([], 0)
    | none =>
      let computedBlocks ← onPool (cachedPrefix blockHashes)
      return (computedBlocks, computedBlocks.length * s.blockSize)

/-- `num_full_blocks_after_append`: draft tokens are left out. -/
def numFullBlocks (s : KVCacheManager) (request : Request) (numTokens : ℕ)
    (newComputedBlocks : List BlockId) : ℤ :=
  (request.numComputedTokens + newComputedBlocks.length * s.blockSize + numTokens -
    request.specTokenIds.length : ℤ) / s.blockSize

def cacheBlocks (request : Request) (numTokens : ℕ) (newComputedBlocks : List BlockId) :
    Call KVCacheManager Unit := do
  let s ← get
  let id := request.requestId
  let numCachedBlocks := (s.numCachedBlock.get? id).getD newComputedBlocks.length
  let numFullBlocksAfterAppend := s.numFullBlocks request numTokens newComputedBlocks
  let blockHashes ← onPool (BlockPool.cacheFullBlocks request (s.blocksOf id) (s.hashesOf id)
    numCachedBlocks numFullBlocksAfterAppend s.blockSize)
  modify fun s => { s.setHashes id blockHashes with
    numCachedBlock := s.numCachedBlock.insert id numFullBlocksAfterAppend }

def cacheIfCaching (request : Request) (numTokens : ℕ) (newComputedBlocks : List BlockId) :
    Call KVCacheManager Unit := do
  let s ← get
  if s.enableCaching then cacheBlocks request numTokens newComputedBlocks else return ()

def allocateSlots (request : Request) (numTokens : ℕ) (newComputedBlocks : List BlockId) :
    Call KVCacheManager (Option (List BlockId)) := do
  let s ← get
  if numTokens = 0 then throw (.valueError "num_tokens must be greater than 0")
  else if s.lacksBlocks request numTokens newComputedBlocks then return none
  else
    takeComputedBlocks request.requestId newComputedBlocks
    let newBlocks ← getBlocks request.requestId (s.numNewBlocks request numTokens newComputedBlocks)
    cacheIfCaching request numTokens newComputedBlocks
    return some newBlocks

end KVCacheManager

def CacheConfig.manager (config : CacheConfig) : KVCacheManager :=
  .init config.blockSize config.numGpuBlocks config.maxModelLen config.enableCaching
    config.numPreallocateTokens

end Vllm.V1
