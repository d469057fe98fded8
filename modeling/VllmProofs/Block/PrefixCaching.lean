import VllmProofs.Block.Naive
import VllmProofs.Block.Pool
import VllmProofs.Evictor.Interface

/-!
`PrefixCachingBlockAllocator` and `PrefixCachingBlock`. A full block is promoted into `_cached_blocks` under
its content hash, the hash of its tokens and of the hash of the block before it, and goes to the evictor when its
last reference is freed. Metrics and the predictor thread are left out.
-/

namespace Vllm
open Exec

/-- Python's `hash`, as the prefix cache calls it. -/
class PythonHash where
  /-- `hash('None')` -/
  noneHash : PrefixHash
  /-- `hash((is_first_block, prev_block_hash, *token_ids, extra_hash))` -/
  tuple : Bool → Option PrefixHash → List TokenId → Option ℤ → PrefixHash

variable [PythonHash]

def hashBlockTokens (isFirstBlock : Bool) (prevBlockHash : Option PrefixHash)
    (curBlockTokenIds : List TokenId) (extraHash : Option ℤ) : PrefixHash :=
  let prevBlockHash :=
    if isFirstBlock && prevBlockHash.isNone then some PythonHash.noneHash else prevBlockHash
  PythonHash.tuple isFirstBlock prevBlockHash curBlockTokenIds extraHash

namespace Objects

def isFull (blockSize : ℕ) (o : Objects) (r : BlockRef) : Bool :=
  (o.block r).tokenIds.length = blockSize

def rememberHash (r : BlockRef) (contentHash : PrefixHash) (o : Objects) : Objects :=
  o.update r fun b => { b with cachedContentHash := some contentHash }

/-- The last lines of `content_hash`, given the hash of the previous block. -/
def computeHash (r : BlockRef) (isFirstBlock : Bool) (prevBlockHash : Option PrefixHash) :
    Method Objects (Option PrefixHash) := do
  if prevBlockHash = some PythonHash.noneHash ∧ isFirstBlock = false then return none
  else
    let o ← get
    let block := o.block r
    let contentHash := hashBlockTokens isFirstBlock prevBlockHash block.tokenIds block.extraHash
    set (o.rememberHash r contentHash)
    return some contentHash

/-- `content_hash`; more nested calls than objects is a cycle. -/
def readHash (blockSize : ℕ) : ℕ → BlockRef → Method Objects (Option PrefixHash)
  | 0, _ => throw .recursionError
  | depth + 1, r => do
    let o ← get
    let block := o.block r
    match block.cachedContentHash with
    | some contentHash => return some contentHash
    | none =>
      if o.isFull blockSize r = false then return none
      else
        match block.prevBlock with
        | none => computeHash r true (some PythonHash.noneHash)
        | some p =>
          let prevBlockHash ← readHash blockSize depth p
          computeHash r false prevBlockHash

def contentHash (blockSize : ℕ) (r : BlockRef) : Method Objects (Option PrefixHash) := do
  let o ← get
  readHash blockSize (o.size + 1) r

end Objects
end Vllm

namespace Vllm
open Exec Heaped Evictor

def defaultLastAccessedTime : Time := -1

structure BlockTracker where
  active : Bool := false
  lastAccessed : Time := defaultLastAccessedTime
  cacheHint : Option CacheHint := none
  computed : Bool := false
  deriving DecidableEq, Repr

namespace BlockTracker

def reset (s : BlockTracker) : BlockTracker :=
  { s with lastAccessed := defaultLastAccessedTime, cacheHint := none, computed := false }

def enable : Method BlockTracker Unit := do
  let s ← get
  assertThat (s.active = false)
  set ({ s with active := true } : BlockTracker).reset

def disable : Method BlockTracker Unit := do
  let s ← get
  assertThat (s.active = true)
  set ({ s with active := false } : BlockTracker).reset

/-- `d[key]` for a key a cache hint may lack. -/
def item {β : Type} : Option β → Method BlockTracker β
  | none => throw .keyError
  | some b => return b

/-- The hint `overwrite_block_metadata` keeps, when there is an old one. -/
def mergedHint [Numpy] (lastAccessed : Time) (old hint : CacheHint) : Method BlockTracker CacheHint := do
  if (← item old.id) = (← item hint.id) then
    if (← item old.turns) < (← item hint.turns) then return hint else return old
  else
    match hint.nextTimestamp with
    | some next => if (← item old.nextTimestamp) < next then return hint else return old
    | none =>
      let s ← get
      let p := probabilityOfFutureArrival Numpy.exp (← item old.probHasNext) (← item old.expScale)
        (lastAccessed - s.lastAccessed)
      if p ≠ .nan ∧ (← item hint.probHasNext) < p then return { hint with probHasNext := some p }
      else return hint

def overwriteBlockMetadata [Numpy] (lastAccessed : Time) (cacheHint : Option CacheHint) :
    Method BlockTracker Unit := do
  let s ← get
  match s.cacheHint, cacheHint with
  | none, _ => set { s with cacheHint, lastAccessed }
  | some _, none => throw .typeError
  | some old, some hint =>
    let merged ← mergedHint lastAccessed old hint
    set { s with cacheHint := some merged, lastAccessed }

end BlockTracker

structure PrefixCachingBlockAllocator (ε : Type) where
  blockTable : Dict BlockId BlockRef := ∅
  cachedBlocks : Dict PrefixHash BlockId := ∅
  /-- A set: an id is listed once. -/
  touchedBlocks : List BlockId := []
  blockTracker : Dict BlockId BlockTracker
  /-- Its block pool and its reference counts are the outer allocator's too. -/
  hashlessAllocator : NaiveBlockAllocator
  evictor : ε
  cowTracker : CopyOnWriteTracker := {}

namespace PrefixCachingBlockAllocator

variable {ε : Type}

def blockSize (s : PrefixCachingBlockAllocator ε) : ℕ := s.hashlessAllocator.blockSize

def init (device : Device) (blockSize : ℕ) (blockIds : List BlockId) (evictor : ε) :
    PrefixCachingBlockAllocator ε where
  blockTracker := .ofKeys {} blockIds
  hashlessAllocator := .init device blockSize blockIds
  evictor

def onRefcounter {β : Type} (method : Method RefCounter β) :
    Method (PrefixCachingBlockAllocator ε) β :=
  zoom hashlessAllocator (fun t s => { s with hashlessAllocator := t })
    (NaiveBlockAllocator.onRefcounter method)

def onEvictor {β : Type} : Method ε β → Method (PrefixCachingBlockAllocator ε) β :=
  zoom evictor fun evictor s => { s with evictor }

def onHashless {β : Type} : Method (Heaped NaiveBlockAllocator) β →
    Method (Heaped (PrefixCachingBlockAllocator ε)) β :=
  zoom (fun s => ⟨s.objects, s.self.hashlessAllocator⟩)
    fun t s => ⟨t.objects, { s.self with hashlessAllocator := t.self }⟩

def onPool {β : Type} (method : Method (Heaped BlockPool) β) :
    Method (Heaped (PrefixCachingBlockAllocator ε)) β :=
  onHashless (NaiveBlockAllocator.onPool method)

def trackerOf (blockId : BlockId) : Method (PrefixCachingBlockAllocator ε) BlockTracker := do
  let s ← get
  match s.blockTracker.get? blockId with
  | none => throw .keyError
  | some tracker => return tracker

def onTracker {β : Type} (blockId : BlockId) (method : Method BlockTracker β) :
    Method (PrefixCachingBlockAllocator ε) β := do
  let tracker ← trackerOf blockId
  zoom (fun _ => tracker)
    (fun tracker s => { s with blockTracker := s.blockTracker.insert blockId tracker }) method

def trackBlockId (blockId : BlockId) (computed : Bool) :
    Method (PrefixCachingBlockAllocator ε) Unit := do
  onTracker blockId BlockTracker.enable
  onTracker blockId (modify fun tracker => { tracker with computed })

def untrackBlockId (blockId : BlockId) : Method (PrefixCachingBlockAllocator ε) Unit :=
  onTracker blockId BlockTracker.disable

def setComputed (r : BlockRef) (computed : Bool) :
    Method (Heaped (PrefixCachingBlockAllocator ε)) Unit :=
  modify fun s => { s with objects := s.objects.update r fun b => { b with computed } }

def presentBlockId (r : BlockRef) : Method (Heaped (PrefixCachingBlockAllocator ε)) BlockId := do
  let s ← get
  match (s.block r).blockId with
  | none => throw .assertionError
  | some blockId => return blockId

section
variable [Evictor ε]

/-- The evictor gives a block back when it is there. -/
def restore (blockId : BlockId) : Method (PrefixCachingBlockAllocator ε) Unit := do
  let s ← get
  if contains s.evictor blockId then onEvictor (remove blockId)

/-- The lines of `_incr_refcount_cached_block` about the block id. -/
def acquire (blockId : BlockId) : Method (PrefixCachingBlockAllocator ε) Unit := do
  let refcount ← onRefcounter (RefCounter.incr blockId)
  if refcount = 1 then
    restore blockId
    trackBlockId blockId true

def incrRefcountCachedBlock (r : BlockRef) : Method (Heaped (PrefixCachingBlockAllocator ε)) Unit := do
  setComputed r true
  let blockId ← presentBlockId r
  onSelf (acquire blockId)

/-- `self.evictor.add(..)` with what the tracker knows, and the end of tracking. -/
def retire (blockId : BlockId) (contentHash : PrefixHash) (numTokensTotal : ℕ) :
    Method (PrefixCachingBlockAllocator ε) Unit := do
  let tracker ← trackerOf blockId
  onEvictor (add blockId contentHash numTokensTotal tracker.lastAccessed tracker.cacheHint)
  untrackBlockId blockId

/-- The lines of `_decr_refcount_cached_block` about the block id. -/
def releaseCached (blockId : BlockId) (contentHash : PrefixHash) (numTokensTotal : ℕ) :
    Method (PrefixCachingBlockAllocator ε) Unit := do
  let refcount ← onRefcounter (RefCounter.decr blockId)
  if 0 < refcount then pure ()
  else
    let s ← get
    assertThat (s.cachedBlocks.contains contentHash = true)
    retire blockId contentHash numTokensTotal

/-- `_decr_refcount_cached_block`, of a block whose content hash has been read. -/
def decrRefcountCachedBlock (r : BlockRef) (contentHash : PrefixHash) :
    Method (Heaped (PrefixCachingBlockAllocator ε)) Unit := do
  let blockId ← presentBlockId r
  let s ← get
  onSelf (releaseCached blockId contentHash (s.block r).cachedNumTokensTotal)
  modify (setBlockId r none)

def untrackIfLast (blockId : BlockId) : Method (PrefixCachingBlockAllocator ε) Unit := do
  let refcount ← onRefcounter (RefCounter.count blockId)
  if refcount = 1 then untrackBlockId blockId

def decrRefcountHashlessBlock (r : BlockRef) : Method (Heaped (PrefixCachingBlockAllocator ε)) Unit := do
  let blockId ← presentBlockId r
  onSelf (untrackIfLast blockId)
  onHashless (NaiveBlockAllocator.free r true)

def allocateHashlessBlockId : Method (Heaped (PrefixCachingBlockAllocator ε)) (Option BlockId) := do
  let r ← onHashless (NaiveBlockAllocator.allocateMutableBlock none)
  let blockId ← presentBlockId r
  onPool (onSelf (BlockPool.freeBlock r))
  onSelf (trackBlockId blockId false)
  return some blockId

def maybeAllocateHashlessBlockId :
    Method (Heaped (PrefixCachingBlockAllocator ε)) (Option BlockId) :=
  catching .noFreeBlocksError none allocateHashlessBlockId

/-- The sanity checks on a pair the evictor gave up. -/
def popIfUnused (blockId : BlockId) (contentHash : PrefixHash) :
    Method (PrefixCachingBlockAllocator ε) Bool := do
  let s ← get
  if s.cachedBlocks.get? contentHash = some blockId then
    let refcount ← onRefcounter (RefCounter.count blockId)
    if refcount = 0 then
      modify fun s => { s with cachedBlocks := s.cachedBlocks.erase contentHash }
      return true
    else return false
  else return false

/-- The `while` loop of `_maybe_allocate_evicted_block_id`, for at most the given number of rounds. -/
def evictRegistered : ℕ → Method (PrefixCachingBlockAllocator ε) BlockId
  | 0 => throw .recursionError
  | rounds + 1 => do
    let (blockId, contentHash) ← onEvictor evict
    if ← popIfUnused blockId contentHash then return blockId
    else evictRegistered rounds

def maybeAllocateEvictedBlockId : Method (PrefixCachingBlockAllocator ε) (Option BlockId) := do
  let s ← get
  if numBlocks s.evictor = 0 then return none
  else if s.cachedBlocks.size = 0 then throw .unboundLocalError
  else
    -- every round takes a block out of the evictor, and an empty evictor raises
    let blockId ← evictRegistered (numBlocks s.evictor + 1)
    let _ ← onRefcounter (RefCounter.incr blockId)
    trackBlockId blockId false
    return some blockId

def allocateBlockId : Method (Heaped (PrefixCachingBlockAllocator ε)) BlockId := do
  match ← maybeAllocateHashlessBlockId with
  | some blockId => return blockId
  | none =>
    match ← onSelf maybeAllocateEvictedBlockId with
    | some blockId => return blockId
    | none => throw .noFreeBlocksError

def isAppendable (blockId : BlockId) : Method (PrefixCachingBlockAllocator ε) Bool := do
  let refcount ← onRefcounter (RefCounter.count blockId)
  return refcount ≤ 1

/-- `cow_block_if_not_appendable` of the `NaiveBlock` inside a block, which never has a hash. -/
def cowBlockIfNotAppendable (r : BlockRef) :
    Method (Heaped (PrefixCachingBlockAllocator ε)) BlockId := do
  let source ← presentBlockId r
  if ← onSelf (isAppendable source) then return source
  else
    decrRefcountHashlessBlock r
    let target ← allocateBlockId
    modify fun s =>
      { s with self := { s.self with cowTracker := s.self.cowTracker.recordCow source target } }
    return target

/-- `NaiveBlock.append_token_ids` of the block inside. -/
def appendInner (r : BlockRef) (tokenIds : List TokenId) :
    Method (Heaped (PrefixCachingBlockAllocator ε)) Unit := do
  let s ← get
  onObjects (Objects.appendTokenIdsNoCow s.self.blockSize r tokenIds)
  match (s.block r).blockId with
  | none => pure ()
  | some _ =>
    let blockId ← cowBlockIfNotAppendable r
    modify (setBlockId r (some blockId))

end

section
variable [PythonHash]

def contentHash (r : BlockRef) : Method (Heaped (PrefixCachingBlockAllocator ε)) (Option PrefixHash) := do
  let s ← get
  onObjects (Objects.contentHash s.self.blockSize r)

variable [Evictor ε]

def freeBlockId (r : BlockRef) : Method (Heaped (PrefixCachingBlockAllocator ε)) Unit := do
  let _ ← presentBlockId r
  match ← contentHash r with
  | some contentHash => decrRefcountCachedBlock r contentHash
  | none => decrRefcountHashlessBlock r

def free (r : BlockRef) : Method (Heaped (PrefixCachingBlockAllocator ε)) Unit := do
  freeBlockId r
  onPool (onSelf (BlockPool.freeBlock r))

/-- The first branch of `promote_to_immutable_block`. -/
def register (r : BlockRef) (blockId : BlockId) (contentHash : PrefixHash) :
    Method (PrefixCachingBlockAllocator ε) Unit :=
  modify fun s =>
    { s with
      blockTable := s.blockTable.insert blockId r
      cachedBlocks := s.cachedBlocks.insert contentHash blockId
      touchedBlocks := s.touchedBlocks.insert blockId }

def promoteToImmutableBlock (r : BlockRef) :
    Method (Heaped (PrefixCachingBlockAllocator ε)) BlockId := do
  match ← contentHash r with
  | none => throw .assertionError
  | some contentHash =>
    let blockId ← presentBlockId r
    let refcount ← onSelf (onRefcounter (RefCounter.count blockId))
    assertThat (0 < refcount)
    let s ← get
    match s.self.cachedBlocks.get? contentHash with
    | none =>
      onSelf (register r blockId contentHash)
      return blockId
    | some cachedBlockId =>
      decrRefcountHashlessBlock r
      modify (setBlockId r (some cachedBlockId))
      incrRefcountCachedBlock r
      return cachedBlockId

def updateNumTokensTotal (r : BlockRef) (o : Objects) : Objects :=
  o.update r fun b =>
    { b with
      cachedNumTokensTotal :=
        (b.prevBlock.elim 0 fun p => (o.block p).cachedNumTokensTotal) + b.tokenIds.length }

/-- The last lines of `PrefixCachingBlock.append_token_ids`. -/
def promoteIfFull (r : BlockRef) : Method (Heaped (PrefixCachingBlockAllocator ε)) Unit := do
  match ← contentHash r with
  | none => pure ()
  | some _ =>
    let blockId ← promoteToImmutableBlock r
    modify (setBlockId r (some blockId))

def appendTokenIds (r : BlockRef) (tokenIds : List TokenId) :
    Method (Heaped (PrefixCachingBlockAllocator ε)) Unit := do
  let h ← contentHash r
  assertThat (h = none)
  let s ← get
  assertThat ((s.block r).computed = false)
  if tokenIds.length = 0 then pure ()
  else
    appendInner r tokenIds
    modify fun s => { s with objects := updateNumTokensTotal r s.objects }
    promoteIfFull r

def allocateMutableBlock (prevBlock : Option BlockRef) (extraHash : Option ℤ) :
    Method (Heaped (PrefixCachingBlockAllocator ε)) BlockRef := do
  let blockId ← allocateBlockId
  let s ← get
  let r ← onPool (BlockPool.initBlock prevBlock [] s.self.blockSize (some blockId) extraHash)
  let s ← get
  assertThat ((s.block r).computed = false)
  let h ← contentHash r
  assertThat (h = none)
  return r

/-- The first part of `allocate_immutable_block`: a block that points to cached data, if any. -/
def lookUp (prevBlock : Option BlockRef) (tokenIds : List TokenId) (extraHash : Option ℤ) :
    Method (Heaped (PrefixCachingBlockAllocator ε)) (Option BlockRef) := do
  let s ← get
  let r ← onPool (BlockPool.initBlock prevBlock tokenIds s.self.blockSize none extraHash)
  match ← contentHash r with
  | none => throw .assertionError
  | some contentHash =>
    let s ← get
    match s.self.cachedBlocks.get? contentHash with
    | none =>
      onPool (onSelf (BlockPool.freeBlock r))
      return none
    | some cachedBlockId =>
      if s.self.blockTable.contains cachedBlockId then
        modify (setBlockId r (some cachedBlockId))
        incrRefcountCachedBlock r
        return some r
      else throw .keyError

def allocateImmutableBlock (prevBlock : Option BlockRef) (tokenIds : List TokenId)
    (extraHash : Option ℤ) : Method (Heaped (PrefixCachingBlockAllocator ε)) BlockRef := do
  match ← lookUp prevBlock tokenIds extraHash with
  | some r => return r
  | none =>
    let r ← allocateMutableBlock prevBlock extraHash
    appendTokenIds r tokenIds
    return r

def allocateImmutableBlocks : Option BlockRef → List (List TokenId) → Option ℤ →
    Method (Heaped (PrefixCachingBlockAllocator ε)) (List BlockRef)
  | _, [], _ => return []
  | prevBlock, tokenIds :: rest, extraHash => do
    let r ← allocateImmutableBlock prevBlock tokenIds extraHash
    let others ← allocateImmutableBlocks (some r) rest extraHash
    return r :: others

def temporaryBlock (r : BlockRef) : Method (Heaped (PrefixCachingBlockAllocator ε)) BlockRef := do
  let s ← get
  let block := s.block r
  if s.objects.isFull s.self.blockSize r then
    allocateImmutableBlock block.prevBlock block.tokenIds block.extraHash
  else
    let temporary ← allocateMutableBlock block.prevBlock block.extraHash
    appendTokenIds temporary block.tokenIds
    return temporary

def swapInBlock (r : BlockRef) : Method (Heaped (PrefixCachingBlockAllocator ε)) Unit := do
  let temporary ← temporaryBlock r
  onPool (onSelf (BlockPool.freeBlock temporary))
  modify fun s => setBlockId r (s.block temporary).blockId s

def swapIn (blocks : List BlockRef) : Method (Heaped (PrefixCachingBlockAllocator ε)) Unit :=
  blocks.forM swapInBlock

def swapOut (blocks : List BlockRef) : Method (Heaped (PrefixCachingBlockAllocator ε)) Unit :=
  blocks.forM freeBlockId

def isBlockCached (r : BlockRef) : Method (Heaped (PrefixCachingBlockAllocator ε)) Bool := do
  match ← contentHash r with
  | none => throw .assertionError
  | some contentHash =>
    let s ← get
    return s.self.cachedBlocks.contains contentHash

/-- Is a full block one that `get_num_full_blocks_touched` counts? -/
def touchedBySwap (r : BlockRef) : Method (Heaped (PrefixCachingBlockAllocator ε)) Bool := do
  if !(← isBlockCached r) then return true
  else
    match ← contentHash r with
    | none => return false
    | some contentHash =>
      let s ← get
      match s.self.cachedBlocks.get? contentHash with
      | none => throw .keyError
      | some blockId => return contains s.self.evictor blockId

def getNumFullBlocksTouched : List BlockRef → Method (Heaped (PrefixCachingBlockAllocator ε)) ℕ
  | [] => return 0
  | r :: rest => do
    let s ← get
    let touched ← if s.objects.isFull s.self.blockSize r then touchedBySwap r else pure false
    let others ← getNumFullBlocksTouched rest
    return touched.toNat + others

end

def forkEach : Option BlockRef → List BlockRef →
    Method (Heaped (PrefixCachingBlockAllocator ε)) (List BlockRef)
  | _, [] => return []
  | prevBlock, r :: rest => do
    let blockId ← presentBlockId r
    let refcount ← onSelf (onRefcounter (RefCounter.incr blockId))
    assertThat (refcount ≠ 1)
    let s ← get
    let forked ← onPool (BlockPool.initBlock prevBlock (s.block r).tokenIds s.self.blockSize
      (some blockId) (s.block r).extraHash)
    let others ← forkEach (some forked) rest
    return forked :: others

def fork (lastBlock : BlockRef) : Method (Heaped (PrefixCachingBlockAllocator ε)) (List BlockRef) := do
  let sourceBlocks ← onObjects (Objects.getAllBlocksRecursively lastBlock)
  forkEach none sourceBlocks

def markBlocksAsComputed : Method (PrefixCachingBlockAllocator ε) Unit := do
  let s ← get
  s.touchedBlocks.forM fun blockId =>
    onTracker blockId (modify fun tracker => { tracker with computed := true })
  modify fun s => { s with touchedBlocks := [] }

def clearCopyOnWrites : Method (PrefixCachingBlockAllocator ε) (List (BlockId × BlockId)) :=
  zoom cowTracker (fun cowTracker s => { s with cowTracker }) CopyOnWriteTracker.clearCows

def getNumTotalBlocks (s : PrefixCachingBlockAllocator ε) : ℕ :=
  s.hashlessAllocator.getNumTotalBlocks

section
variable [Evictor ε]

def getNumFreeBlocks (s : PrefixCachingBlockAllocator ε) : ℕ :=
  s.hashlessAllocator.getNumFreeBlocks + numBlocks s.evictor

def notOnGpu : PyError := .valueError "Mark block as accessed which is not belonged to GPU"

def markBlockAsAccessed [Numpy] (now : Time) (cacheHint : Option CacheHint) (blockId : BlockId) :
    Method (PrefixCachingBlockAllocator ε) Unit := do
  let tracker ← trackerOf blockId
  if tracker.active then onTracker blockId (BlockTracker.overwriteBlockMetadata now cacheHint)
  else
    let s ← get
    if contains s.evictor blockId then onEvictor (update blockId now cacheHint)
    else throw notOnGpu

def markBlocksAsAccessed [Numpy] (blockIds : List BlockId) (now : Time)
    (cacheHint : Option CacheHint) : Method (PrefixCachingBlockAllocator ε) Unit :=
  blockIds.forM (markBlockAsAccessed now cacheHint)

def blockIsComputed (blockId : BlockId) : Method (PrefixCachingBlockAllocator ε) Bool := do
  let tracker ← trackerOf blockId
  if tracker.active then return tracker.computed
  else
    let s ← get
    return contains s.evictor blockId

def blockIsCached (blockHash : PrefixHash) : Method (PrefixCachingBlockAllocator ε) Bool := do
  let s ← get
  match s.cachedBlocks.get? blockHash with
  | none => return false
  | some cachedBlockId => blockIsComputed cachedBlockId

/-- `bisect_left(block_hashes, True, key=lambda x: not _block_is_cached(x))` between two positions. -/
def bisectLeft (blockHashes : List PrefixHash) : ℕ → ℕ → ℕ → Method (PrefixCachingBlockAllocator ε) ℕ
  | 0, lo, _ => return lo
  | rounds + 1, lo, hi =>
    if lo < hi then do
      let mid := (lo + hi) / 2
      if ← blockIsCached (blockHashes.getD mid 0) then bisectLeft blockHashes rounds (mid + 1) hi
      else bisectLeft blockHashes rounds lo mid
    else return lo

def findCachedBlocksPrefix (blockHashes : List PrefixHash) :
    Method (PrefixCachingBlockAllocator ε) (List PrefixHash) := do
  let idx ← bisectLeft blockHashes blockHashes.length 0 blockHashes.length
  return blockHashes.take idx

/-- The loop at the end of `observe_cache_accesses`. -/
def observeEach (observe : PrefixHash → Option CacheHint → Option Bool → Method ε Unit)
    (blockHashes : List PrefixHash) (cacheHint : Option CacheHint) :
    Method (PrefixCachingBlockAllocator ε) Unit :=
  blockHashes.forM fun blockHash => do
    let s ← get
    onEvictor (observe blockHash cacheHint (some (s.cachedBlocks.contains blockHash)))

def observeCacheAccesses (blockHashes : List PrefixHash) (cacheHint : Option CacheHint) :
    Method (PrefixCachingBlockAllocator ε) Unit := do
  let s ← get
  if (@shouldObserveCacheAccesses ε _).any fun should => !should s.evictor then pure ()
  else
    match @Evictor.observeCacheAccesses ε _, @Evictor.observeCacheAccess ε _ with
    | some observe, _ =>
      onEvictor (observe blockHashes cacheHint (some (blockHashes.map s.cachedBlocks.contains)))
    | none, some observe => observeEach observe blockHashes cacheHint
    | none, none => pure ()

def shouldPredictCacheHint (s : PrefixCachingBlockAllocator ε) : Bool :=
  match @Evictor.shouldPredictCacheHint ε _ with
  | none => true
  | some should => should s.evictor

end

/-! ### The components' methods -/

section
variable {s : PrefixCachingBlockAllocator ε} {b : BlockId} {n : ℕ} {tracker : BlockTracker}

def pool (s : PrefixCachingBlockAllocator ε) : BlockPool := s.hashlessAllocator.blockPool

def refcounts (s : PrefixCachingBlockAllocator ε) : Dict BlockId ℕ :=
  s.hashlessAllocator.refcounter.refcounts

def setRefcount (b : BlockId) (n : ℕ) (s : PrefixCachingBlockAllocator ε) :
    PrefixCachingBlockAllocator ε :=
  { s with hashlessAllocator :=
    { s.hashlessAllocator with refcounter := ⟨s.refcounts.insert b n⟩ } }

def setTracker (b : BlockId) (tracker : BlockTracker) (s : PrefixCachingBlockAllocator ε) :
    PrefixCachingBlockAllocator ε :=
  { s with blockTracker := s.blockTracker.insert b tracker }

theorem wp_decr {Q : ℕ → PrefixCachingBlockAllocator ε → Prop} {E}
    (known : s.refcounts.get? b = some (n + 1)) :
    wp (onRefcounter (RefCounter.decr b)) Q E s ↔ Q n (s.setRefcount b n) := by
  unfold refcounts at known
  simp [onRefcounter, NaiveBlockAllocator.onRefcounter, RefCounter.decr, known, setRefcount, refcounts]

theorem wp_trackerOf {Q : BlockTracker → PrefixCachingBlockAllocator ε → Prop} {E}
    (found : s.blockTracker.get? b = some tracker) : wp (trackerOf b) Q E s ↔ Q tracker s := by
  simp [trackerOf, found]

theorem wp_onTracker {β : Type} {method : Method BlockTracker β}
    {Q : β → PrefixCachingBlockAllocator ε → Prop} {E} (found : s.blockTracker.get? b = some tracker) :
    wp (onTracker b method) Q E s ↔
      wp method (fun a t => Q a (s.setTracker b t)) (fun e t => E e (s.setTracker b t)) tracker := by
  simp [onTracker, wp_trackerOf found, setTracker]

theorem wp_untrackBlockId {Q : Unit → PrefixCachingBlockAllocator ε → Prop} {E}
    (found : s.blockTracker.get? b = some tracker) (active : tracker.active = true) :
    wp (untrackBlockId b) Q E s ↔ Q () (s.setTracker b {}) := by
  simp [untrackBlockId, wp_onTracker found, BlockTracker.disable, wp_assertThat, active,
    BlockTracker.reset]

theorem wp_presentBlockId {s : Heaped (PrefixCachingBlockAllocator ε)} {r : BlockRef}
    {Q : BlockId → Heaped (PrefixCachingBlockAllocator ε) → Prop} {E}
    (present : (s.block r).blockId = some b) : wp (presentBlockId r) Q E s ↔ Q b s := by
  simp [presentBlockId, present]

end

end PrefixCachingBlockAllocator

/-- The longest common prefix of the lists, as `os.path.commonprefix` computes it. -/
def commonprefix : List (List BlockId) → List BlockId
  | [] => []
  | ids :: rest => rest.foldl (fun common other =>
      ((common.zip other).takeWhile fun pair => pair.1 = pair.2).map Prod.fst) ids

def PrefixCachingBlockAllocator.getCommonComputedBlockIds (computedSeqBlockIds : List (List BlockId)) :
    List BlockId :=
  match computedSeqBlockIds with
  | [ids] => ids
  | _ => commonprefix (computedSeqBlockIds.filter fun ids => !ids.isEmpty)

end Vllm
