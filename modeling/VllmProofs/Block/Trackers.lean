import VllmProofs.Block.PrefixCaching
import VllmProofs.Sequence

/-!
What the block manager keeps for each sequence beside its block table: the hashes of its full
blocks with the number of cached tokens (`ComputedBlocksTracker`), and its last access time with
its cache hint (`LastAccessBlocksTracker`).
-/

namespace Vllm
open Exec Evictor

/-- What the trackers call on the allocator. -/
class PrefixCache (α : Type) where
  findCachedBlocksPrefix : List PrefixHash → Method α (List PrefixHash)
  observeCacheAccesses : List PrefixHash → Option CacheHint → Method α Unit
  shouldPredictCacheHint : α → Bool
  markBlocksAsAccessed : List BlockId → Time → Option CacheHint → Method α Unit

instance {ε : Type} [Evictor ε] [Numpy] : PrefixCache (PrefixCachingBlockAllocator ε) where
  findCachedBlocksPrefix := PrefixCachingBlockAllocator.findCachedBlocksPrefix
  observeCacheAccesses := PrefixCachingBlockAllocator.observeCacheAccesses
  shouldPredictCacheHint := PrefixCachingBlockAllocator.shouldPredictCacheHint
  markBlocksAsAccessed := PrefixCachingBlockAllocator.markBlocksAsAccessed

structure ComputedBlocksTracker where
  blockSize : ℕ
  enableCaching : Bool
  seqIdToBlocksHashes : Dict SeqId (List PrefixHash) := ∅
  seqIdToNumTokensComputed : Dict SeqId ℕ := ∅

structure Tracking (τ α : Type) where
  tracker : τ
  allocator : α

namespace Tracking

variable {τ α β : Type}

def onTracker : Method τ β → Method (Tracking τ α) β :=
  zoom tracker fun tracker s => { s with tracker }

def onAllocator : Method α β → Method (Tracking τ α) β :=
  zoom allocator fun allocator s => { s with allocator }

end Tracking

namespace ComputedBlocksTracker
open Tracking

variable {α : Type}

section
variable [PythonHash]

/-- The loop of `_update_seq_hashes`, over the tokens of the blocks not yet recorded. -/
def hashBlocks (extraHash : Option ℤ) : PrefixHash → List (List TokenId) → List PrefixHash
  | _, [] => []
  | prevBlockHash, blockTokenIds :: rest =>
    let blockHash := hashBlockTokens (prevBlockHash = PythonHash.noneHash) (some prevBlockHash)
      blockTokenIds extraHash
    blockHash :: hashBlocks extraHash blockHash rest

/-- The tokens of the blocks from position `start` up to `stop`. -/
def blocksBetween (blockSize start stop : ℕ) (tokenIds : List TokenId) : List (List TokenId) :=
  (List.range' start (stop - start)).map fun i => (tokenIds.drop (i * blockSize)).take blockSize

def updateSeqHashes (seq : Sequence) : Method ComputedBlocksTracker Unit := do
  let s ← get
  assertThat (s.enableCaching = true)
  let recorded := (s.seqIdToBlocksHashes.get? seq.seqId).getD []
  assertThat (recorded.length * s.blockSize ≤ seq.getTokenIds.length)
  if s.blockSize = 0 then throw .zeroDivisionError
  else
    let numComputedBlocks := seq.getTokenIds.length / s.blockSize
    let blocks := blocksBetween s.blockSize recorded.length numComputedBlocks seq.getTokenIds
    let added := hashBlocks seq.extraHash (recorded.getLast?.getD PythonHash.noneHash) blocks
    set { s with seqIdToBlocksHashes := s.seqIdToBlocksHashes.insert seq.seqId (recorded ++ added) }

variable [PrefixCache α]

/-- The lookup of `get_num_cached_tokens`, when no earlier answer is kept. -/
def lookUp (seq : Sequence) (blockHashes : List PrefixHash) :
    Method (Tracking ComputedBlocksTracker α) ℕ := do
  onAllocator (PrefixCache.observeCacheAccesses blockHashes seq.cacheHint)
  let found ← onAllocator (PrefixCache.findCachedBlocksPrefix blockHashes)
  let s ← get
  let numCachedTokens := found.length * s.tracker.blockSize
  onTracker (modify fun s =>
    { s with
      seqIdToNumTokensComputed := s.seqIdToNumTokensComputed.insert seq.seqId numCachedTokens })
  return numCachedTokens

def getNumCachedTokens (seq : Sequence) : Method (Tracking ComputedBlocksTracker α) ℕ := do
  let s ← get
  if s.tracker.enableCaching = false then return 0
  else
    onTracker (updateSeqHashes seq)
    let s ← get
    match s.tracker.seqIdToNumTokensComputed.get? seq.seqId, seq.isPrefill with
    | some numComputedTokensPrev, true => return numComputedTokensPrev
    | _, _ =>
      match s.tracker.seqIdToBlocksHashes.get? seq.seqId with
      | none => throw .keyError
      | some blockHashes => lookUp seq blockHashes

end

def removeSeq (seqId : SeqId) : Method ComputedBlocksTracker Unit := do
  let s ← get
  if s.enableCaching = false then pure ()
  else
    assertThat (s.seqIdToBlocksHashes.contains seqId = true)
    set { s with seqIdToBlocksHashes := s.seqIdToBlocksHashes.erase seqId }
    assertThat (s.seqIdToNumTokensComputed.contains seqId = true)
    modify fun s => { s with seqIdToNumTokensComputed := s.seqIdToNumTokensComputed.erase seqId }

end ComputedBlocksTracker

structure LastAccessBlocksTracker where
  seqLastAccess : Dict SeqId (Option Time) := ∅
  seqCacheHint : Dict SeqId (Option CacheHint) := ∅

namespace LastAccessBlocksTracker
open Tracking

variable {α : Type}

def addSeq (seqId : SeqId) : Method LastAccessBlocksTracker Unit := do
  let s ← get
  assertThat (s.seqLastAccess.contains seqId = false)
  set ({ seqLastAccess := s.seqLastAccess.insert seqId none
         seqCacheHint := s.seqCacheHint.insert seqId none } : LastAccessBlocksTracker)

def removeSeq (seqId : SeqId) : Method LastAccessBlocksTracker Unit := do
  let s ← get
  assertThat (s.seqLastAccess.contains seqId = true)
  set { s with seqLastAccess := s.seqLastAccess.erase seqId }
  if s.seqCacheHint.contains seqId then
    modify fun s => { s with seqCacheHint := s.seqCacheHint.erase seqId }
  else throw .keyError

def updateLastAccess (seqId : SeqId) (time : Time) : Method LastAccessBlocksTracker Unit := do
  let s ← get
  assertThat (s.seqLastAccess.contains seqId = true)
  set { s with seqLastAccess := s.seqLastAccess.insert seqId (some time) }

/-- The hint of a sequence without a prediction gets one where nothing predicts. -/
def completedHint (shouldPredict : Bool) (hint : CacheHint) : CacheHint :=
  if !shouldPredict && hint.probHasNext.isNone then { hint with probHasNext := some (.number 0) } else hint

/-- `update_cache_hint`; handing the hint to the predictor thread is left out. -/
def updateCacheHint [PrefixCache α] (seqId : SeqId) (cacheHint : Option CacheHint) :
    Method (Tracking LastAccessBlocksTracker α) Unit := do
  match cacheHint with
  | none => throw .typeError
  | some hint =>
    let s ← get
    let hint := completedHint (PrefixCache.shouldPredictCacheHint s.allocator) hint
    let store : Method (Tracking LastAccessBlocksTracker α) Unit := onTracker (modify fun s =>
      { s with seqCacheHint := s.seqCacheHint.insert seqId (some hint) })
    match s.tracker.seqCacheHint.get? seqId with
    | none | some none => store
    | some (some old) =>
      match old.turns, hint.turns with
      | some before, some now => if before < now then store else pure ()
      | _, _ => throw .keyError

def updateBlocksMetadata [PrefixCache α] (seqId : SeqId) (blockIds : List BlockId) :
    Method (Tracking LastAccessBlocksTracker α) Unit := do
  let s ← get
  match s.tracker.seqCacheHint.get? seqId with
  | none => throw .keyError
  | some none => throw .typeError
  | some (some hint) =>
    let hint := if hint.probHasNext.isNone then { hint with probHasNext := some (.number 0) } else hint
    onTracker (modify fun s => { s with seqCacheHint := s.seqCacheHint.insert seqId (some hint) })
    match s.tracker.seqLastAccess.get? seqId with
    | none => throw .keyError
    | some none => pure ()
    | some (some ts) => onAllocator (PrefixCache.markBlocksAsAccessed blockIds ts (some hint))

end LastAccessBlocksTracker
end Vllm
