import VllmProofs.Block.Trackers

/-!
The allocators of the two devices, told apart by their block ids, and the null block that stands for the
blocks a sliding window has dropped.
-/

namespace Vllm
open Exec Heaped Evictor

class BlockAllocator (α : Type) extends PrefixCache α where
  allocateMutableBlock : Option BlockRef → Option ℤ → Method (Heaped α) BlockRef
  allocateImmutableBlocks : Option BlockRef → List (List TokenId) → Option ℤ →
    Method (Heaped α) (List BlockRef)
  /-- `append_token_ids` of a block the allocator created. -/
  appendTokenIds : BlockRef → List TokenId → Method (Heaped α) Unit
  free : BlockRef → Method (Heaped α) Unit
  fork : BlockRef → Method (Heaped α) (List BlockRef)
  swapOut : List BlockRef → Method (Heaped α) Unit
  swapIn : List BlockRef → Method (Heaped α) Unit
  /-- `_free_block_id` of a null block, up to the point where it refuses to lose its id. -/
  swapOutNull : BlockRef → Method (Heaped α) Unit
  /-- May a null block be a `prev_block`? -/
  acceptsNullBlock : Bool
  getNumFullBlocksTouched : List BlockRef → Method (Heaped α) ℕ
  getNumFreeBlocks : α → ℕ
  getNumTotalBlocks : α → ℕ
  allBlockIds : α → Finset BlockId
  clearCopyOnWrites : Method α (List (BlockId × BlockId))
  markBlocksAsComputed : Method α Unit
  getCommonComputedBlockIds : List (List BlockId) → List BlockId

/-- `sorted(self._all_block_indices).index(absolute_id)` -/
def getPhysicalBlockId {σ : Type} (allBlockIds : Finset BlockId) (absoluteId : BlockId) :
    Method σ BlockId :=
  if absoluteId ∈ allBlockIds then return (allBlockIds.filter (· < absoluteId)).card
  else throw (.valueError s!"{absoluteId} is not in list")

def nullBlockModified : PyError := .valueError "null block should not be modified"

namespace NaiveBlockAllocator

instance : BlockAllocator NaiveBlockAllocator where
  findCachedBlocksPrefix _ := return []
  observeCacheAccesses _ _ := return ()
  shouldPredictCacheHint _ := true
  markBlocksAsAccessed _ _ _ := return ()
  allocateMutableBlock prevBlock _ := allocateMutableBlock prevBlock
  allocateImmutableBlocks prevBlock blockTokenIds _ := allocateImmutableBlocks prevBlock blockTokenIds
  appendTokenIds := appendTokenIds
  free r := free r false
  fork := fork
  swapOut := swapOut
  swapIn := swapIn
  swapOutNull _ := throw nullBlockModified
  acceptsNullBlock := true
  getNumFullBlocksTouched blocks := do
    let s ← get
    return getNumFullBlocksTouched s blocks
  getNumFreeBlocks := getNumFreeBlocks
  getNumTotalBlocks := getNumTotalBlocks
  allBlockIds s := s.allBlockIndices
  clearCopyOnWrites := clearCopyOnWrites
  markBlocksAsComputed := return ()
  getCommonComputedBlockIds _ := []

end NaiveBlockAllocator

namespace PrefixCachingBlockAllocator

variable {ε : Type} [PythonHash] [Numpy] [Evictor ε]

def swapOutNull (proxy : BlockRef) : Method (Heaped (PrefixCachingBlockAllocator ε)) Unit := do
  let blockId ← presentBlockId proxy
  match ← contentHash proxy with
  | some contentHash =>
    let s ← get
    onSelf (releaseCached blockId contentHash (s.block proxy).cachedNumTokensTotal)
    throw nullBlockModified
  | none =>
    onSelf (untrackIfLast blockId)
    throw nullBlockModified

instance : BlockAllocator (PrefixCachingBlockAllocator ε) where
  allocateMutableBlock := allocateMutableBlock
  allocateImmutableBlocks := allocateImmutableBlocks
  appendTokenIds := appendTokenIds
  free := free
  fork := fork
  swapOut := swapOut
  swapIn := swapIn
  swapOutNull := swapOutNull
  acceptsNullBlock := false
  getNumFullBlocksTouched := getNumFullBlocksTouched
  getNumFreeBlocks := getNumFreeBlocks
  getNumTotalBlocks := getNumTotalBlocks
  allBlockIds s := s.hashlessAllocator.allBlockIndices
  clearCopyOnWrites := clearCopyOnWrites
  markBlocksAsComputed := markBlocksAsComputed
  getCommonComputedBlockIds := getCommonComputedBlockIds

end PrefixCachingBlockAllocator
end Vllm

namespace Vllm
open Exec Heaped Evictor

/-- An entry of a block table. -/
inductive Slot where
  | block (r : BlockRef)
  | null
  deriving DecidableEq, Repr

structure CpuGpuBlockAllocator (α : Type) where
  cpu : α
  gpu : α
  swapMapping : Dict BlockId BlockId := ∅
  /-- The block inside the null block. -/
  nullBlock : Option BlockRef := none

namespace CpuGpuBlockAllocator

variable {α β : Type}

/-- `create`, from the constructor of the allocator type. Block 0 is reserved on some platforms, and
the ids of the GPU blocks come before those of the CPU blocks. -/
def create (allocator : Device → List BlockId → α) (reservesBlock : Bool)
    (numGpuBlocks numCpuBlocks : ℕ) : CpuGpuBlockAllocator α :=
  let reservedBlocks := if reservesBlock then 1 else 0
  let blockIds := List.range' reservedBlocks (numGpuBlocks + numCpuBlocks - reservedBlocks)
  { cpu := allocator .cpu (blockIds.drop (numGpuBlocks - reservedBlocks))
    gpu := allocator .gpu (blockIds.take (numGpuBlocks - reservedBlocks)) }

def allocator (s : CpuGpuBlockAllocator α) : Device → α
  | .cpu => s.cpu
  | .gpu => s.gpu

def withAllocator (device : Device) (allocator : α) (s : CpuGpuBlockAllocator α) :
    CpuGpuBlockAllocator α :=
  match device with
  | .cpu => { s with cpu := allocator }
  | .gpu => { s with gpu := allocator }

/-- A method of `self._allocators[device]` that block objects do not matter to. -/
def onAllocator (device : Device) : Method α β → Method (CpuGpuBlockAllocator α) β :=
  zoom (fun s => s.allocator device) (withAllocator device)

def onDevice (device : Device) : Method (Heaped α) β → Method (Heaped (CpuGpuBlockAllocator α)) β :=
  zoom (fun s => ⟨s.objects, s.self.allocator device⟩)
    fun t s => ⟨t.objects, s.self.withAllocator device t.self⟩

variable [BlockAllocator α]

def deviceOf? (s : CpuGpuBlockAllocator α) (blockId : BlockId) : Option Device :=
  if blockId ∈ BlockAllocator.allBlockIds s.gpu then some .gpu
  else if blockId ∈ BlockAllocator.allBlockIds s.cpu then some .cpu
  else none

/-- The same for the block id of an object, which the caller asserts is there. -/
def ownerOf (r : BlockRef) : Method (Heaped (CpuGpuBlockAllocator α)) Device := do
  let s ← get
  match (s.block r).blockId with
  | none => throw .assertionError
  | some blockId =>
    match s.self.deviceOf? blockId with
    | none => throw .keyError
    | some device => return device

def allocateMutableBlock (prevBlock : Option Slot) (device : Device) (extraHash : Option ℤ) :
    Method (Heaped (CpuGpuBlockAllocator α)) BlockRef := do
  match prevBlock with
  | none => onDevice device (BlockAllocator.allocateMutableBlock none extraHash)
  | some (.block p) => onDevice device (BlockAllocator.allocateMutableBlock (some p) extraHash)
  | some .null =>
    assertThat (BlockAllocator.acceptsNullBlock α = true)
    let s ← get
    onDevice device (BlockAllocator.allocateMutableBlock s.self.nullBlock extraHash)

def allocateImmutableBlocks (blockTokenIds : List (List TokenId)) (device : Device)
    (extraHash : Option ℤ) : Method (Heaped (CpuGpuBlockAllocator α)) (List BlockRef) :=
  onDevice device (BlockAllocator.allocateImmutableBlocks none blockTokenIds extraHash)

def allocateOrGetNullBlock : Method (Heaped (CpuGpuBlockAllocator α)) Unit := do
  let s ← get
  if s.self.nullBlock.isSome then pure ()
  else
    let proxy ← allocateMutableBlock none .gpu none
    modify fun s => { s with self := { s.self with nullBlock := some proxy } }

/-- `append_token_ids` of a block, whose allocator is the one that created it. -/
def appendTokenIds (slot : Slot) (tokenIds : List TokenId) :
    Method (Heaped (CpuGpuBlockAllocator α)) Unit :=
  match slot with
  | .block r => onDevice r.pool (BlockAllocator.appendTokenIds r tokenIds)
  | .null => throw nullBlockModified

def free (slot : Slot) : Method (Heaped (CpuGpuBlockAllocator α)) Unit :=
  match slot with
  | .null => pure ()
  | .block r => do
    let device ← ownerOf r
    onDevice device (BlockAllocator.free r)

def fork (lastBlock : Slot) : Method (Heaped (CpuGpuBlockAllocator α)) (List BlockRef) :=
  match lastBlock with
  | .null => throw .assertionError
  | .block r => do
    let device ← ownerOf r
    onDevice device (BlockAllocator.fork r)

def getNumFreeBlocks (device : Device) (s : CpuGpuBlockAllocator α) : ℕ :=
  BlockAllocator.getNumFreeBlocks (s.allocator device)

def getNumTotalBlocks (device : Device) (s : CpuGpuBlockAllocator α) : ℕ :=
  BlockAllocator.getNumTotalBlocks (s.allocator device)

def getPhysicalBlockId (device : Device) (absoluteId : BlockId) :
    Method (CpuGpuBlockAllocator α) BlockId := do
  let s ← get
  Vllm.getPhysicalBlockId (BlockAllocator.allBlockIds (s.allocator device)) absoluteId

/-- The object whose properties a table entry has. -/
def object (s : CpuGpuBlockAllocator α) : Slot → Option BlockRef
  | .block r => some r
  | .null => s.nullBlock

def slotId (s : Heaped (CpuGpuBlockAllocator α)) (slot : Slot) : Option BlockId :=
  (s.self.object slot).bind fun r => (s.block r).blockId

def swapOutSlot (device : Device) (slot : Slot) : Method (Heaped (CpuGpuBlockAllocator α)) Unit :=
  match slot with
  | .block r => onDevice device (BlockAllocator.swapOut [r])
  | .null => do
    let s ← get
    match s.self.nullBlock with
    | none => throw .attributeError
    | some proxy => onDevice device (BlockAllocator.swapOutNull proxy)

def swapInSlot (device : Device) (slot : Slot) : Method (Heaped (CpuGpuBlockAllocator α)) Unit :=
  match slot with
  | .block r => onDevice device (BlockAllocator.swapIn [r])
  | .null => throw nullBlockModified

def swapPairs : List (Option BlockId × Option BlockId) → List (BlockId × BlockId)
  | [] => []
  | (some source, some target) :: rest => (source, target) :: swapPairs rest
  | _ :: rest => swapPairs rest

/-- `swap`; the mapping it returns is a dict, in the order the blocks were inserted. -/
def swap (blocks : List Slot) (srcDevice dstDevice : Device) :
    Method (Heaped (CpuGpuBlockAllocator α)) (Dict BlockId BlockId) := do
  let s ← get
  let srcBlockIds := blocks.map (slotId s)
  blocks.forM (swapOutSlot srcDevice)
  blocks.forM (swapInSlot dstDevice)
  let s ← get
  let dstBlockIds := blocks.map (slotId s)
  let pairs := swapPairs (srcBlockIds.zip dstBlockIds)
  let insertAll := fun (mapping : Dict BlockId BlockId) =>
    pairs.foldl (fun mapping pair => mapping.insert pair.1 pair.2) mapping
  modify fun s => { s with self := { s.self with swapMapping := insertAll s.self.swapMapping } }
  return insertAll ∅

def getNumFullBlocksTouched (blocks : List Slot) (device : Device) :
    Method (Heaped (CpuGpuBlockAllocator α)) ℕ := do
  let s ← get
  onDevice device (BlockAllocator.getNumFullBlocksTouched (blocks.filterMap s.self.object))

def clearCopyOnWrites : Method (CpuGpuBlockAllocator α) (List (BlockId × BlockId)) :=
  onAllocator .gpu BlockAllocator.clearCopyOnWrites

def markBlocksAsComputed : Method (CpuGpuBlockAllocator α) Unit :=
  onAllocator .gpu BlockAllocator.markBlocksAsComputed

instance : PrefixCache (CpuGpuBlockAllocator α) where
  findCachedBlocksPrefix hashes := onAllocator .gpu (PrefixCache.findCachedBlocksPrefix hashes)
  observeCacheAccesses hashes hint := onAllocator .gpu (PrefixCache.observeCacheAccesses hashes hint)
  shouldPredictCacheHint s := PrefixCache.shouldPredictCacheHint s.gpu
  markBlocksAsAccessed ids now hint := onAllocator .gpu (PrefixCache.markBlocksAsAccessed ids now hint)

end CpuGpuBlockAllocator
end Vllm
