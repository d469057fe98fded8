import VllmProofs.Base
import VllmProofs.Data.Dict
import VllmProofs.Data.Wp

/-!
Block objects and what both allocators keep about them: `vllm/core/block/common.py`. Block
objects live in pools and are used again, so a `prev_block` is a reference to an object and not
a value.
-/

namespace Vllm
open Exec

inductive Device where
  | cpu | gpu
  deriving DecidableEq, Repr

/-- A block object: the pool that created it, and its `pool_id` there. -/
structure BlockRef where
  pool : Device
  poolId : ℕ
  deriving DecidableEq, Repr

structure Block where
  prevBlock : Option BlockRef := none
  tokenIds : List TokenId := []
  blockId : Option BlockId := none
  cachedContentHash : Option PrefixHash := none
  cachedNumTokensTotal : ℕ := 0
  computed : Bool := false
  extraHash : Option ℤ := none
  deriving DecidableEq, Repr

/-- The block objects written to so far. -/
abbrev Objects := Dict BlockRef Block

namespace Objects

/-- An object nobody wrote to is as `_create_block` made it. -/
def block (o : Objects) (r : BlockRef) : Block := (o.get? r).getD {}

def update (o : Objects) (r : BlockRef) (f : Block → Block) : Objects := o.insert r (f (o.block r))

theorem block_insert (o : Objects) (r : BlockRef) (b : Block) (x : BlockRef) :
    block (o.insert r b) x = if x = r then b else o.block x := by
  unfold block
  rw [Dict.get?_insert]
  split <;> rfl

theorem block_update (o : Objects) (r : BlockRef) (f : Block → Block) (x : BlockRef) :
    (o.update r f).block x = if x = r then f (o.block r) else o.block x := block_insert _ _ _ _

@[simp] theorem block_update_self (o : Objects) (r : BlockRef) (f : Block → Block) :
    (o.update r f).block r = f (o.block r) := by
  simp [block_update]

theorem block_update_ne {o : Objects} {r x : BlockRef} (f : Block → Block) (different : x ≠ r) :
    (o.update r f).block x = o.block x := by
  simp [block_update, different]

/-- The recursion of `get_all_blocks_recursively`; more nested calls than objects is a cycle. -/
def ancestors : ℕ → BlockRef → Method Objects (List BlockRef)
  | 0, _ => throw .recursionError
  | depth + 1, r => do
    let o ← get
    match (o.block r).prevBlock with
    | none => return [r]
    | some p =>
      let before ← ancestors depth p
      return before ++ [r]

def getAllBlocksRecursively (lastBlock : BlockRef) : Method Objects (List BlockRef) := do
  let o ← get
  ancestors (o.size + 1) lastBlock

def appendTokenIdsNoCow (blockSize : ℕ) (r : BlockRef) (tokenIds : List TokenId) :
    Method Objects Unit :=
  if tokenIds.length = 0 then pure () else do
    let o ← get
    assertThat (tokenIds.length ≤ blockSize - (o.block r).tokenIds.length)
    set (o.update r fun b => { b with tokenIds := b.tokenIds ++ tokenIds })

end Objects

/-- An object of the allocator layer together with the block objects it refers to. -/
structure Heaped (α : Type) where
  objects : Objects
  self : α

namespace Heaped

variable {α β : Type}

def onSelf (method : Method α β) : Method (Heaped α) β :=
  zoom self (fun a s => { s with self := a }) method

def onObjects (method : Method Objects β) : Method (Heaped α) β :=
  zoom objects (fun o s => { s with objects := o }) method

def block (s : Heaped α) (r : BlockRef) : Block := s.objects.block r

def setBlockId (r : BlockRef) (blockId : Option BlockId) (s : Heaped α) : Heaped α :=
  { s with objects := s.objects.update r fun b => { b with blockId } }

end Heaped

structure RefCounter where
  refcounts : Dict BlockId ℕ

namespace RefCounter

def init (allBlockIndices : List BlockId) : RefCounter := ⟨.ofKeys 0 allBlockIndices⟩

def incr (blockId : BlockId) : Method RefCounter ℕ := do
  let s ← get
  match s.refcounts.get? blockId with
  | none => throw .assertionError
  | some refcount =>
    set (⟨s.refcounts.insert blockId (refcount + 1)⟩ : RefCounter)
    return refcount + 1

def decr (blockId : BlockId) : Method RefCounter ℕ := do
  let s ← get
  match s.refcounts.get? blockId with
  | none | some 0 => throw .assertionError
  | some (refcount + 1) =>
    set (⟨s.refcounts.insert blockId refcount⟩ : RefCounter)
    return refcount

/-- `RefCounter.get` -/
def count (blockId : BlockId) : Method RefCounter ℕ := do
  let s ← get
  match s.refcounts.get? blockId with
  | none => throw .assertionError
  | some refcount => return refcount

end RefCounter

structure CopyOnWriteTracker where
  copyOnWrites : List (BlockId × BlockId) := []

namespace CopyOnWriteTracker

def recordCow (source target : BlockId) (s : CopyOnWriteTracker) : CopyOnWriteTracker :=
  ⟨s.copyOnWrites ++ [(source, target)]⟩

def clearCows : Method CopyOnWriteTracker (List (BlockId × BlockId)) := do
  let s ← get
  set ({} : CopyOnWriteTracker)
  return s.copyOnWrites

end CopyOnWriteTracker

structure BlockPool where
  device : Device
  poolSize : ℕ
  freeIds : List ℕ

namespace BlockPool

def init (device : Device) (poolSize : ℕ) : BlockPool := ⟨device, poolSize, List.range poolSize⟩

def increasePool (s : BlockPool) : BlockPool :=
  { s with
    poolSize := s.poolSize * 2
    freeIds := s.freeIds ++ List.range' s.poolSize s.poolSize }

/-- The pool after the first lines of `init_block`. -/
def replenished (s : BlockPool) : BlockPool :=
  if s.freeIds.length = 0 then s.increasePool else s

def initialized (o : Objects) (prevBlock : Option BlockRef) (tokenIds : List TokenId)
    (blockId : Option BlockId) (extraHash : Option ℤ) : Block where
  prevBlock
  tokenIds
  blockId
  cachedNumTokensTotal :=
    (prevBlock.elim 0 fun p => (o.block p).cachedNumTokensTotal) + tokenIds.length
  extraHash

def initBlock (prevBlock : Option BlockRef) (tokenIds : List TokenId) (blockSize : ℕ)
    (physicalBlockId : Option BlockId) (extraHash : Option ℤ) : Method (Heaped BlockPool) BlockRef := do
  let s ← get
  let pool := s.self.replenished
  match pool.freeIds with
  | [] => throw .assertionError
  | poolId :: freeIds =>
    let r : BlockRef := ⟨pool.device, poolId⟩
    set { s with self := { pool with freeIds } }
    if poolId < pool.poolSize then
      assertThat (tokenIds.length ≤ blockSize)
      let block := initialized s.objects prevBlock tokenIds physicalBlockId extraHash
      modify fun s => { s with objects := s.objects.insert r block }
      return r
    else throw .indexError

def freeBlock (r : BlockRef) : Method BlockPool Unit :=
  modify fun s => { s with freeIds := r.poolId :: s.freeIds }

end BlockPool
end Vllm
