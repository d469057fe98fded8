import VllmProofs.Data.Heapq
import VllmProofs.Evictor.Basic

/-!
`LRUEvictor`: a free table and a priority queue whose entries are never updated in place. An
entry is outdated once its block has left the table or carries another access time, and `evict`
skips outdated entries as it pops them.
-/

namespace Vllm.Evictor

structure QueueEntry where
  lastAccessed : Time
  negTokens : ℤ
  blockId : BlockId
  contentHash : PrefixHash
  deriving DecidableEq, Repr

namespace QueueEntry

def key (e : QueueEntry) : Time ×ₗ ℤ ×ₗ BlockId ×ₗ PrefixHash :=
  toLex (e.lastAccessed, toLex (e.negTokens, toLex (e.blockId, e.contentHash)))

theorem key_injective : Function.Injective key := by
  rintro ⟨t, n, b, h⟩ ⟨t', n', b', h'⟩ same
  simpa [key] using same

instance : LinearOrder QueueEntry := LinearOrder.lift' key key_injective

theorem le_iff {e f : QueueEntry} : e ≤ f ↔ e.key ≤ f.key := Iff.rfl

end QueueEntry

/-- The order the evictor's documentation promises: oldest access first, longest prefix first. -/
def BlockMetaData.priority (block : BlockMetaData) : Time ×ₗ ℤ :=
  toLex (block.lastAccessed, -(block.numHashedTokens : ℤ))

/-- The queue entry of a block as the free table describes it. -/
def BlockMetaData.entry (block : BlockMetaData) (blockId : BlockId) : QueueEntry :=
  ⟨block.lastAccessed, -(block.numHashedTokens : ℤ), blockId, block.contentHash⟩

theorem priority_le_of_entry_le {b c : BlockId} {md mc : BlockMetaData}
    (h : md.entry b ≤ mc.entry c) : md.priority ≤ mc.priority := by
  simp only [QueueEntry.le_iff, QueueEntry.key, BlockMetaData.entry, Prod.Lex.toLex_le_toLex] at h
  simp only [BlockMetaData.priority, Prod.Lex.toLex_le_toLex]
  rcases h with earlier | ⟨same, longer | ⟨equal, _⟩⟩
  · exact Or.inl earlier
  · exact Or.inr ⟨same, longer.le⟩
  · exact Or.inr ⟨same, equal.le⟩

structure LRUEvictor where
  freeTable : Dict BlockId BlockMetaData := ∅
  priorityQueue : Heapq QueueEntry := ∅

namespace LRUEvictor

def cleanupThreshold : ℕ := 50

/-- The test `evict` puts a popped entry to. -/
def valid (freeTable : Dict BlockId BlockMetaData) (e : QueueEntry) : Bool :=
  match freeTable.get? e.blockId with
  | some block => block.lastAccessed = e.lastAccessed
  | none => false

def contains (s : LRUEvictor) (blockId : BlockId) : Bool := s.freeTable.contains blockId

def numBlocks (s : LRUEvictor) : ℕ := s.freeTable.size

def evict : Method LRUEvictor (BlockId × PrefixHash) := do
  let s ← get
  if s.freeTable.size = 0 then throw noUsableMemory
  else
    match s.priorityQueue.popUntil (valid s.freeTable) with
    | some (e, rest) =>
      set { s with freeTable := s.freeTable.erase e.blockId, priorityQueue := rest }
      return (e.blockId, e.contentHash)
    | none =>
      set { s with priorityQueue := ∅ }
      throw noUsableMemory

def cleanup (s : LRUEvictor) : LRUEvictor :=
  { s with priorityQueue := Heapq.heapify (s.freeTable.items.map fun x => x.2.entry x.1) }

def cleanupIfNecessary (s : LRUEvictor) : LRUEvictor :=
  if s.priorityQueue.entries.length > cleanupThreshold * s.freeTable.size then s.cleanup else s

def add (blockId : BlockId) (contentHash : PrefixHash) (numHashedTokens : ℕ) (lastAccessed : Time)
    (cacheHint : Option CacheHint) : Method LRUEvictor Unit :=
  modify fun s =>
    let block : BlockMetaData := { contentHash, numHashedTokens, lastAccessed, cacheHint }
    cleanupIfNecessary { s with
      freeTable := s.freeTable.insert blockId block
      priorityQueue := s.priorityQueue.push (block.entry blockId) }

/-- `'use_fifo' not in cache_hint or cache_hint['use_fifo'] == 0` -/
def movesOnAccess (hint : CacheHint) : Bool := hint.useFifo.all (· = 0)

def update (blockId : BlockId) (lastAccessed : Time) (cacheHint : Option CacheHint) :
    Method LRUEvictor Unit := do
  let s ← get
  match cacheHint with
  | none => throw .typeError
  | some hint =>
    match s.freeTable.get? blockId with
    | none => throw .keyError
    | some block =>
      let moved := if movesOnAccess hint then { block with lastAccessed } else block
      set { s with freeTable := s.freeTable.insert blockId { moved with cacheHint := some hint } }

def remove (blockId : BlockId) : Method LRUEvictor Unit := do
  let s ← get
  if s.freeTable.contains blockId then
    set { s with freeTable := s.freeTable.erase blockId }
  else throw (.valueError "Attempting to remove block that's not in the evictor")

end LRUEvictor
end Vllm.Evictor
