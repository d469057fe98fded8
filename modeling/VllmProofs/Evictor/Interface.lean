import VllmProofs.Evictor.Lru
import VllmProofs.Evictor.LruMl

/-!
What the block allocator calls on its evictor. The methods only some evictors have, which the
allocator finds by `hasattr`, are optional.
-/

namespace Vllm
open Evictor

class Evictor (ε : Type) where
  contains : ε → BlockId → Bool
  numBlocks : ε → ℕ
  evict : Method ε (BlockId × PrefixHash)
  add : BlockId → PrefixHash → ℕ → Time → Option CacheHint → Method ε Unit
  update : BlockId → Time → Option CacheHint → Method ε Unit
  remove : BlockId → Method ε Unit
  setCapacity : Option (ℤ → Method ε Unit) := none
  observeCacheAccesses :
    Option (List PrefixHash → Option CacheHint → Option (List Bool) → Method ε Unit) := none
  observeCacheAccess : Option (PrefixHash → Option CacheHint → Option Bool → Method ε Unit) := none
  shouldObserveCacheAccesses : Option (ε → Bool) := none
  shouldPredictCacheHint : Option (ε → Bool) := none

namespace Evictor

instance : Evictor LRUEvictor where
  contains := LRUEvictor.contains
  numBlocks := LRUEvictor.numBlocks
  evict := LRUEvictor.evict
  add := LRUEvictor.add
  update := LRUEvictor.update
  remove := LRUEvictor.remove

instance : Evictor PDPEvictor where
  contains := PDPEvictor.contains
  numBlocks := PDPEvictor.numBlocks
  evict := PDPEvictor.evict
  add := PDPEvictor.add
  update := PDPEvictor.update
  remove := PDPEvictor.remove
  setCapacity := some PDPEvictor.setCapacity
  observeCacheAccesses := some PDPEvictor.observeCacheAccesses
  observeCacheAccess := some PDPEvictor.observeCacheAccess
  shouldObserveCacheAccesses := some fun _ => true
  shouldPredictCacheHint := some fun _ => false

def LRUMLEvictor.shouldPredictCacheHint (s : LRUMLEvictor) : Bool := s.scheduler.shouldPredict

def LRUMLEvictor.shouldObserveCacheAccesses (s : LRUMLEvictor) : Bool :=
  if s.scheduler.enabled && !s.scheduler.finalized then true
  else s.scheduler.finalized && s.scheduler.currentPolicy = .pdp

instance [Numpy] : Evictor LRUMLEvictor where
  contains := LRUMLEvictor.contains
  numBlocks := LRUMLEvictor.numBlocks
  evict := LRUMLEvictor.evict
  add := LRUMLEvictor.add
  update := LRUMLEvictor.update
  remove := LRUMLEvictor.remove
  setCapacity := some LRUMLEvictor.setCapacity
  observeCacheAccess := some LRUMLEvictor.observeCacheAccess
  shouldObserveCacheAccesses := some LRUMLEvictor.shouldObserveCacheAccesses
  shouldPredictCacheHint := some LRUMLEvictor.shouldPredictCacheHint

end Evictor
end Vllm
