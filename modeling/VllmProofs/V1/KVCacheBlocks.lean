import VllmProofs.Data.DictSum
import VllmProofs.V1.CacheFullBlocks
import VllmProofs.V1.KVCacheManager

/-!
The blocks of the requests: what `allocate_slots` gives a request, what `free` gives back, and that
reference counts and the free queue agree with the requests' lists in every run.
-/

namespace Vllm.V1
open Exec Vllm.V1.BlockPool

namespace KVCacheManager

/-- How many times a block is in the list of a request. -/
def held (s : KVCacheManager) (b : BlockId) : ℕ := s.reqToBlocks.sum (List.count b)

/-- The free queue, the reference counts and the cache are as the requests' lists say. -/
structure Sound (s : KVCacheManager) : Prop where
  pool : s.blockPool.Valid s.held
  caching : s.blockPool.enableCaching = s.enableCaching

structure SameConfig (s t : KVCacheManager) : Prop where
  blockSize : t.blockSize = s.blockSize
  maxNumBlocksPerReq : t.maxNumBlocksPerReq = s.maxNumBlocksPerReq
  enableCaching : t.enableCaching = s.enableCaching
  numPreallocateBlocks : t.numPreallocateBlocks = s.numPreallocateBlocks
  numGpuBlocks : t.blockPool.numGpuBlocks = s.blockPool.numGpuBlocks

theorem SameConfig.refl (s : KVCacheManager) : SameConfig s s := ⟨rfl, rfl, rfl, rfl, rfl⟩

theorem SameConfig.trans {s t u : KVCacheManager} (first : SameConfig s t) (second : SameConfig t u) :
    SameConfig s u :=
  ⟨second.1.trans first.1, second.2.trans first.2, second.3.trans first.3, second.4.trans first.4,
    second.5.trans first.5⟩

variable {s t : KVCacheManager} {id : RequestId} {request : Request} {n : ℕ} {u : Unit}
  {blocks hits : List BlockId} {b : BlockId}

theorem held_setBlocks (s : KVCacheManager) (id : RequestId) (blocks : List BlockId) (b : BlockId) :
    (s.setBlocks id blocks).held b + (s.blocksOf id).count b = s.held b + blocks.count b := by
  unfold held setBlocks blocksOf
  cases found : s.reqToBlocks.get? id with
  | none =>
    rw [Dict.sum_insert_of_none found]
    simp
  | some old =>
    have sums := Dict.sum_insert_of_some (v := blocks) (f := List.count b) found
    simpa using sums

theorem held_extend (s : KVCacheManager) (id : RequestId) (blocks : List BlockId) :
    (s.setBlocks id (s.blocksOf id ++ blocks)).held = more s.held blocks := by
  funext b
  have sums := held_setBlocks s id (s.blocksOf id ++ blocks) b
  rw [List.count_append] at sums
  unfold more
  omega

theorem count_le_held (s : KVCacheManager) (id : RequestId) (b : BlockId) :
    (s.blocksOf id).count b ≤ s.held b := by
  unfold held blocksOf
  cases found : s.reqToBlocks.get? id with
  | none => simp
  | some old => exact Dict.le_sum (f := List.count b) found

theorem held_pos_of_mem (member : b ∈ s.blocksOf id) : 0 < s.held b := by
  have count := List.count_pos_iff.mpr member
  have le := count_le_held s id b
  omega

theorem Sound.inside (sound : s.Sound) (member : b ∈ s.blocksOf id) : b < s.blockPool.numGpuBlocks :=
  sound.pool.inside b (held_pos_of_mem member)

theorem blocksOf_setBlocks (s : KVCacheManager) (id : RequestId) (blocks : List BlockId) :
    (s.setBlocks id blocks).blocksOf = Function.update s.blocksOf id blocks := by
  funext k
  unfold blocksOf setBlocks
  dsimp only
  rw [Dict.get?_insert]
  by_cases same : k = id
  · subst same; simp
  · simp [same]

theorem hashesOf_setHashes (s : KVCacheManager) (id : RequestId) (hashes : List BlockHash) :
    (s.setHashes id hashes).hashesOf = Function.update s.hashesOf id hashes := by
  funext k
  unfold hashesOf setHashes
  dsimp only
  rw [Dict.get?_insert]
  by_cases same : k = id
  · subst same; simp
  · simp [same]

/-! ### Parts of `allocate_slots` -/

structure Grew (id : RequestId) (added : List BlockId) (s t : KVCacheManager) : Prop where
  config : SameConfig s t
  blocksOf : t.blocksOf = Function.update s.blocksOf id (s.blocksOf id ++ added)
  held : t.held = more s.held added
  reqToBlockHashes : t.reqToBlockHashes = s.reqToBlockHashes
  numCachedBlock : t.numCachedBlock = s.numCachedBlock

theorem takeComputedBlocks_ok (sound : s.Sound) (known : ∀ b ∈ hits, b < s.blockPool.numGpuBlocks)
    (call : takeComputedBlocks id hits s = .ok u t) :
    t.Sound ∧ Grew id hits s t ∧ SameCache s.blockPool t.blockPool := by
  unfold takeComputedBlocks at call
  obtain ⟨_, v, touched, last⟩ := bind_ok call
  cases last
  have step : ∃ pool, v = { s with blockPool := pool } ∧ pool.Valid (more s.held hits) ∧
      SameCache s.blockPool pool := by
    unfold touchComputedBlocks at touched
    rw [get_bind] at touched
    split at touched
    · obtain ⟨pool, inner, rfl⟩ := zoom_ok touched
      obtain ⟨valid, same⟩ := touch_ok sound.pool known inner
      exact ⟨pool, rfl, valid, same⟩
    · obtain ⟨empty, rfl⟩ := check_ok touched
      subst empty
      rw [more_nil]
      exact ⟨s.blockPool, rfl, sound.pool, SameCache.refl _⟩
  obtain ⟨pool, rfl, valid, same⟩ := step
  have counts := held_extend { s with blockPool := pool } id hits
  refine ⟨⟨?_, same.enableCaching.trans sound.caching⟩,
    ⟨⟨rfl, rfl, rfl, rfl, same.numGpuBlocks⟩, ?_, counts, rfl, rfl⟩, same⟩
  · rw [counts]
    exact valid
  · exact blocksOf_setBlocks { s with blockPool := pool } id _

/-- The number of blocks `allocate_slots` gets when it needs `numNewBlocks`. -/
def numBlocksToGet (s : KVCacheManager) (id : RequestId) (numNewBlocks : ℤ) : ℤ :=
  min (min (numNewBlocks + s.numPreallocateBlocks) s.blockPool.getNumFreeBlocks)
    ((s.maxNumBlocksPerReq : ℤ) - (s.blocksOf id).length)

theorem getBlocks_ok {needed : ℤ} (sound : s.Sound) (call : getBlocks id needed s = .ok blocks t) :
    t.Sound ∧ Grew id blocks s t ∧ Took s.held blocks s.blockPool t.blockPool ∧
      (needed ≤ 0 → blocks = []) ∧
      (0 < needed → 0 < s.numBlocksToGet id needed ∧ blocks.length = s.numBlocksToGet id needed) := by
  unfold getBlocks at call
  split at call
  · rename_i none
    cases call
    refine ⟨sound, ⟨SameConfig.refl _, ?_, ?_, rfl, rfl⟩, ⟨?_, List.nodup_nil, by simp, rfl, rfl, by simp⟩,
      fun _ => rfl, fun some => by omega⟩
    · simp
    · rw [more_nil]
    · rw [more_nil]
      exact sound.pool
  · rename_i some
    rw [get_bind] at call
    obtain ⟨_, v, checked, call⟩ := bind_ok call
    obtain ⟨positive, rfl⟩ := check_ok checked
    obtain ⟨got, v, got_ok, last⟩ := bind_ok call
    cases last
    obtain ⟨pool, inner, rfl⟩ := zoom_ok got_ok
    obtain ⟨took, length⟩ := getNewBlocks_ok sound.pool inner
    have counts := held_extend { s with blockPool := pool } id blocks
    refine ⟨⟨?_, took.enableCaching.trans sound.caching⟩,
      ⟨⟨rfl, rfl, rfl, rfl, took.numGpuBlocks⟩, ?_, counts, rfl, rfl⟩, took, fun none => by omega,
      fun _ => ⟨positive, ?_⟩⟩
    · rw [counts]
      exact took.valid
    · exact blocksOf_setBlocks { s with blockPool := pool } id _
    · rw [length]
      exact Int.toNat_of_nonneg positive.le

end KVCacheManager

/-! ### The end of `allocate_slots` -/

namespace KVCacheManager

variable [TupleHash] {s t : KVCacheManager} {id : RequestId} {request : Request} {n : ℕ} {u : Unit}
  {blocks hits : List BlockId} {b : BlockId}

structure Cached (request : Request) (full : ℤ) (s t : KVCacheManager) : Prop where
  config : SameConfig s t
  reqToBlocks : t.reqToBlocks = s.reqToBlocks
  pool : Hashed (s.blocksOf request.requestId) s.blockPool t.blockPool
  hashes : s.hashesOf request.requestId <+: t.hashesOf request.requestId
  otherHashes : ∀ id ≠ request.requestId, t.hashesOf id = s.hashesOf id
  numCachedBlock : t.numCachedBlock =
    if s.enableCaching then s.numCachedBlock.insert request.requestId full else s.numCachedBlock

theorem cacheIfCaching_ok (sound : s.Sound) (call : cacheIfCaching request n hits s = .ok u t) :
    t.Sound ∧ Cached request (s.numFullBlocks request n hits) s t := by
  unfold cacheIfCaching at call
  rw [get_bind] at call
  split at call
  · rename_i caching
    unfold cacheBlocks at call
    rw [get_bind] at call
    dsimp only at call
    obtain ⟨hashes, v, hashedBlocks, last⟩ := bind_ok call
    cases last
    obtain ⟨pool, inner, rfl⟩ := zoom_ok hashedBlocks
    obtain ⟨slice, longer⟩ := cacheFullBlocks_hashed sound.pool.indexed
      (sound.caching.trans caching) (fun b member => sound.inside member) inner
    have hashed := slice.mono fun b member => mem_of_mem_slice member
    have known := hashesOf_setHashes { s with blockPool := pool } request.requestId hashes
    refine ⟨⟨?_, hashed.queue.enableCaching.trans sound.caching⟩, ⟨⟨rfl, rfl, rfl, rfl,
      hashed.queue.numGpuBlocks⟩, rfl, hashed, ?_, ?_, ?_⟩⟩
    · exact sound.pool.reindex hashed.queue hashed.indexed
    · have mine := congrFun known request.requestId
      rw [Function.update_self] at mine
      rw [← mine] at longer
      exact longer
    · intro id different
      have other := congrFun known id
      rw [Function.update_of_ne different] at other
      exact other
    · rw [if_pos caching]
  · rename_i off
    cases call
    exact ⟨sound, SameConfig.refl _, rfl, Hashed.refl sound.pool.indexed _, List.prefix_refl _,
      fun _ _ => rfl, by rw [if_neg off]⟩

/-! ### `allocate_slots` -/

structure Allocated (request : Request) (n : ℕ) (hits blocks : List BlockId) (s t : KVCacheManager) :
    Prop where
  sound : t.Sound
  config : SameConfig s t
  blocksOf : t.blocksOf =
    Function.update s.blocksOf request.requestId (s.blocksOf request.requestId ++ hits ++ blocks)
  held : t.held = more s.held (hits ++ blocks)
  nodup : blocks.Nodup
  wereFree : ∀ b ∈ blocks, s.held b = 0 ∧ b ∉ hits
  kept : ∀ b, b ∉ blocks → s.blockPool.hashOf b ≠ none → t.blockPool.hashOf b = s.blockPool.hashOf b
  others : ∀ b, b ∉ s.blocksOf request.requestId ++ hits ++ blocks →
    t.blockPool.hashOf b = s.blockPool.hashOf b
  hashes : s.hashesOf request.requestId <+: t.hashesOf request.requestId
  otherHashes : ∀ id ≠ request.requestId, t.hashesOf id = s.hashesOf id
  numCachedBlock : t.numCachedBlock = if s.enableCaching then
    s.numCachedBlock.insert request.requestId (s.numFullBlocks request n hits) else s.numCachedBlock

omit [TupleHash] in
theorem numFullBlocks_config (same : SameConfig s t) : t.numFullBlocks = s.numFullBlocks := by
  unfold numFullBlocks
  rw [same.blockSize]

omit [TupleHash] in
theorem held_of_reqToBlocks (same : t.reqToBlocks = s.reqToBlocks) : t.held = s.held := by
  unfold held
  rw [same]

omit [TupleHash] in
theorem blocksOf_of_reqToBlocks (same : t.reqToBlocks = s.reqToBlocks) : t.blocksOf = s.blocksOf := by
  unfold blocksOf
  rw [same]

theorem allocateSlots_none (call : allocateSlots request n hits s = .ok none t) :
    0 < n ∧ s.lacksBlocks request n hits ∧ t = s := by
  unfold allocateSlots at call
  rw [get_bind] at call
  split at call
  · cases call
  · rename_i some
    split at call
    · rename_i lacks
      cases call
      exact ⟨Nat.pos_of_ne_zero some, lacks, rfl⟩
    · obtain ⟨_, v, -, call⟩ := bind_ok call
      obtain ⟨_, v, -, call⟩ := bind_ok call
      obtain ⟨_, v, -, call⟩ := bind_ok call
      cases call

theorem allocateSlots_stages (call : allocateSlots request n hits s = .ok (some blocks) t) :
    0 < n ∧ ¬s.lacksBlocks request n hits ∧ ∃ v w,
      takeComputedBlocks request.requestId hits s = .ok () v ∧
      getBlocks request.requestId (s.numNewBlocks request n hits) v = .ok blocks w ∧
      cacheIfCaching request n hits w = .ok () t := by
  unfold allocateSlots at call
  rw [get_bind] at call
  split at call
  · cases call
  · rename_i some
    split at call
    · cases call
    · rename_i suffices_
      obtain ⟨_, v, taken, call⟩ := bind_ok call
      obtain ⟨_, w, got, call⟩ := bind_ok call
      obtain ⟨_, x, cached, call⟩ := bind_ok call
      cases call
      exact ⟨Nat.pos_of_ne_zero some, suffices_, v, w, taken, got, cached⟩

theorem allocateSlots_ok (sound : s.Sound) (known : ∀ b ∈ hits, b < s.blockPool.numGpuBlocks)
    (call : allocateSlots request n hits s = .ok (some blocks) t) :
    Allocated request n hits blocks s t := by
  obtain ⟨-, -, v, w, taken, got, cached⟩ := allocateSlots_stages call
  obtain ⟨soundV, grewV, cacheV⟩ := takeComputedBlocks_ok sound known taken
  obtain ⟨soundW, grewW, took, -, -⟩ := getBlocks_ok soundV got
  obtain ⟨soundT, cachedT⟩ := cacheIfCaching_ok soundW cached
  have config := grewV.config.trans grewW.config
  have blocksW : w.blocksOf = Function.update s.blocksOf request.requestId
      (s.blocksOf request.requestId ++ hits ++ blocks) := by
    rw [grewW.blocksOf, grewV.blocksOf, Function.update_self, Function.update_idem]
  refine ⟨soundT, config.trans cachedT.config, ?_, ?_, took.nodup, ?_, ?_, ?_, ?_, ?_, ?_⟩
  · rw [blocksOf_of_reqToBlocks cachedT.reqToBlocks, blocksW]
  · rw [held_of_reqToBlocks cachedT.reqToBlocks, grewW.held, grewV.held]
    funext b
    simp [more, List.count_append, Nat.add_assoc]
  · intro b member
    have free := (took.wereFree b member).1
    rw [grewV.held] at free
    unfold more at free
    constructor
    · omega
    · intro hit
      have positive := List.count_pos_iff.mpr hit
      omega
  · intro b outside some
    have hashW : w.blockPool.hashOf b = s.blockPool.hashOf b := by
      rw [took.hashOf, if_neg outside, cacheV.hashOf]
    rw [cachedT.pool.kept b (hashW ▸ some), hashW]
  · intro b outside
    have absent : b ∉ blocks := fun member => outside (List.mem_append_right _ member)
    rw [cachedT.pool.others b, took.hashOf, if_neg absent, cacheV.hashOf]
    rw [blocksW, Function.update_self]
    exact outside
  · have before : s.hashesOf request.requestId = w.hashesOf request.requestId := by
      unfold hashesOf
      rw [grewW.reqToBlockHashes, grewV.reqToBlockHashes]
    rw [before]
    exact cachedT.hashes
  · intro id different
    rw [cachedT.otherHashes id different]
    unfold hashesOf
    rw [grewW.reqToBlockHashes, grewV.reqToBlockHashes]
  · rw [cachedT.numCachedBlock, config.enableCaching, numFullBlocks_config config,
      grewW.numCachedBlock, grewV.numCachedBlock]

/-! ### `free` and `reset_prefix_cache` -/

structure Freed (id : RequestId) (s t : KVCacheManager) : Prop where
  sound : t.Sound
  config : SameConfig s t
  blocksOf : t.blocksOf = Function.update s.blocksOf id []
  held : s.held = more t.held (s.blocksOf id)
  hashOf : t.blockPool.hashOf = s.blockPool.hashOf
  reqToBlockHashes : t.reqToBlockHashes = s.reqToBlockHashes
  numCachedBlock : t.numCachedBlock = s.numCachedBlock.erase id

omit [TupleHash] in
theorem held_erase (s : KVCacheManager) (id : RequestId) :
    s.held = more (fun b => (s.reqToBlocks.erase id).sum (List.count b)) (s.blocksOf id) := by
  funext b
  unfold held more blocksOf
  cases found : s.reqToBlocks.get? id with
  | none => simp [Dict.erase_of_none found]
  | some old => exact (Dict.sum_erase_of_some (f := List.count b) found).symm

omit [TupleHash] in
theorem free_ok (sound : s.Sound) (call : free request s = .ok u t) : Freed request.requestId s t := by
  unfold free at call
  rw [get_bind, set_bind] at call
  obtain ⟨_, v, freed, last⟩ := bind_ok call
  cases last
  obtain ⟨pool, inner, rfl⟩ := zoom_ok freed
  have valid := sound.pool
  rw [held_erase s request.requestId] at valid
  have order : more (fun b => (s.reqToBlocks.erase request.requestId).sum (List.count b))
      (s.blocksOf request.requestId) =
      more (fun b => (s.reqToBlocks.erase request.requestId).sum (List.count b))
        (if s.enableCaching then (s.blocksOf request.requestId).reverse
          else s.blocksOf request.requestId) := by
    split
    · funext b
      simp [more]
    · rfl
  rw [order] at valid
  obtain ⟨validT, same⟩ := freeBlocks_ok valid inner
  refine ⟨⟨validT, same.enableCaching.trans sound.caching⟩, ⟨rfl, rfl, rfl, rfl, same.numGpuBlocks⟩, ?_,
    held_erase s request.requestId, same.hashOf, rfl, rfl⟩
  funext id
  unfold blocksOf
  dsimp only
  rw [Dict.get?_erase]
  by_cases same : id = request.requestId
  · subst same; simp
  · simp [same]

omit [TupleHash] in
theorem freeBlockHashes_ok (call : freeBlockHashes request s = .ok u t) :
    t = { s with reqToBlockHashes := t.reqToBlockHashes } ∧
      t.hashesOf = Function.update s.hashesOf request.requestId [] := by
  cases call
  refine ⟨rfl, funext fun id => ?_⟩
  unfold hashesOf
  dsimp only
  rw [Dict.get?_erase]
  by_cases same : id = request.requestId
  · subst same; simp
  · simp [same]

structure WasReset (done : Bool) (s t : KVCacheManager) : Prop where
  sound : t.Sound
  config : SameConfig s t
  reqToBlocks : t.reqToBlocks = s.reqToBlocks
  reqToBlockHashes : t.reqToBlockHashes = s.reqToBlockHashes
  numCachedBlock : t.numCachedBlock = s.numCachedBlock
  kept : done = false → t = s
  dropped : done = true → (∀ b, s.held b = 0) ∧ ∀ b, t.blockPool.hashOf b = none

omit [TupleHash] in
theorem resetPrefixCache_ok {done : Bool} (sound : s.Sound) (call : resetPrefixCache s = .ok done t) :
    WasReset done s t := by
  unfold resetPrefixCache at call
  obtain ⟨pool, inner, rfl⟩ := zoom_ok call
  obtain ⟨valid, kept, dropped, num, caching⟩ := BlockPool.resetPrefixCache_ok sound.pool inner
  refine ⟨⟨valid, caching.trans sound.caching⟩, ⟨rfl, rfl, rfl, rfl, num⟩, rfl, rfl, rfl, ?_, dropped⟩
  intro none
  rw [kept none]

omit [TupleHash] in
theorem init_sound {numGpuBlocks : ℕ} (some : 0 < numGpuBlocks) (blockSize maxModelLen : ℕ)
    (enableCaching : Bool) (numPreallocateTokens : ℕ) :
    (init blockSize numGpuBlocks maxModelLen enableCaching numPreallocateTokens).Sound :=
  ⟨BlockPool.init_valid enableCaching some, rfl⟩

end KVCacheManager
end Vllm.V1
