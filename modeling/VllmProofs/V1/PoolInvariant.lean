import VllmProofs.V1.BlockPool

/-!
What every method of the block pool keeps: a block is free exactly when nobody holds it, and it is
entered under its hash and under no other.
-/

namespace Vllm.V1
open Exec

namespace BlockPool

def hashOf (s : BlockPool) (b : BlockId) : Option BlockHash := (s.block b).blockHash

/-- Whether a block is entered under a hash. -/
def entry (s : BlockPool) (blockHash : BlockHash) (b : BlockId) : Option Unit :=
  (s.cachedBlockHashToBlock.get? blockHash).bind fun ids => ids.get? b

structure Indexed (s : BlockPool) : Prop where
  hashed : ∀ b h, s.hashOf b = some h ↔ s.entry h b = some ()
  bucket : ∀ h ids, s.cachedBlockHashToBlock.get? h = some ids → 0 < ids.size
  hashedInside : ∀ b, s.hashOf b ≠ none → b < s.numGpuBlocks
  plain : s.enableCaching = false → ∀ b, s.hashOf b = none

/-- The pool when each block is held `held` times. -/
structure Valid (s : BlockPool) (held : BlockId → ℕ) : Prop where
  queue : ∃ free, s.freeBlockQueue.Represents free ∧ ∀ b, b ∈ free ↔ b < s.numGpuBlocks ∧ held b = 0
  refCnt : ∀ b, (s.block b).refCnt = held b
  inside : ∀ b, 0 < held b → b < s.numGpuBlocks
  indexed : s.Indexed

structure SameCache (s t : BlockPool) : Prop where
  numGpuBlocks : t.numGpuBlocks = s.numGpuBlocks
  enableCaching : t.enableCaching = s.enableCaching
  hashOf : t.hashOf = s.hashOf
  cached : t.cachedBlockHashToBlock = s.cachedBlockHashToBlock

theorem SameCache.refl (s : BlockPool) : SameCache s s := ⟨rfl, rfl, rfl, rfl⟩

theorem SameCache.trans {s t u : BlockPool} (first : SameCache s t) (second : SameCache t u) :
    SameCache s u :=
  ⟨second.1.trans first.1, second.2.trans first.2, second.3.trans first.3, second.4.trans first.4⟩

variable {s t : BlockPool} {held held' : BlockId → ℕ} {b : BlockId} {h : BlockHash}

theorem SameCache.entry (same : SameCache s t) : t.entry = s.entry := by
  funext h b
  unfold BlockPool.entry
  rw [same.cached]

theorem Indexed.same (indexed : s.Indexed) (same : SameCache s t) : t.Indexed := by
  constructor
  · rw [same.hashOf, same.entry]
    exact indexed.hashed
  · rw [same.cached]
    exact indexed.bucket
  · rw [same.hashOf, same.numGpuBlocks]
    exact indexed.hashedInside
  · rw [same.hashOf, same.enableCaching]
    exact indexed.plain

theorem Valid.recount (valid : s.Valid held) (same : SameCache s t)
    (queue : ∃ free, t.freeBlockQueue.Represents free ∧
      ∀ b, b ∈ free ↔ b < s.numGpuBlocks ∧ held' b = 0)
    (refCnt : ∀ b, (t.block b).refCnt = held' b) (inside : ∀ b, 0 < held' b → b < s.numGpuBlocks) :
    t.Valid held' := by
  refine ⟨?_, refCnt, ?_, valid.indexed.same same⟩
  · rw [same.numGpuBlocks]
    exact queue
  · rw [same.numGpuBlocks]
    exact inside

theorem Valid.count_free (valid : s.Valid held) (b : BlockId) :
    (s.freeBlockQueue.getAllFreeBlocks s.numGpuBlocks).count b = if b < s.numGpuBlocks ∧ held b = 0 then 1 else 0 := by
  obtain ⟨free, represents, mem⟩ := valid.queue
  have subset : free ⊆ List.range s.numGpuBlocks := fun d member => List.mem_range.mpr ((mem d).mp member).1
  have short := (List.subperm_of_subset represents.nodup subset).length_le
  rw [List.length_range] at short
  have listed := represents.getAllFreeBlocks short
  rw [listed, represents.nodup.count]
  simp only [mem]

@[simp] theorem block_updateBlock (s : BlockPool) (b : BlockId) (f : KVCacheBlock → KVCacheBlock)
    (c : BlockId) : (s.updateBlock b f).block c = if c = b then f (s.block b) else s.block c := by
  simp [block, updateBlock, FreeKVCacheBlockQueue.update, Function.update_apply]

variable {free : List BlockId}

theorem represents_update {q : FreeKVCacheBlockQueue} (b : BlockId)
    (f : KVCacheBlock → KVCacheBlock) (represents : q.Represents free)
    (links : ∀ block, (f block).prevFreeBlock = block.prevFreeBlock ∧
      (f block).nextFreeBlock = block.nextFreeBlock) : (q.update b f).Represents free := by
  have same : ∀ c, ((q.update b f).blocks c).prevFreeBlock = (q.blocks c).prevFreeBlock ∧
      ((q.update b f).blocks c).nextFreeBlock = (q.blocks c).nextFreeBlock := by
    intro c
    by_cases here : c = b
    · subst here
      simpa [FreeKVCacheBlockQueue.update] using links (q.blocks c)
    · simp [FreeKVCacheBlockQueue.update, Function.update_of_ne here]
  refine ⟨represents.head, represents.tail, represents.count, represents.nodup, ?_, ?_⟩
  · exact FreeKVCacheBlockQueue.linked_congr (fun c _ => same c) represents.linked
  · intro c outside
    rw [(same c).1]
    exact represents.detached c outside

theorem represents_count (b : BlockId) (f : ℤ → ℤ) (represents : s.freeBlockQueue.Represents free) :
    (s.updateBlock b fun block => { block with refCnt := f block.refCnt }).freeBlockQueue.Represents
      free := represents_update b (fun block => { block with refCnt := f block.refCnt }) represents
    fun _ => ⟨rfl, rfl⟩

theorem represents_rehash (b : BlockId) (hash : Option BlockHash)
    (represents : s.freeBlockQueue.Represents free) :
    (s.updateBlock b fun block => { block with blockHash := hash }).freeBlockQueue.Represents free :=
  represents_update b (fun block => { block with blockHash := hash }) represents fun _ => ⟨rfl, rfl⟩

theorem content_block {q : FreeKVCacheBlockQueue} (same : q.content = s.freeBlockQueue.content)
    (c : BlockId) : (q.blocks c).refCnt = (s.block c).refCnt ∧
      (q.blocks c).blockHash = (s.block c).blockHash := by
  have here := congrFun same c
  simp only [FreeKVCacheBlockQueue.content, Prod.mk.injEq] at here
  exact here

/-! ### Single blocks -/

variable {u : Unit}

theorem touchBlock_ok (valid : s.Valid held) (known : b < s.numGpuBlocks)
    (call : touchBlock b s = .ok u t) :
    t.Valid (Function.update held b (held b + 1)) ∧ SameCache s t := by
  obtain ⟨free, represents, mem⟩ := valid.queue
  unfold touchBlock at call
  rw [get_bind] at call
  have bounded : ∀ c, 0 < Function.update held b (held b + 1) c → c < s.numGpuBlocks := by
    intro c some
    by_cases same : c = b
    · subst same; exact known
    · rw [Function.update_of_ne same] at some
      exact valid.inside c some
  by_cases zero : (s.block b).refCnt = 0
  · simp only [zero, ↓reduceIte, set_apply] at call
    cases call
    have none : held b = 0 := by
      have count := valid.refCnt b
      omega
    obtain ⟨left, right, rfl⟩ := List.append_of_mem ((mem b).mpr ⟨known, none⟩)
    obtain ⟨removed, content⟩ := represents.remove
    have same : SameCache s
        (incrRef b { s with freeBlockQueue := s.freeBlockQueue.remove b }) := by
      refine ⟨rfl, rfl, ?_, rfl⟩
      funext c
      have kept := content_block content c
      by_cases here : c = b
      · subst here; simp [hashOf, incrRef]; exact kept.2
      · simp [hashOf, incrRef, here]; exact kept.2
    refine ⟨valid.recount same ⟨left ++ right, ?_, ?_⟩ ?_ bounded, same⟩
    · exact represents_update b (fun block => { block with refCnt := block.refCnt + 1 }) removed
        fun _ => ⟨rfl, rfl⟩
    · obtain ⟨notLeft, notRight, -⟩ := FreeKVCacheBlockQueue.nodup_middle represents.nodup
      intro c
      have old := mem c
      by_cases here : c = b
      · subst here
        simp [notLeft, notRight]
      · simp only [List.mem_append, List.mem_cons, here, false_or] at old
        rw [Function.update_of_ne here, List.mem_append]
        exact old
    · intro c
      have kept := content_block content c
      have count := valid.refCnt c
      by_cases here : c = b
      · subst here
        have now : ((s.freeBlockQueue.remove c).blocks c).refCnt = held c := kept.1.trans count
        simp [incrRef]
        exact now
      · have now : ((s.freeBlockQueue.remove b).blocks c).refCnt = held c := kept.1.trans count
        simp [incrRef, here]
        exact now
  · simp only [zero, ↓reduceIte] at call
    cases call
    have same : SameCache s (incrRef b s) := by
      refine ⟨rfl, rfl, ?_, rfl⟩
      funext c
      by_cases here : c = b
      · subst here; simp [hashOf, incrRef]
      · simp [hashOf, incrRef, here]
    refine ⟨valid.recount same ⟨free, ?_, ?_⟩ ?_ bounded, same⟩
    · exact represents_count b (· + 1) represents
    · intro c
      by_cases here : c = b
      · subst here
        have count := valid.refCnt c
        rw [mem c, Function.update_self]
        omega
      · rw [Function.update_of_ne here]
        exact mem c
    · intro c
      have count := valid.refCnt c
      by_cases here : c = b
      · subst here; simp [incrRef, count]
      · simp [incrRef, here, count]

theorem freeBlock_ok (valid : s.Valid held) (some : 0 < held b) (call : freeBlock b s = .ok u t) :
    t.Valid (Function.update held b (held b - 1)) ∧ SameCache s t := by
  obtain ⟨free, represents, mem⟩ := valid.queue
  have known := valid.inside b some
  have count : ∀ c, ((decrRef b s).block c).refCnt = Function.update held b (held b - 1) c := by
    intro c
    have before := valid.refCnt c
    by_cases here : c = b
    · subst here
      simp [decrRef, before]
      omega
    · simp [decrRef, here, before]
  have lower : SameCache s (decrRef b s) := by
    refine ⟨rfl, rfl, ?_, rfl⟩
    funext c
    by_cases here : c = b
    · subst here; simp [hashOf, decrRef]
    · simp [hashOf, decrRef, here]
  have bounded : ∀ c, 0 < Function.update held b (held b - 1) c → c < s.numGpuBlocks := by
    intro c more
    by_cases same : c = b
    · subst same; exact known
    · rw [Function.update_of_ne same] at more
      exact valid.inside c more
  have linked : (decrRef b s).freeBlockQueue.Represents free :=
    represents_count b (· - 1) represents
  unfold freeBlock at call
  rw [modify_bind, get_bind] at call
  have here := count b
  rw [Function.update_self] at here
  by_cases zero : ((decrRef b s).block b).refCnt = 0
  · simp only [zero, ↓reduceIte] at call
    have absent : b ∉ free := by
      rw [mem b]
      omega
    obtain ⟨q, appended, now, content⟩ := FreeKVCacheBlockQueue.append_ok linked absent
    obtain ⟨q', inner, rfl⟩ := zoom_ok call
    rw [appended] at inner
    cases inner
    have same : SameCache (decrRef b s) { decrRef b s with freeBlockQueue := q } := by
      refine ⟨rfl, rfl, ?_, rfl⟩
      funext c
      exact (content_block content c).2
    refine ⟨valid.recount (lower.trans same) ⟨free ++ [b], now, ?_⟩ ?_ bounded, lower.trans same⟩
    · intro c
      have old := mem c
      by_cases equal : c = b
      · subst equal
        have none : held c - 1 = 0 := by omega
        simp [known, none]
      · rw [Function.update_of_ne equal, List.mem_append, List.mem_singleton]
        simpa [equal] using old
    · intro c
      exact (content_block content c).1.trans (count c)
  · simp only [zero, ↓reduceIte] at call
    cases call
    refine ⟨valid.recount lower ⟨free, linked, ?_⟩ count bounded, lower⟩
    intro c
    by_cases equal : c = b
    · subst equal
      rw [mem c, Function.update_self]
      omega
    · rw [Function.update_of_ne equal]
      exact mem c

/-! ### Hashes of single blocks -/

structure SameQueue (s t : BlockPool) : Prop where
  numGpuBlocks : t.numGpuBlocks = s.numGpuBlocks
  enableCaching : t.enableCaching = s.enableCaching
  represents : ∀ free, s.freeBlockQueue.Represents free → t.freeBlockQueue.Represents free
  refCnt : ∀ c, (t.block c).refCnt = (s.block c).refCnt

theorem SameQueue.refl (s : BlockPool) : SameQueue s s := ⟨rfl, rfl, fun _ => id, fun _ => rfl⟩

theorem SameQueue.trans {s t u : BlockPool} (first : SameQueue s t) (second : SameQueue t u) :
    SameQueue s u :=
  ⟨second.1.trans first.1, second.2.trans first.2, fun free rep => second.3 free (first.3 free rep),
    fun c => (second.4 c).trans (first.4 c)⟩

theorem Valid.reindex (valid : s.Valid held) (same : SameQueue s t) (indexed : t.Indexed) :
    t.Valid held := by
  obtain ⟨free, represents, mem⟩ := valid.queue
  refine ⟨⟨free, same.represents free represents, ?_⟩, ?_, ?_, indexed⟩
  · rw [same.numGpuBlocks]
    exact mem
  · intro c
    rw [same.refCnt]
    exact valid.refCnt c
  · rw [same.numGpuBlocks]
    exact valid.inside

theorem sameQueue_rehash (s : BlockPool) (b : BlockId) (hash : Option BlockHash)
    (cached : Dict BlockHash (Dict BlockId Unit)) :
    SameQueue s { s.updateBlock b fun block => { block with blockHash := hash } with
      cachedBlockHashToBlock := cached } := by
  refine ⟨rfl, rfl, fun free represents => ?_, fun c => ?_⟩
  · exact represents_rehash b hash represents
  · show ((s.updateBlock b fun block => { block with blockHash := hash }).block c).refCnt = _
    by_cases here : c = b
    · subst here; simp
    · simp [here]

theorem hashOf_rehash (s : BlockPool) (b : BlockId) (hash : Option BlockHash) :
    (s.updateBlock b fun block => { block with blockHash := hash }).hashOf =
      Function.update s.hashOf b hash := by
  funext c
  by_cases here : c = b
  · subst here; simp [hashOf]
  · simp [hashOf, here]

theorem entry_enter (s : BlockPool) (h k : BlockHash) (b c : BlockId) :
    (enter h b s).entry k c = if k = h ∧ c = b then some () else s.entry k c := by
  unfold entry enter
  dsimp only
  rw [Dict.get?_insert]
  by_cases sameHash : k = h
  · subst sameHash
    rw [if_pos rfl]
    show (((s.cachedBlockHashToBlock.get? k).getD ∅).insert b ()).get? c = _
    rw [Dict.get?_insert]
    by_cases sameBlock : c = b
    · simp [sameBlock]
    · simp only [sameBlock, and_false, ↓reduceIte]
      cases s.cachedBlockHashToBlock.get? k <;> simp
  · simp [sameHash]

/-- A block with no hash is entered under one. -/
theorem Indexed.enter (indexed : s.Indexed) (known : b < s.numGpuBlocks)
    (caching : s.enableCaching = true) (fresh : s.hashOf b = none) :
    (s.enter h b).Indexed ∧ (s.enter h b).hashOf = Function.update s.hashOf b (some h) ∧
      SameQueue s (s.enter h b) := by
  have hashes : (s.enter h b).hashOf = Function.update s.hashOf b (some h) := hashOf_rehash s b (some h)
  refine ⟨⟨?_, ?_, ?_, ?_⟩, hashes, sameQueue_rehash s b _ _⟩
  · intro c k
    rw [hashes, entry_enter]
    by_cases here : c = b
    · subst here
      have none := indexed.hashed c k
      rw [fresh] at none
      rw [Function.update_self]
      by_cases same : k = h
      · simp [same]
      · have absent : s.entry k c ≠ some () := fun found => by simpa using none.mpr found
        simp [same, absent, Ne.symm same]
    · rw [Function.update_of_ne here]
      simpa [here] using indexed.hashed c k
  · intro k ids found
    unfold BlockPool.enter at found
    dsimp only at found
    rw [Dict.get?_insert] at found
    split at found
    · cases found
      exact Dict.size_pos_of_get? (Dict.get?_insert_self _ b ())
    · exact indexed.bucket k ids found
  · intro c some
    rw [hashes] at some
    by_cases here : c = b
    · subst here; exact known
    · rw [Function.update_of_ne here] at some
      exact indexed.hashedInside c some
  · intro off
    have on : (s.enter h b).enableCaching = s.enableCaching := rfl
    rw [on, caching] at off
    cases off

theorem lookup_dropped {cached : Dict BlockHash (Dict BlockId Unit)} {ids : Dict BlockId Unit}
    (found : cached.get? h = some ids) (k : BlockHash) (c : BlockId) :
    ((if (ids.erase b).size = 0 then cached.erase h else cached.insert h (ids.erase b)).get? k).bind
        (fun ids => ids.get? c) =
      if k = h ∧ c = b then none else (cached.get? k).bind fun ids => ids.get? c := by
  by_cases same : k = h
  · subst same
    have erased := Dict.get?_erase ids b c
    split
    · rename_i empty
      have none := Dict.size_eq_zero_iff.mp empty c
      rw [erased] at none
      rw [Dict.get?_erase_self, found]
      by_cases here : c = b
      · simp [here]
      · simpa [here] using none.symm
    · rw [Dict.get?_insert_self, found]
      simp [erased]
  · split
    · rw [Dict.get?_erase_ne same]
      simp [same]
    · rw [Dict.get?_insert_ne same]
      simp [same]

theorem maybeEvictCachedBlock_ok {evicted : Bool} (indexed : s.Indexed)
    (call : maybeEvictCachedBlock b s = .ok evicted t) :
    t.Indexed ∧ t.hashOf = Function.update s.hashOf b none ∧ SameQueue s t := by
  unfold maybeEvictCachedBlock at call
  rw [get_bind] at call
  cases hash : (s.block b).blockHash with
  | none =>
    simp only [hash] at call
    cases call
    refine ⟨indexed, ?_, SameQueue.refl s⟩
    rw [← show s.hashOf b = none from hash, Function.update_eq_self]
  | some k =>
    obtain ⟨ids, found, mine⟩ := Option.bind_eq_some_iff.mp ((indexed.hashed b k).mp hash)
    simp only [hash, found, mine, getItem, bind_apply, pure_apply, modify_apply] at call
    cases call
    have hashes := hashOf_rehash s b none
    refine ⟨⟨?_, ?_, ?_, ?_⟩, hashes, sameQueue_rehash s b none _⟩
    · intro c k'
      have looked := lookup_dropped (b := b) found k' c
      show (s.updateBlock b fun block => { block with blockHash := none }).hashOf c = some k' ↔ _
      rw [hashes]
      refine Iff.trans ?_ (Eq.congr looked.symm rfl)
      by_cases here : c = b
      · subst here
        rw [Function.update_self]
        by_cases same : k' = k
        · simp [same]
        · have absent : s.entry k' c ≠ some () := by
            intro present
            have equal := (indexed.hashed c k').mpr present
            rw [show s.hashOf c = some k from hash, Option.some.injEq] at equal
            exact same equal.symm
          have missing : (s.cachedBlockHashToBlock.get? k').bind (fun ids => ids.get? c) ≠ some () :=
            absent
          simp [same, missing]
      · rw [Function.update_of_ne here]
        have old := indexed.hashed c k'
        simp only [here, and_false, ↓reduceIte]
        exact old
    · intro k' ids' found'
      dsimp only at found'
      split at found'
      · rw [Dict.get?_erase] at found'
        split at found'
        · cases found'
        · exact indexed.bucket k' ids' found'
      · rename_i some
        rw [Dict.get?_insert] at found'
        split at found'
        · cases found'
          omega
        · exact indexed.bucket k' ids' found'
    · intro c some
      have now : Function.update s.hashOf b none c ≠ none := hashes ▸ some
      by_cases here : c = b
      · subst here; simp at now
      · rw [Function.update_of_ne here] at now
        exact indexed.hashedInside c now
    · intro off c
      show (s.updateBlock b fun block => { block with blockHash := none }).hashOf c = none
      rw [hashes]
      by_cases here : c = b
      · subst here; simp
      · rw [Function.update_of_ne here]
        exact indexed.plain off c

theorem evictIfCaching_ok (indexed : s.Indexed) (call : evictIfCaching b s = .ok u t) :
    t.Indexed ∧ t.hashOf = Function.update s.hashOf b none ∧ SameQueue s t := by
  unfold evictIfCaching at call
  rw [get_bind] at call
  split at call
  · obtain ⟨evicted, v, first, last⟩ := bind_ok call
    cases last
    exact maybeEvictCachedBlock_ok indexed first
  · rename_i off
    cases call
    have none := indexed.plain (by simpa using off) b
    refine ⟨indexed, ?_, SameQueue.refl s⟩
    rw [← none, Function.update_eq_self]

/-- A free block loses its hash and gets its first holder. -/
theorem getNewBlock_ok (valid : s.Valid held) (call : getNewBlock s = .ok b t) :
    held b = 0 ∧ b < s.numGpuBlocks ∧ t.Valid (Function.update held b 1) ∧
      t.hashOf = Function.update s.hashOf b none ∧
      t.numGpuBlocks = s.numGpuBlocks ∧ t.enableCaching = s.enableCaching := by
  unfold getNewBlock at call
  obtain ⟨c, u, popped, call⟩ := bind_ok call
  obtain ⟨q, inner, rfl⟩ := zoom_ok popped
  obtain ⟨free, represents, mem⟩ := valid.queue
  obtain ⟨rest, rfl, represents', content⟩ := FreeKVCacheBlockQueue.popleft_ok represents inner
  obtain ⟨known, none⟩ := (mem c).mp List.mem_cons_self
  have nodup := List.nodup_cons.mp represents.nodup
  rw [get_bind] at call
  obtain ⟨_, u, checked, call⟩ := bind_ok call
  obtain ⟨-, rfl⟩ := check_ok checked
  have sameContent := content_block content
  have popSame : SameCache s { s with freeBlockQueue := q } := by
    refine ⟨rfl, rfl, ?_, rfl⟩
    funext d
    exact (sameContent d).2
  obtain ⟨_, u, evicted, call⟩ := bind_ok call
  obtain ⟨indexed, hashes, same⟩ := evictIfCaching_ok (valid.indexed.same popSame) evicted
  rw [modify_bind] at call
  cases call
  have incremented : SameCache u (incrRef b u) := by
    refine ⟨rfl, rfl, ?_, rfl⟩
    funext d
    by_cases here : d = b
    · subst here; simp [hashOf, incrRef]
    · simp [hashOf, incrRef, here]
  have numGpuBlocks : u.numGpuBlocks = s.numGpuBlocks := same.numGpuBlocks
  refine ⟨none, known, ⟨⟨rest, ?_, ?_⟩, ?_, ?_, indexed.same incremented⟩, ?_, numGpuBlocks,
    same.enableCaching⟩
  · exact represents_count b (· + 1) (same.represents rest represents')
  · intro d
    have old := mem d
    show d ∈ rest ↔ d < u.numGpuBlocks ∧ _
    rw [numGpuBlocks]
    by_cases here : d = b
    · subst here
      simp [nodup.1]
    · rw [Function.update_of_ne here, ← old, List.mem_cons]
      simp [here]
  · intro d
    have before : (u.block d).refCnt = held d :=
      ((same.refCnt d).trans (sameContent d).1).trans (valid.refCnt d)
    by_cases here : d = b
    · subst here
      simp [incrRef, before, none]
    · simp [incrRef, here, before]
  · intro d some
    show d < u.numGpuBlocks
    rw [numGpuBlocks]
    by_cases here : d = b
    · subst here; exact known
    · rw [Function.update_of_ne here] at some
      exact valid.inside d some
  · rw [incremented.hashOf, hashes, popSame.hashOf]

/-! ### Lists of blocks -/

/-- The counts after each block of a list has got one more holder. -/
def more (held : BlockId → ℕ) (blocks : List BlockId) (b : BlockId) : ℕ := held b + blocks.count b

theorem more_nil (held : BlockId → ℕ) : more held [] = held := by
  funext b
  simp [more]

theorem more_cons (held : BlockId → ℕ) (b : BlockId) (rest : List BlockId) :
    more held (b :: rest) = more (Function.update held b (held b + 1)) rest := by
  funext c
  unfold more
  by_cases here : c = b
  · subst here
    rw [List.count_cons_self, Function.update_self]
    omega
  · rw [List.count_cons_of_ne (Ne.symm here), Function.update_of_ne here]

variable {blocks : List BlockId}

theorem touch_ok (valid : s.Valid held)
    (known : ∀ b ∈ blocks, b < s.numGpuBlocks) (call : touch blocks s = .ok u t) :
    t.Valid (more held blocks) ∧ SameCache s t := by
  induction blocks generalizing s held with
  | nil =>
    cases call
    rw [more_nil]
    exact ⟨valid, SameCache.refl _⟩
  | cons b rest ih =>
    obtain ⟨_, v, first, others⟩ := bind_ok call
    obtain ⟨validV, sameV⟩ := touchBlock_ok valid (known b List.mem_cons_self) first
    have knownRest : ∀ c ∈ rest, c < v.numGpuBlocks := by
      intro c member
      rw [sameV.numGpuBlocks]
      exact known c (List.mem_cons_of_mem b member)
    obtain ⟨validT, sameT⟩ := ih validV knownRest others
    rw [more_cons]
    exact ⟨validT, sameV.trans sameT⟩

theorem freeBlocks_ok (valid : s.Valid (more held blocks))
    (call : freeBlocks blocks s = .ok u t) : t.Valid held ∧ SameCache s t := by
  induction blocks generalizing s held with
  | nil =>
    cases call
    rw [more_nil] at valid
    exact ⟨valid, SameCache.refl _⟩
  | cons b rest ih =>
    obtain ⟨_, v, first, others⟩ := bind_ok call
    have positive : 0 < more held (b :: rest) b := by simp [more]
    obtain ⟨validV, sameV⟩ := freeBlock_ok valid positive first
    have less : Function.update (more held (b :: rest)) b (more held (b :: rest) b - 1) =
        more held rest := by
      funext c
      by_cases here : c = b
      · subst here
        simp [more]
      · simp [more, Function.update_of_ne here, List.count_cons_of_ne (Ne.symm here)]
    rw [less] at validV
    obtain ⟨validT, sameT⟩ := ih validV others
    exact ⟨validT, sameV.trans sameT⟩

structure Took (held : BlockId → ℕ) (blocks : List BlockId) (s t : BlockPool) : Prop where
  valid : t.Valid (more held blocks)
  nodup : blocks.Nodup
  wereFree : ∀ b ∈ blocks, held b = 0 ∧ b < s.numGpuBlocks
  numGpuBlocks : t.numGpuBlocks = s.numGpuBlocks
  enableCaching : t.enableCaching = s.enableCaching
  hashOf : ∀ b, t.hashOf b = if b ∈ blocks then none else s.hashOf b

theorem getEach_ok {n : ℕ} (valid : s.Valid held)
    (call : getEach n s = .ok blocks t) : Took held blocks s t ∧ blocks.length = n := by
  induction n generalizing s held blocks with
  | zero =>
    cases call
    refine ⟨⟨?_, List.nodup_nil, by simp, rfl, rfl, by simp⟩, rfl⟩
    rw [more_nil]
    exact valid
  | succ n ih =>
    obtain ⟨b, v, first, call⟩ := bind_ok call
    obtain ⟨rest, w, others, last⟩ := bind_ok call
    cases last
    obtain ⟨zero, known, validV, hashV, numV, cachingV⟩ := getNewBlock_ok valid first
    obtain ⟨took, length⟩ := ih validV others
    have one : Function.update held b 1 = Function.update held b (held b + 1) := by rw [zero]
    have absent : b ∉ rest := by
      intro member
      have none := (took.wereFree b member).1
      rw [Function.update_self] at none
      omega
    refine ⟨⟨?_, List.nodup_cons.mpr ⟨absent, took.nodup⟩, ?_, took.numGpuBlocks.trans numV,
      took.enableCaching.trans cachingV, ?_⟩, by simp [length]⟩
    · rw [more_cons, ← one]
      exact took.valid
    · intro c member
      rcases List.mem_cons.mp member with rfl | later
      · exact ⟨zero, known⟩
      · have free := took.wereFree c later
        have different : c ≠ b := fun same => absent (same ▸ later)
        rw [Function.update_of_ne different, numV] at free
        exact free
    · intro c
      rw [took.hashOf, hashV]
      by_cases here : c = b
      · subst here
        simp
      · simp [here]

theorem getNewBlocks_ok {n : ℤ} (valid : s.Valid held)
    (call : getNewBlocks n s = .ok blocks t) : Took held blocks s t ∧ blocks.length = n.toNat := by
  unfold getNewBlocks at call
  rw [get_bind] at call
  split at call
  · cases call
  · exact getEach_ok valid call

theorem resetPrefixCache_ok {done : Bool} (valid : s.Valid held)
    (call : resetPrefixCache s = .ok done t) :
    t.Valid held ∧ (done = false → t = s) ∧
      (done = true → (∀ b, held b = 0) ∧ ∀ b, t.hashOf b = none) ∧
      t.numGpuBlocks = s.numGpuBlocks ∧ t.enableCaching = s.enableCaching := by
  unfold resetPrefixCache at call
  rw [get_bind] at call
  split at call
  · cases call
    exact ⟨valid, fun _ => rfl, nofun, rfl, rfl⟩
  · rename_i allFree
    rw [set_bind] at call
    cases call
    obtain ⟨free, represents, mem⟩ := valid.queue
    have unheld : ∀ b, held b = 0 := by
      intro b
      by_contra some
      have known : 0 < s.numGpuBlocks :=
        Nat.zero_lt_of_lt (valid.inside b (Nat.pos_of_ne_zero some))
      have mine := valid.inside b (Nat.pos_of_ne_zero some)
      -- all blocks are in the queue, so `b` is
      have subset : free ⊆ (List.range s.numGpuBlocks).erase b := by
        intro c member
        obtain ⟨inside, none⟩ := (mem c).mp member
        have different : c ≠ b := by
          rintro rfl
          exact some none
        exact (List.mem_erase_of_ne different).mpr (List.mem_range.mpr inside)
      have length := (List.subperm_of_subset represents.nodup subset).length_le
      rw [List.length_erase_of_mem (List.mem_range.mpr mine), List.length_range] at length
      have count : s.getNumFreeBlocks = free.length := represents.count
      omega
    have hashes : ∀ b, (if b < s.numGpuBlocks then { s.block b with blockHash := none }
        else s.block b).blockHash = none := by
      intro b
      split
      · rfl
      · rename_i outside
        by_contra some
        exact outside (valid.indexed.hashedInside b some)
    refine ⟨⟨⟨free, ?_, mem⟩, ?_, valid.inside, ?_⟩, nofun, fun _ => ⟨unheld, hashes⟩, rfl, rfl⟩
    · refine ⟨represents.head, represents.tail, represents.count, represents.nodup, ?_, ?_⟩
      · refine FreeKVCacheBlockQueue.linked_congr (fun b _ => ?_) represents.linked
        dsimp only
        split
        · exact ⟨rfl, rfl⟩
        · exact ⟨rfl, rfl⟩
      · intro b outside
        have detached := represents.detached b outside
        dsimp only
        split
        · exact detached
        · exact detached
    · intro b
      have count := valid.refCnt b
      unfold block
      dsimp only
      split
      · exact count
      · exact count
    · refine ⟨fun b h => ?_, nofun, fun b hashed => (hashed (hashes b)).elim, fun _ => hashes⟩
      refine iff_of_false (fun hashed => ?_) nofun
      have absent := (hashes b).symm.trans hashed
      cases absent

theorem init_valid {n : ℕ} (enableCaching : Bool) (some : 0 < n) :
    (init n enableCaching).Valid fun _ => 0 := by
  have unhashed : ∀ b, (init n enableCaching).hashOf b = none := fun _ => rfl
  refine ⟨⟨List.range n, FreeKVCacheBlockQueue.init_represents some, ?_⟩, fun _ => rfl, nofun, ?_⟩
  · intro b
    simp [init]
  · refine ⟨?_, nofun, fun b hashed => (hashed (unhashed b)).elim, fun _ => unhashed⟩
    intro b h
    exact iff_of_false nofun nofun

/-! ### Looking hashes up -/

theorem getCachedBlock_ok {found : Option BlockId} (indexed : s.Indexed)
    (call : getCachedBlock h s = .ok found t) :
    t = s ∧ (∀ b, found = some b → s.hashOf b = some h) ∧
      (found = none → ∀ b, s.hashOf b ≠ some h) := by
  unfold getCachedBlock at call
  rw [get_bind] at call
  cases bucket : s.cachedBlockHashToBlock.get? h with
  | none =>
    simp only [bucket] at call
    cases call
    refine ⟨rfl, nofun, fun _ b some => ?_⟩
    have entered := (indexed.hashed b h).mp some
    simp [entry, bucket] at entered
  | some ids =>
    simp only [bucket] at call
    obtain ⟨b, u, first, last⟩ := bind_ok call
    obtain ⟨head, rfl⟩ := getItem_ok first
    cases last
    refine ⟨rfl, ?_, nofun⟩
    rintro c ⟨⟩
    rw [indexed.hashed]
    obtain ⟨_, mine⟩ := Dict.mem_keys_iff.mp (List.mem_of_mem_head? head)
    simp [entry, bucket, mine]

end BlockPool
end Vllm.V1
