import VllmProofs.Block.PrefixCaching

/-!
The calls a run of `PrefixCachingBlockAllocator` is made of, and what every call keeps however it
ends: reference counts and trackers stay those of the allocator's own ids, and a content hash
never names another id.
-/

namespace Vllm
open Exec Heaped Evictor

/-- A method call, with the block objects it is about. -/
inductive Call where
  | allocateMutableBlock (prevBlock : Option BlockRef) (extraHash : Option ℤ)
  | allocateImmutableBlock (prevBlock : Option BlockRef) (tokenIds : List TokenId)
      (extraHash : Option ℤ)
  | appendTokenIds (r : BlockRef) (tokenIds : List TokenId)
  | fork (lastBlock : BlockRef)
  | free (r : BlockRef)
  | swapOut (blocks : List BlockRef)
  | swapIn (blocks : List BlockRef)
  | contentHash (r : BlockRef)
  | markBlocksAsAccessed (blockIds : List BlockId) (now : Time) (cacheHint : Option CacheHint)
  | markBlocksAsComputed
  | observeCacheAccesses (blockHashes : List PrefixHash) (cacheHint : Option CacheHint)
  | clearCopyOnWrites

namespace Call

variable {ε : Type} [PythonHash] [Evictor ε] [Numpy]

/-- The call, with the block objects it hands to its caller. -/
def exec : Call → Method (Heaped (PrefixCachingBlockAllocator ε)) (List BlockRef)
  | allocateMutableBlock prevBlock extraHash => do
    let r ← PrefixCachingBlockAllocator.allocateMutableBlock prevBlock extraHash
    return [r]
  | allocateImmutableBlock prevBlock tokenIds extraHash => do
    let r ← PrefixCachingBlockAllocator.allocateImmutableBlock prevBlock tokenIds extraHash
    return [r]
  | appendTokenIds r tokenIds => do
    PrefixCachingBlockAllocator.appendTokenIds r tokenIds
    return []
  | fork lastBlock => PrefixCachingBlockAllocator.fork lastBlock
  | free r => do
    PrefixCachingBlockAllocator.free r
    return []
  | swapOut blocks => do
    PrefixCachingBlockAllocator.swapOut blocks
    return []
  | swapIn blocks => do
    PrefixCachingBlockAllocator.swapIn blocks
    return []
  | contentHash r => do
    let _ ← PrefixCachingBlockAllocator.contentHash r
    return []
  | markBlocksAsAccessed blockIds now cacheHint => do
    onSelf (PrefixCachingBlockAllocator.markBlocksAsAccessed blockIds now cacheHint)
    return []
  | markBlocksAsComputed => do
    onSelf PrefixCachingBlockAllocator.markBlocksAsComputed
    return []
  | observeCacheAccesses blockHashes cacheHint => do
    onSelf (PrefixCachingBlockAllocator.observeCacheAccesses blockHashes cacheHint)
    return []
  | clearCopyOnWrites => do
    let _ ← onSelf PrefixCachingBlockAllocator.clearCopyOnWrites
    return []

end Call

/-! ### The ids an allocator knows -/

def RefCounter.Known (ids : Finset BlockId) (s : RefCounter) : Prop :=
  ∀ b, (s.refcounts.get? b).isSome ↔ b ∈ ids

namespace RefCounter

variable {ids : Finset BlockId}

theorem Known.insert {s : RefCounter} {b : BlockId} {n m : ℕ} (known : s.Known ids)
    (found : s.refcounts.get? b = some n) : RefCounter.Known ids ⟨s.refcounts.insert b m⟩ := by
  intro c
  have here := known b
  rw [Dict.get?_insert]
  split
  · rename_i same
    subst same
    simpa [found] using here
  · exact known c

theorem incr_known (b : BlockId) : Preserves (Known ids) (incr b) := by
  intro s known
  unfold incr
  rw [wp_bind, wp_get]
  cases found : s.refcounts.get? b with
  | none => exact known
  | some n => exact known.insert found

theorem decr_known (b : BlockId) : Preserves (Known ids) (decr b) := by
  intro s known
  unfold decr
  rw [wp_bind, wp_get]
  cases found : s.refcounts.get? b with
  | none => exact known
  | some n =>
    cases n with
    | zero => exact known
    | succ n => exact known.insert found

theorem count_known (b : BlockId) : Preserves (Known ids) (count b) := by
  intro s known
  unfold count
  rw [wp_bind, wp_get]
  cases s.refcounts.get? b <;> exact known

end RefCounter

namespace NaiveBlockAllocator

def Known (ids : Finset BlockId) (s : NaiveBlockAllocator) : Prop := s.refcounter.Known ids

variable {ids : Finset BlockId} {β : Type}

theorem onRefcounter_known {method : Method RefCounter β}
    (inner : Preserves (RefCounter.Known ids) method) : Preserves (Known ids) (onRefcounter method) :=
  .zoom inner (fun _ known => known) fun _ _ _ known => known

theorem allocateBlockId_known : Preserves (Known ids) allocateBlockId := by
  intro s known
  unfold allocateBlockId
  rw [wp_bind, wp_get]
  cases s.freeBlockIndices with
  | nil => exact known
  | cons b rest =>
    exact Preserves.bind (onRefcounter_known (RefCounter.incr_known b)) (fun _ => .pure b) _ known

theorem releaseId_known (b : Option BlockId) : Preserves (Known ids) (releaseId b) := by
  cases b with
  | none => exact .throw _
  | some b =>
    exact .bind (onRefcounter_known (RefCounter.decr_known b)) fun _ =>
      .ite (.modify fun _ known => known) (.pure _)

theorem freeBlockId_known (r : BlockRef) :
    Preserves (fun s : Heaped NaiveBlockAllocator => s.self.Known ids) (freeBlockId r) :=
  .bind .get fun _ => .bind (.modify fun _ known => known) fun _ =>
    .zoom (releaseId_known _) (fun _ known => known) fun _ _ _ known => known

theorem onPool_known (method : Method (Heaped BlockPool) β) :
    Preserves (fun s : Heaped NaiveBlockAllocator => s.self.Known ids) (onPool method) :=
  .apart method fun _ _ known => known

theorem free_known (r : BlockRef) (keep : Bool) :
    Preserves (fun s : Heaped NaiveBlockAllocator => s.self.Known ids) (free r keep) :=
  .bind (freeBlockId_known r) fun _ => .ite (.pure _) (onPool_known _)

theorem allocateMutableBlock_known (prev : Option BlockRef) :
    Preserves (fun s : Heaped NaiveBlockAllocator => s.self.Known ids) (allocateMutableBlock prev) :=
  .bind (.zoom allocateBlockId_known (fun _ known => known) fun _ _ _ known => known) fun _ =>
    .bind .get fun _ => onPool_known _

end NaiveBlockAllocator

namespace PrefixCachingBlockAllocator

variable {ε β : Type}

structure Known (ids : Finset BlockId) (J : ε → Prop) (s : PrefixCachingBlockAllocator ε) : Prop where
  counted : s.hashlessAllocator.Known ids
  tracked : ∀ b, (s.blockTracker.get? b).isSome ↔ b ∈ ids
  named : ∀ h b, s.cachedBlocks.get? h = some b → b ∈ ids
  evictor : J s.evictor

structure Kept [Evictor ε] (J : ε → Prop) : Prop where
  evict : Preserves J evict
  add : ∀ b h n time hint, Preserves J (add b h n time hint)
  update : ∀ b time hint, Preserves J (update b time hint)
  remove : ∀ b, Preserves J (remove b)

variable {ids : Finset BlockId} {J : ε → Prop}

theorem onRefcounter_known {method : Method RefCounter β}
    (inner : Preserves (RefCounter.Known ids) method) :
    Preserves (Known ids J) (onRefcounter method : Method (PrefixCachingBlockAllocator ε) β) :=
  .zoom (NaiveBlockAllocator.onRefcounter_known inner) (fun _ known => known.counted)
    fun _ _ known counted => ⟨counted, known.tracked, known.named, known.evictor⟩

theorem onEvictor_known {method : Method ε β} (inner : Preserves J method) :
    Preserves (Known ids J) (onEvictor method : Method (PrefixCachingBlockAllocator ε) β) :=
  .zoom inner (fun _ known => known.evictor)
    fun _ _ known kept => ⟨known.counted, known.tracked, known.named, kept⟩

theorem onTracker_known (b : BlockId) (method : Method BlockTracker β) :
    Preserves (Known ids J) (onTracker b method : Method (PrefixCachingBlockAllocator ε) β) := by
  intro s known
  unfold onTracker trackerOf
  simp only [wp_bind, wp_get]
  cases found : s.blockTracker.get? b with
  | none => exact known
  | some tracker =>
    have here := known.tracked b
    rw [found] at here
    have tracked : ∀ tracker' c, ((s.blockTracker.insert b tracker').get? c).isSome ↔ c ∈ ids := by
      intro tracker' c
      rw [Dict.get?_insert]
      split
      · rename_i same
        subst same
        simpa using here
      · exact known.tracked c
    rw [wp_pure, wp_zoom]
    exact wp_intro (fun _ tracker' _ => ⟨known.counted, tracked tracker', known.named, known.evictor⟩)
      fun _ tracker' _ => ⟨known.counted, tracked tracker', known.named, known.evictor⟩

theorem trackerOf_known (b : BlockId) :
    Preserves (Known ids J) (trackerOf b : Method (PrefixCachingBlockAllocator ε) BlockTracker) := by
  intro s known
  unfold trackerOf
  rw [wp_bind, wp_get]
  cases s.blockTracker.get? b <;> exact known

theorem trackBlockId_known (b : BlockId) (computed : Bool) :
    Preserves (Known ids J) (trackBlockId b computed : Method (PrefixCachingBlockAllocator ε) Unit) :=
  .bind (onTracker_known b _) fun _ => onTracker_known b _

/-- The same of the allocator among its block objects. -/
abbrev Knows (ids : Finset BlockId) (J : ε → Prop) (s : Heaped (PrefixCachingBlockAllocator ε)) :
    Prop := s.self.Known ids J

theorem onSelf_knows {method : Method (PrefixCachingBlockAllocator ε) β}
    (inner : Preserves (Known ids J) method) : Preserves (Knows ids J) (onSelf method) :=
  .zoom inner (fun _ known => known) fun _ _ _ known => known

theorem onObjects_knows (method : Method Objects β) :
    Preserves (Knows ids J) (onObjects method : Method (Heaped (PrefixCachingBlockAllocator ε)) β) :=
  .apart method fun _ _ known => known

theorem onHashless_knows {method : Method (Heaped NaiveBlockAllocator) β}
    (inner : Preserves (fun s => s.self.Known ids) method) :
    Preserves (Knows ids J) (onHashless method : Method (Heaped (PrefixCachingBlockAllocator ε)) β) :=
  .zoom inner (fun _ known => known.counted)
    fun _ _ known counted => ⟨counted, known.tracked, known.named, known.evictor⟩

theorem onPool_knows (method : Method (Heaped BlockPool) β) :
    Preserves (Knows ids J) (onPool method : Method (Heaped (PrefixCachingBlockAllocator ε)) β) :=
  onHashless_knows (NaiveBlockAllocator.onPool_known method)

theorem presentBlockId_knows (r : BlockRef) : Preserves (Knows ids J)
      (presentBlockId r : Method (Heaped (PrefixCachingBlockAllocator ε)) BlockId) := by
  intro s known
  unfold presentBlockId
  rw [wp_bind, wp_get]
  cases (s.block r).blockId <;> exact known

section
variable [Evictor ε]

theorem restore_known (kept : Kept J) (b : BlockId) :
    Preserves (Known ids J) (restore b : Method (PrefixCachingBlockAllocator ε) Unit) :=
  .bind .get fun _ => .ite (onEvictor_known (kept.remove b)) (.pure _)

theorem acquire_known (kept : Kept J) (b : BlockId) :
    Preserves (Known ids J) (acquire b : Method (PrefixCachingBlockAllocator ε) Unit) :=
  .bind (onRefcounter_known (RefCounter.incr_known b)) fun _ =>
    .ite (.bind (restore_known kept b) fun _ => trackBlockId_known b true) (.pure _)

theorem incrRefcountCachedBlock_knows (kept : Kept J) (r : BlockRef) : Preserves (Knows ids J)
    (incrRefcountCachedBlock r : Method (Heaped (PrefixCachingBlockAllocator ε)) Unit) :=
  .bind (.modify fun _ known => known) fun _ => .bind (presentBlockId_knows r) fun b =>
    onSelf_knows (acquire_known kept b)

theorem assertThat_preserves {σ : Type} {I : σ → Prop} (p : Prop) [Decidable p] :
    Preserves I (assertThat p : Method σ Unit) := .ite (.pure _) (.throw _)

theorem releaseCached_known (kept : Kept J) (b : BlockId) (h : PrefixHash) (n : ℕ) : Preserves (Known ids J)
    (releaseCached b h n : Method (PrefixCachingBlockAllocator ε) Unit) :=
  .bind (onRefcounter_known (RefCounter.decr_known b)) fun _ => .ite (.pure _) <|
    .bind .get fun _ => .bind (assertThat_preserves _) fun _ =>
      .bind (trackerOf_known b) fun _ => .bind (onEvictor_known (kept.add b h n _ _)) fun _ =>
        onTracker_known b _

theorem decrRefcountCachedBlock_knows (kept : Kept J) (r : BlockRef) (h : PrefixHash) : Preserves (Knows ids J)
    (decrRefcountCachedBlock r h : Method (Heaped (PrefixCachingBlockAllocator ε)) Unit) :=
  .bind (presentBlockId_knows r) fun b => .bind .get fun _ =>
    .bind (onSelf_knows (releaseCached_known kept b h _)) fun _ => .modify fun _ known => known

omit [Evictor ε] in
theorem untrackIfLast_known (b : BlockId) :
    Preserves (Known ids J) (untrackIfLast b : Method (PrefixCachingBlockAllocator ε) Unit) :=
  .bind (onRefcounter_known (RefCounter.count_known b)) fun _ => .ite (onTracker_known b _) (.pure _)

omit [Evictor ε] in
theorem decrRefcountHashlessBlock_knows (r : BlockRef) : Preserves (Knows ids J)
    (decrRefcountHashlessBlock r : Method (Heaped (PrefixCachingBlockAllocator ε)) Unit) :=
  .bind (presentBlockId_knows r) fun b => .bind (onSelf_knows (untrackIfLast_known b)) fun _ =>
    onHashless_knows (NaiveBlockAllocator.free_known r true)

omit [Evictor ε] in
theorem maybeAllocateHashlessBlockId_knows : Preserves (Knows ids J) (maybeAllocateHashlessBlockId :
      Method (Heaped (PrefixCachingBlockAllocator ε)) (Option BlockId)) :=
  .catching _ _ <| .bind (onHashless_knows (NaiveBlockAllocator.allocateMutableBlock_known none))
    fun r => .bind (presentBlockId_knows r) fun b => .bind (onPool_knows _) fun _ =>
      .bind (onSelf_knows (trackBlockId_known b false)) fun _ => .pure _

omit [Evictor ε] in
theorem popIfUnused_known (b : BlockId) (h : PrefixHash) :
    Preserves (Known ids J) (popIfUnused b h : Method (PrefixCachingBlockAllocator ε) Bool) := by
  refine .bind .get fun _ => .ite ?_ (.pure _)
  refine .bind (onRefcounter_known (RefCounter.count_known b)) fun _ => .ite ?_ (.pure _)
  refine .bind (.modify ?_) fun _ => .pure _
  rintro s ⟨counted, tracked, named, kept⟩
  refine ⟨counted, tracked, fun k c found => named k c ?_, kept⟩
  rw [Dict.get?_erase] at found
  split at found
  · cases found
  · exact found

theorem evictRegistered_known (kept : Kept J) (rounds : ℕ) :
    Preserves (Known ids J) (evictRegistered rounds : Method (PrefixCachingBlockAllocator ε) BlockId) := by
  induction rounds with
  | zero => exact .throw _
  | succ rounds ih =>
    exact .bind (onEvictor_known kept.evict) fun pair => .bind (popIfUnused_known pair.1 pair.2) fun _ =>
      .ite (.pure _) ih

theorem maybeAllocateEvictedBlockId_known (kept : Kept J) : Preserves (Known ids J)
    (maybeAllocateEvictedBlockId : Method (PrefixCachingBlockAllocator ε) (Option BlockId)) :=
  .bind .get fun _ => .ite (.pure _) <| .ite (.throw _) <| .bind (evictRegistered_known kept _) fun b =>
    .bind (onRefcounter_known (RefCounter.incr_known b)) fun _ =>
      .bind (trackBlockId_known b false) fun _ => .pure _

theorem allocateBlockId_knows (kept : Kept J) : Preserves (Knows ids J)
    (allocateBlockId : Method (Heaped (PrefixCachingBlockAllocator ε)) BlockId) := by
  refine .bind maybeAllocateHashlessBlockId_knows fun found => ?_
  cases found with
  | some b => exact .pure b
  | none =>
    refine .bind (onSelf_knows (maybeAllocateEvictedBlockId_known kept)) fun found => ?_
    cases found with
    | some b => exact .pure b
    | none => exact .throw _

theorem cowBlockIfNotAppendable_knows (kept : Kept J) (r : BlockRef) : Preserves (Knows ids J)
    (cowBlockIfNotAppendable r : Method (Heaped (PrefixCachingBlockAllocator ε)) BlockId) := by
  refine .bind (presentBlockId_knows r) fun b => .bind (onSelf_knows ?_) fun _ => .ite (.pure _) ?_
  · exact .bind (onRefcounter_known (RefCounter.count_known b)) fun _ => .pure _
  · refine .bind (decrRefcountHashlessBlock_knows r) fun _ => .bind (allocateBlockId_knows kept) fun _ => ?_
    exact .bind (.modify fun s known => ⟨known.counted, known.tracked, known.named, known.evictor⟩)
      fun _ => .pure _

theorem appendInner_knows (kept : Kept J) (r : BlockRef) (tokenIds : List TokenId) : Preserves (Knows ids J)
    (appendInner r tokenIds : Method (Heaped (PrefixCachingBlockAllocator ε)) Unit) := by
  refine .bind .get fun s => .bind (onObjects_knows _) fun _ => ?_
  cases (s.block r).blockId with
  | none => exact .pure _
  | some b =>
    exact .bind (cowBlockIfNotAppendable_knows kept r) fun _ => .modify fun _ known => known

end

section
variable [PythonHash]

theorem contentHash_knows (r : BlockRef) : Preserves (Knows ids J)
    (contentHash r : Method (Heaped (PrefixCachingBlockAllocator ε)) (Option PrefixHash)) :=
  .bind .get fun _ => onObjects_knows _

variable [Evictor ε]

section
variable (kept : Kept J)
include kept

theorem freeBlockId_knows (r : BlockRef) : Preserves (Knows ids J)
    (freeBlockId r : Method (Heaped (PrefixCachingBlockAllocator ε)) Unit) := by
  refine .bind (presentBlockId_knows r) fun _ => .bind (contentHash_knows r) fun found => ?_
  cases found with
  | some h => exact decrRefcountCachedBlock_knows kept r h
  | none => exact decrRefcountHashlessBlock_knows r

/-- A hash is entered for an id whose reference count has just been read. -/
theorem promoteToImmutableBlock_knows (r : BlockRef) : Preserves (Knows ids J)
    (promoteToImmutableBlock r : Method (Heaped (PrefixCachingBlockAllocator ε)) BlockId) := by
  refine .bind (contentHash_knows r) fun found => ?_
  cases found with
  | none => exact .throw _
  | some h =>
    refine .bind (presentBlockId_knows r) fun b => ?_
    intro s known
    simp only [wp_bind, wp_onSelf, onRefcounter, NaiveBlockAllocator.onRefcounter, wp_zoom,
      RefCounter.count, wp_get]
    cases count : s.self.hashlessAllocator.refcounter.refcounts.get? b with
    | none => exact known
    | some n =>
      have member : b ∈ ids := (known.counted b).mp (by rw [count]; rfl)
      simp only [wp_pure, wp_assertThat]
      refine ⟨fun _ => ?_, fun _ => known⟩
      cases s.self.cachedBlocks.get? h with
      | none =>
        simp only [wp_bind, wp_onSelf, register, wp_modify, wp_pure]
        refine ⟨known.counted, known.tracked, fun k c named => ?_, known.evictor⟩
        rw [Dict.get?_insert] at named
        split at named
        · cases named
          exact member
        · exact known.named k c named
      | some c =>
        have reuse : Preserves (Knows ids J) (do
            decrRefcountHashlessBlock r
            modify (setBlockId r (some c))
            incrRefcountCachedBlock r
            return c : Method (Heaped (PrefixCachingBlockAllocator ε)) BlockId) :=
          .bind (decrRefcountHashlessBlock_knows r) fun _ => .bind (.modify fun _ known => known) fun _ =>
            .bind (incrRefcountCachedBlock_knows kept r) fun _ => .pure c
        exact reuse _ known

theorem appendTokenIds_knows (r : BlockRef) (tokenIds : List TokenId) : Preserves (Knows ids J)
    (appendTokenIds r tokenIds : Method (Heaped (PrefixCachingBlockAllocator ε)) Unit) := by
  refine .bind (contentHash_knows r) fun _ => .bind (assertThat_preserves _) fun _ => .bind .get fun _ =>
    .bind (assertThat_preserves _) fun _ => .ite (.pure _) ?_
  refine .bind (appendInner_knows kept r tokenIds) fun _ => .bind (.modify fun _ known => known) fun _ => ?_
  refine .bind (contentHash_knows r) fun found => ?_
  cases found with
  | none => exact .pure _
  | some h =>
    exact .bind (promoteToImmutableBlock_knows kept r) fun _ => .modify fun _ known => known

theorem allocateMutableBlock_knows (prev : Option BlockRef) (extra : Option ℤ) : Preserves (Knows ids J)
    (allocateMutableBlock prev extra : Method (Heaped (PrefixCachingBlockAllocator ε)) BlockRef) :=
  .bind (allocateBlockId_knows kept) fun _ => .bind .get fun _ => .bind (onPool_knows _) fun r =>
    .bind .get fun _ => .bind (assertThat_preserves _) fun _ => .bind (contentHash_knows r) fun _ =>
      .bind (assertThat_preserves _) fun _ => .pure r

theorem lookUp_knows (prev : Option BlockRef) (tokenIds : List TokenId) (extra : Option ℤ) :
    Preserves (Knows ids J)
      (lookUp prev tokenIds extra : Method (Heaped (PrefixCachingBlockAllocator ε)) (Option BlockRef)) := by
  refine .bind .get fun _ => .bind (onPool_knows _) fun r => .bind (contentHash_knows r) fun found => ?_
  cases found with
  | none => exact .throw _
  | some h =>
    refine .bind .get fun s => ?_
    cases s.self.cachedBlocks.get? h with
    | none => exact .bind (onPool_knows _) fun _ => .pure _
    | some b =>
      refine .ite ?_ (.throw _)
      exact .bind (.modify fun _ known => known) fun _ =>
        .bind (incrRefcountCachedBlock_knows kept r) fun _ => .pure _

theorem allocateImmutableBlock_knows (prev : Option BlockRef) (tokenIds : List TokenId)
    (extra : Option ℤ) : Preserves (Knows ids J) (allocateImmutableBlock prev tokenIds extra :
      Method (Heaped (PrefixCachingBlockAllocator ε)) BlockRef) := by
  refine .bind (lookUp_knows kept prev tokenIds extra) fun found => ?_
  cases found with
  | some r => exact .pure r
  | none =>
    exact .bind (allocateMutableBlock_knows kept prev extra) fun r =>
      .bind (appendTokenIds_knows kept r tokenIds) fun _ => .pure r

theorem swapInBlock_knows (r : BlockRef) : Preserves (Knows ids J)
    (swapInBlock r : Method (Heaped (PrefixCachingBlockAllocator ε)) Unit) := by
  have temporary : Preserves (Knows ids J)
      (temporaryBlock r : Method (Heaped (PrefixCachingBlockAllocator ε)) BlockRef) :=
    .bind .get fun _ => .ite (allocateImmutableBlock_knows kept _ _ _) <|
      .bind (allocateMutableBlock_knows kept _ _) fun r => .bind (appendTokenIds_knows kept r _) fun _ => .pure r
  exact .bind temporary fun _ => .bind (onPool_knows _) fun _ => .modify fun _ known => known

end

end

theorem forkEach_knows (prev : Option BlockRef) (blocks : List BlockRef) : Preserves (Knows ids J)
    (forkEach prev blocks : Method (Heaped (PrefixCachingBlockAllocator ε)) (List BlockRef)) := by
  induction blocks generalizing prev with
  | nil => exact .pure _
  | cons r rest ih =>
    refine .bind (presentBlockId_knows r) fun b => ?_
    refine .bind (onSelf_knows (onRefcounter_known (RefCounter.incr_known b))) fun _ => ?_
    exact .bind (assertThat_preserves _) fun _ => .bind .get fun _ => .bind (onPool_knows _) fun r =>
      .bind (ih (some r)) fun _ => .pure _

theorem markBlocksAsComputed_known : Preserves (Known ids J)
    (markBlocksAsComputed : Method (PrefixCachingBlockAllocator ε) Unit) :=
  .bind .get fun _ => .bind (.forM (fun b => onTracker_known b _) _) fun _ =>
    .modify fun _ known => ⟨known.counted, known.tracked, known.named, known.evictor⟩

variable [Evictor ε]

theorem markBlockAsAccessed_known [Numpy] (kept : Kept J) (now : Time) (hint : Option CacheHint) (b : BlockId) :
    Preserves (Known ids J)
      (markBlockAsAccessed now hint b : Method (PrefixCachingBlockAllocator ε) Unit) :=
  .bind (trackerOf_known b) fun _ => .ite (onTracker_known b _) <| .bind .get fun _ =>
    .ite (onEvictor_known (kept.update b now hint)) (.throw _)

theorem kept_true : Kept (fun _ : ε => True) :=
  ⟨.anything _, fun _ _ _ _ _ => .anything _, fun _ _ _ => .anything _, fun _ => .anything _⟩

theorem observeCacheAccesses_known (hashes : List PrefixHash) (hint : Option CacheHint) :
    Preserves (Known ids fun _ => True)
      (observeCacheAccesses hashes hint : Method (PrefixCachingBlockAllocator ε) Unit) := by
  refine .bind .get fun s => .ite (.pure _) ?_
  split
  · exact onEvictor_known (.anything _)
  · exact .forM (fun h => .bind .get fun _ => onEvictor_known (.anything _)) _
  · exact .pure _

theorem exec_knows [PythonHash] [Numpy] (kept : Kept J) (call : Call)
    (observes : ∀ hashes hint, call = .observeCacheAccesses hashes hint → Preserves (Known ids J)
      (observeCacheAccesses hashes hint : Method (PrefixCachingBlockAllocator ε) Unit)) :
    Preserves (Knows ids J) (call.exec : Method (Heaped (PrefixCachingBlockAllocator ε)) (List BlockRef)) := by
  cases call with
  | allocateMutableBlock prev extra => exact .bind (allocateMutableBlock_knows kept prev extra) fun _ => .pure _
  | allocateImmutableBlock prev tokens extra =>
    exact .bind (allocateImmutableBlock_knows kept prev tokens extra) fun _ => .pure _
  | appendTokenIds r tokens => exact .bind (appendTokenIds_knows kept r tokens) fun _ => .pure _
  | fork last => exact .bind (onObjects_knows _) fun _ => forkEach_knows none _
  | free r =>
    exact .bind (.bind (freeBlockId_knows kept r) fun _ => onPool_knows _) fun _ => .pure _
  | swapOut blocks => exact .bind (.forM (freeBlockId_knows kept) blocks) fun _ => .pure _
  | swapIn blocks => exact .bind (.forM (swapInBlock_knows kept) blocks) fun _ => .pure _
  | contentHash r => exact .bind (contentHash_knows r) fun _ => .pure _
  | markBlocksAsAccessed ids now hint =>
    exact .bind (onSelf_knows (.forM (markBlockAsAccessed_known kept now hint) ids)) fun _ => .pure _
  | markBlocksAsComputed => exact .bind (onSelf_knows markBlocksAsComputed_known) fun _ => .pure _
  | observeCacheAccesses hashes hint =>
    exact .bind (onSelf_knows (observes hashes hint rfl)) fun _ => .pure _
  | clearCopyOnWrites =>
    refine .bind (onSelf_knows (.apart _ ?_)) fun _ => .pure _
    exact fun _ _ known => ⟨known.counted, known.tracked, known.named, known.evictor⟩

omit [Evictor ε] in
theorem init_known (device : Device) (blockSize : ℕ) (blockIds : List BlockId) {evictor : ε}
    (initially : J evictor) :
    (init device blockSize blockIds evictor).Known blockIds.toFinset J := by
  refine ⟨?_, ?_, ?_, initially⟩
  · intro b
    show ((Dict.ofKeys 0 blockIds).get? b).isSome ↔ _
    rw [Dict.get?_ofKeys]
    by_cases member : b ∈ blockIds <;> simp [member]
  · intro b
    show ((Dict.ofKeys ({} : BlockTracker) blockIds).get? b).isSome ↔ _
    rw [Dict.get?_ofKeys]
    by_cases member : b ∈ blockIds <;> simp [member]
  · intro h b found
    cases found

end PrefixCachingBlockAllocator
end Vllm
