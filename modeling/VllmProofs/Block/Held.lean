import VllmProofs.Block.PrefixCaching

/-!
What the allocators leave alone: block objects that somebody holds. Whatever a method takes from the
pool, counts, evicts or copies, what is known of them stays, except for the bookkeeping fields of
the block the method is about.
-/

namespace Vllm
open Exec Heaped Evictor

structure Block.Blind (P : Block → Prop) : Prop where
  blockId : ∀ b id, P b → P { b with blockId := id }
  total : ∀ b total, P b → P { b with cachedNumTokensTotal := total }
  computed : ∀ b computed, P b → P { b with computed }

namespace BlockPool

structure Holds (live : Set BlockRef) (K : BlockRef → Block → Prop) (s : Heaped BlockPool) : Prop where
  valid : s.self.Valid
  held : ∀ x ∈ live, x ∉ s.self.Fresh
  known : ∀ x ∈ live, K x (s.block x)

variable {live : Set BlockRef} {K : BlockRef → Block → Prop} {s : Heaped BlockPool}
  {prev : Option BlockRef} {tokenIds : List TokenId} {blockSize : ℕ} {blockId : Option BlockId}
  {extraHash : Option ℤ} {r : BlockRef}

theorem Holds.write {b : Block} (holds : Holds live K s) (keeps : r ∈ live → K r b) :
    Holds live K { s with objects := s.objects.insert r b } := by
  refine ⟨holds.valid, holds.held, fun x member => ?_⟩
  show K x (Objects.block (s.objects.insert r b) x)
  rw [Objects.block_insert]
  split
  · rename_i same
    subst same
    exact keeps member
  · exact holds.known x member

/-- `init_block` changes no object when it raises, and no more objects become free. -/
theorem initBlock_raises (valid : s.self.Valid) :
    wp (initBlock prev tokenIds blockSize blockId extraHash) (fun _ _ => True)
      (fun _ t => t.objects = s.objects ∧ t.self.Valid ∧ t.self.Fresh ⊆ s.self.Fresh) s := by
  have valid' := valid.replenished
  unfold initBlock
  simp only [wp_bind, wp_get]
  cases ids : s.self.replenished.freeIds with
  | nil => exact ⟨rfl, valid, subset_rfl⟩
  | cons i rest =>
    have nodup := valid'.nodup
    rw [ids, List.nodup_cons] at nodup
    have left : BlockPool.Valid { s.self.replenished with freeIds := rest } ∧
        BlockPool.Fresh { s.self.replenished with freeIds := rest } ⊆ s.self.Fresh := by
      refine ⟨⟨nodup.2, fun j member => valid'.bounded j (by rw [ids]; exact List.mem_cons_of_mem i member)⟩, ?_⟩
      rw [← replenished_fresh s.self]
      rintro r ⟨mine, free | later⟩
      · exact ⟨mine, .inl (by rw [ids]; exact List.mem_cons_of_mem i free)⟩
      · exact ⟨mine, .inr later⟩
    simp only [wp_bind, wp_set, wp_ite, wp_assertThat, wp_modify, wp_pure, wp_throw]
    exact ⟨fun _ => ⟨fun _ => trivial, fun _ => ⟨trivial, left⟩⟩, fun _ => ⟨trivial, left⟩⟩

structure Taken (live : Set BlockRef) (K : BlockRef → Block → Prop) (s t : Heaped BlockPool) (r : BlockRef)
    (b : Block) : Prop where
  holds : Holds live K t
  apart : r ∉ live
  mine : r.pool = t.self.device
  held : r ∉ t.self.Fresh
  device : t.self.device = s.self.device
  objects : t.objects = s.objects.insert r b

theorem initBlock_holds (holds : Holds live K s) :
    wp (initBlock prev tokenIds blockSize blockId extraHash)
      (fun r t => tokenIds.length ≤ blockSize ∧
        Taken live K s t r (initialized s.objects prev tokenIds blockId extraHash))
      (fun _ t => Holds live K t) s := by
  refine ((initBlock_wp holds.valid).and (initBlock_raises holds.valid)).mono ?_ ?_
  · rintro r t ⟨⟨fits, handed⟩, -⟩
    have apart : r ∉ live := fun member => holds.held r member handed.fresh
    refine ⟨fits, ⟨handed.valid, fun x member fresh => ?_, fun x member => ?_⟩, apart,
      handed.fresh.1.trans handed.device.symm, ?_, handed.device, handed.objects⟩
    · rw [handed.left] at fresh
      exact holds.held x member fresh.1
    · have different : x ≠ r := fun same => apart (same ▸ member)
      rw [Heaped.block, handed.objects, Objects.block_insert, if_neg different]
      exact holds.known x member
    · rw [handed.left]
      exact fun fresh => fresh.2 rfl
  · rintro e ⟨objects, pool⟩ ⟨-, rfl, valid, fewer⟩
    exact ⟨valid, fun x member fresh => holds.held x member (fewer fresh), holds.known⟩

theorem freeBlock_holds (holds : Holds live K s) (apart : r ∉ live) (mine : r.pool = s.self.device)
    (held : r ∉ s.self.Fresh) :
    Holds live K { s with self := { s.self with freeIds := r.poolId :: s.self.freeIds } } := by
  refine ⟨holds.valid.freeBlock mine held, fun x member fresh => ?_, holds.known⟩
  rw [freeBlock_fresh mine] at fresh
  rcases fresh with same | old
  · exact apart (same ▸ member)
  · exact holds.held x member old

end BlockPool

namespace NaiveBlockAllocator

variable {β : Type} {n : ℕ} {p : BlockPool} {live : Set BlockRef} {K : BlockRef → Block → Prop}
  {s : Heaped NaiveBlockAllocator} {r : BlockRef}

def Shape (n : ℕ) (p : BlockPool) (s : NaiveBlockAllocator) : Prop := s.blockPool = p ∧ s.blockSize = n

def Holds (n : ℕ) (live : Set BlockRef) (K : BlockRef → Block → Prop) (s : Heaped NaiveBlockAllocator) :
    Prop := s.self.blockSize = n ∧ BlockPool.Holds live K ⟨s.objects, s.self.blockPool⟩

theorem onRefcounter_shape (method : Method RefCounter β) : Preserves (Shape n p) (onRefcounter method) :=
  .apart method fun _ _ shape => shape

theorem allocateBlockId_shape : Preserves (Shape n p) allocateBlockId := by
  intro s shape
  unfold allocateBlockId
  rw [wp_bind, wp_get]
  cases s.freeBlockIndices with
  | nil => exact shape
  | cons b rest => exact Preserves.bind (onRefcounter_shape _) (fun _ => .pure b) _ shape

theorem releaseId_shape (b : Option BlockId) : Preserves (Shape n p) (releaseId b) := by
  cases b with
  | none => exact .throw _
  | some b =>
    exact .bind (onRefcounter_shape _) fun _ => .ite (.modify fun _ shape => shape) (.pure _)

theorem onSelf_holds {method : Method NaiveBlockAllocator β} (inner : ∀ p, Preserves (Shape n p) method) :
    Preserves (Holds n live K) (onSelf method) := by
  rintro s ⟨size, holds⟩
  rw [wp_onSelf]
  have still : ∀ t : NaiveBlockAllocator, Shape n s.self.blockPool t → Holds n live K ⟨s.objects, t⟩ :=
    fun t shape => ⟨shape.2, by rw [shape.1]; exact holds⟩
  exact (inner s.self.blockPool s.self ⟨rfl, size⟩).mono (fun _ t shape => still t shape)
    fun _ t shape => still t shape

theorem Holds.update {f : Block → Block} (holds : Holds n live K s)
    (keeps : r ∈ live → ∀ b, K r b → K r (f b)) :
    Holds n live K { s with objects := s.objects.update r f } :=
  ⟨holds.1, holds.2.write fun member => keeps member _ (holds.2.known r member)⟩

theorem setBlockId_holds (blind : r ∈ live → Block.Blind (K r)) (b : Option BlockId) :
    Preserves (Holds n live K) (modify (setBlockId r b) : Method (Heaped NaiveBlockAllocator) PUnit) :=
  .modify fun _ holds => holds.update fun member _ known => (blind member).blockId _ _ known

theorem freeBlockId_holds (blind : r ∈ live → Block.Blind (K r)) :
    Preserves (Holds n live K) (freeBlockId r) :=
  .bind .get fun _ => .bind (setBlockId_holds blind _) fun _ => onSelf_holds fun _ => releaseId_shape _

/-- A new block, with the fields of `init_block`. -/
theorem initBlock_holds {prev : Option BlockRef} {tokenIds : List TokenId} {blockSize : ℕ}
    {blockId : Option BlockId} {extraHash : Option ℤ} (holds : Holds n live K s) :
    wp (onPool (BlockPool.initBlock prev tokenIds blockSize blockId extraHash))
      (fun r t => tokenIds.length ≤ blockSize ∧ t.self.blockSize = n ∧
        BlockPool.Taken live K ⟨s.objects, s.self.blockPool⟩ ⟨t.objects, t.self.blockPool⟩ r
          (BlockPool.initialized s.objects prev tokenIds blockId extraHash))
      (fun _ t => Holds n live K t) s := by
  unfold onPool
  rw [wp_zoom]
  exact (BlockPool.initBlock_holds holds.2).mono
    (fun r t ⟨fits, taken⟩ => ⟨fits, holds.1, taken⟩) fun _ t left => ⟨holds.1, left⟩

/-- What allocating a block leaves behind: an object that was free, holding the given fields. -/
def Allocated (n : ℕ) (live : Set BlockRef) (K : BlockRef → Block → Prop) (prev : Option BlockRef)
    (tokenIds : List TokenId) (extraHash : Option ℤ) (o : Objects) (r : BlockRef)
    (t : Heaped NaiveBlockAllocator) : Prop :=
  ∃ id, t.self.blockSize = n ∧ BlockPool.Holds live K ⟨t.objects, t.self.blockPool⟩ ∧ r ∉ live ∧
    r.pool = t.self.blockPool.device ∧ r ∉ t.self.blockPool.Fresh ∧
    t.objects = o.insert r (BlockPool.initialized o prev tokenIds (some id) extraHash)

theorem allocateMutableBlock_holds {prev : Option BlockRef} (holds : Holds n live K s) :
    wp (allocateMutableBlock prev) (fun r t => Allocated n live K prev [] none s.objects r t)
      (fun _ t => Holds n live K t) s := by
  unfold allocateMutableBlock
  simp only [wp_bind, wp_onSelf, wp_get]
  have still : ∀ t : NaiveBlockAllocator, Shape n s.self.blockPool t → Holds n live K ⟨s.objects, t⟩ :=
    fun t shape => ⟨shape.2, by rw [shape.1]; exact holds.2⟩
  refine (allocateBlockId_shape s.self ⟨rfl, holds.1⟩).mono (fun b t shape => ?_) fun _ t shape => still t shape
  refine (initBlock_holds (still t shape)).mono ?_ fun _ _ left => left
  rintro r u ⟨-, size, taken⟩
  exact ⟨b, size, taken.holds, taken.apart, taken.mine, taken.held, taken.objects⟩

end NaiveBlockAllocator

namespace PrefixCachingBlockAllocator

variable {ε β : Type} {n : ℕ} {p : BlockPool} {live : Set BlockRef} {K : BlockRef → Block → Prop}
  {s : Heaped (PrefixCachingBlockAllocator ε)} {r : BlockRef}

/-! ### What an internal method keeps of the allocator -/

structure Stable (P : PrefixCachingBlockAllocator ε → Prop) : Prop where
  refcounter : ∀ s refcounter, P s →
    P { s with hashlessAllocator := { s.hashlessAllocator with refcounter } }
  tracker : ∀ s blockTracker, P s → P { s with blockTracker }
  evictor : ∀ s evictor, P s → P { s with evictor }
  erase : ∀ s h, P s → P { s with cachedBlocks := s.cachedBlocks.erase h }

section
variable {P : PrefixCachingBlockAllocator ε → Prop}

section
variable (stable : Stable P)
include stable

theorem onRefcounter_stable (method : Method RefCounter β) : Preserves P (onRefcounter method) := by
  intro s holds
  unfold onRefcounter NaiveBlockAllocator.onRefcounter
  rw [wp_zoom, wp_zoom]
  exact wp_intro (fun _ t _ => stable.refcounter s t holds) fun _ t _ => stable.refcounter s t holds

theorem onEvictor_stable (method : Method ε β) : Preserves P (onEvictor method) :=
  .apart method fun s t holds => stable.evictor s t holds

theorem onTracker_stable (b : BlockId) (method : Method BlockTracker β) :
    Preserves P (onTracker b method) := by
  intro s holds
  unfold onTracker trackerOf
  simp only [wp_bind, wp_get]
  cases s.blockTracker.get? b with
  | none => exact holds
  | some tracker =>
    rw [wp_pure, wp_zoom]
    exact wp_intro (fun _ _ _ => stable.tracker s _ holds) fun _ _ _ => stable.tracker s _ holds

theorem trackBlockId_stable (b : BlockId) (computed : Bool) :
    Preserves P (trackBlockId b computed) :=
  .bind (onTracker_stable stable b _) fun _ => onTracker_stable stable b _

theorem untrackIfLast_stable (b : BlockId) : Preserves P (untrackIfLast b) :=
  .bind (onRefcounter_stable stable _) fun _ => .ite (onTracker_stable stable b _) (.pure _)

theorem isAppendable_stable (b : BlockId) : Preserves P (isAppendable b) :=
  .bind (onRefcounter_stable stable _) fun _ => .pure _

end

variable [Evictor ε]

theorem acquire_stable (stable : Stable P) (b : BlockId) : Preserves P (acquire b) :=
  .bind (onRefcounter_stable stable _) fun _ => .ite
    (.bind (.bind .get fun _ => .ite (onEvictor_stable stable _) (.pure _)) fun _ =>
      trackBlockId_stable stable b true)
    (.pure _)

theorem evictRegistered_stable (stable : Stable P) (rounds : ℕ) : Preserves P (evictRegistered rounds) := by
  induction rounds with
  | zero => exact .throw _
  | succ rounds ih =>
    refine .bind (onEvictor_stable stable _) fun pair => .bind (.bind .get fun _ => .ite ?_ (.pure _)) fun _ =>
      .ite (.pure _) ih
    exact .bind (onRefcounter_stable stable _) fun _ =>
      .ite (.bind (.modify fun s holds => stable.erase s _ holds) fun _ => .pure _) (.pure _)

theorem maybeAllocateEvictedBlockId_stable (stable : Stable P) :
    Preserves P maybeAllocateEvictedBlockId :=
  .bind .get fun _ => .ite (.pure _) <| .ite (.throw _) <| .bind (evictRegistered_stable stable _) fun b =>
    .bind (onRefcounter_stable stable _) fun _ => .bind (trackBlockId_stable stable b false) fun _ => .pure _

end

def Shape (n : ℕ) (p : BlockPool) (s : PrefixCachingBlockAllocator ε) : Prop :=
  s.hashlessAllocator.Shape n p

theorem shape_stable : Stable (Shape n p : PrefixCachingBlockAllocator ε → Prop) :=
  ⟨fun _ _ shape => shape, fun _ _ shape => shape, fun _ _ shape => shape, fun _ _ shape => shape⟩

/-! ### What it keeps of the objects -/

def Holds (n : ℕ) (live : Set BlockRef) (K : BlockRef → Block → Prop)
    (s : Heaped (PrefixCachingBlockAllocator ε)) : Prop :=
  NaiveBlockAllocator.Holds n live K ⟨s.objects, s.self.hashlessAllocator⟩

variable {method : Method (PrefixCachingBlockAllocator ε) β}

theorem onSelf_holds
    (inner : ∀ p, Preserves (Shape n p) method) : Preserves (Holds n live K) (onSelf method) := by
  rintro s ⟨size, holds⟩
  rw [wp_onSelf]
  have still : ∀ t : PrefixCachingBlockAllocator ε, Shape n s.self.pool t → Holds n live K ⟨s.objects, t⟩ :=
    fun t shape => ⟨shape.2, by rw [shape.1]; exact holds⟩
  exact (inner s.self.pool s.self ⟨rfl, size⟩).mono (fun _ t shape => still t shape)
    fun _ t shape => still t shape

theorem onHashless_holds {method : Method (Heaped NaiveBlockAllocator) β}
    (inner : Preserves (NaiveBlockAllocator.Holds n live K) method) :
    Preserves (Holds n live K)
      (onHashless method : Method (Heaped (PrefixCachingBlockAllocator ε)) β) :=
  .zoom inner (fun _ holds => holds) fun _ _ _ holds => holds

theorem Holds.update {f : Block → Block} (holds : Holds n live K s)
    (keeps : r ∈ live → ∀ b, K r b → K r (f b)) :
    Holds n live K { s with objects := s.objects.update r f } :=
  NaiveBlockAllocator.Holds.update holds keeps

theorem setBlockId_holds (blind : r ∈ live → Block.Blind (K r)) (b : Option BlockId) :
    Preserves (Holds n live K)
      (modify (setBlockId r b) : Method (Heaped (PrefixCachingBlockAllocator ε)) PUnit) :=
  .modify fun _ holds => holds.update fun member _ known => (blind member).blockId _ _ known

theorem setComputed_holds (blind : r ∈ live → Block.Blind (K r)) (computed : Bool) :
    Preserves (Holds n live K)
      (setComputed r computed : Method (Heaped (PrefixCachingBlockAllocator ε)) Unit) :=
  .modify fun _ holds => holds.update fun member _ known => (blind member).computed _ _ known

theorem presentBlockId_holds (r : BlockRef) : Preserves (Holds n live K)
    (presentBlockId r : Method (Heaped (PrefixCachingBlockAllocator ε)) BlockId) := by
  intro s holds
  unfold presentBlockId
  rw [wp_bind, wp_get]
  cases (s.block r).blockId <;> exact holds

theorem decrRefcountHashlessBlock_holds (blind : r ∈ live → Block.Blind (K r)) : Preserves (Holds n live K)
    (decrRefcountHashlessBlock r : Method (Heaped (PrefixCachingBlockAllocator ε)) Unit) :=
  .bind (presentBlockId_holds r) fun b => .bind (onSelf_holds fun _ => untrackIfLast_stable shape_stable b) fun _ =>
    onHashless_holds (.bind (NaiveBlockAllocator.freeBlockId_holds blind) fun _ => .pure _)

theorem Holds.freeBlock {E : PyError → Heaped (PrefixCachingBlockAllocator ε) → Prop}
    (holds : Holds n live K s) (apart : r ∉ live) (mine : r.pool = s.self.pool.device)
    (held : r ∉ s.self.pool.Fresh) :
    wp (onPool (onSelf (BlockPool.freeBlock r))) (fun _ t => Holds n live K t) E s :=
  ⟨holds.1, BlockPool.freeBlock_holds holds.2 apart mine held⟩

theorem allocateHashlessBlockId_holds : Preserves (Holds n live K)
    (allocateHashlessBlockId : Method (Heaped (PrefixCachingBlockAllocator ε)) (Option BlockId)) := by
  intro s holds
  unfold allocateHashlessBlockId
  simp only [wp_bind, onHashless, wp_zoom]
  refine (NaiveBlockAllocator.allocateMutableBlock_holds holds).mono ?_ fun _ _ left => left
  rintro r ⟨objects, self⟩ ⟨id, size, kept, apart, mine, held, written⟩
  have written : objects = s.objects.insert r (BlockPool.initialized s.objects none [] (some id) none) := written
  subst written
  rw [wp_presentBlockId (b := id) (by simp [Heaped.block, Objects.block_insert, BlockPool.initialized])]
  refine (Holds.freeBlock (E := fun _ t => Holds n live K t) (s := ⟨_, { s.self with hashlessAllocator := self }⟩)
    ⟨size, kept⟩ apart mine held).mono (fun _ t left => ?_) fun _ _ left => left
  exact (onSelf_holds fun _ => trackBlockId_stable shape_stable id false) t left

section
variable [Evictor ε]

theorem incrRefcountCachedBlock_holds (blind : r ∈ live → Block.Blind (K r)) : Preserves (Holds n live K)
    (incrRefcountCachedBlock r : Method (Heaped (PrefixCachingBlockAllocator ε)) Unit) :=
  .bind (setComputed_holds blind true) fun _ => .bind (presentBlockId_holds r) fun b =>
    onSelf_holds fun _ => acquire_stable shape_stable b

theorem allocateBlockId_holds : Preserves (Holds n live K)
    (allocateBlockId : Method (Heaped (PrefixCachingBlockAllocator ε)) BlockId) := by
  refine .bind (.catching _ _ allocateHashlessBlockId_holds) fun found => ?_
  cases found with
  | some b => exact .pure b
  | none =>
    refine .bind (onSelf_holds fun _ => maybeAllocateEvictedBlockId_stable shape_stable) fun found => ?_
    cases found with
    | some b => exact .pure b
    | none => exact .throw _

theorem cowBlockIfNotAppendable_holds (blind : r ∈ live → Block.Blind (K r)) : Preserves (Holds n live K)
    (cowBlockIfNotAppendable r : Method (Heaped (PrefixCachingBlockAllocator ε)) BlockId) := by
  refine .bind (presentBlockId_holds r) fun b => .bind (onSelf_holds fun _ => isAppendable_stable shape_stable b) fun _ =>
    .ite (.pure _) ?_
  refine .bind (decrRefcountHashlessBlock_holds blind) fun _ => .bind allocateBlockId_holds fun _ => ?_
  exact .bind (.modify fun _ holds => holds) fun _ => .pure _

/-- The allocator's part of `append_token_ids`, once the tokens are written. -/
theorem copyOnWrite_holds (blind : r ∈ live → Block.Blind (K r)) (source : Option BlockId) :
    Preserves (Holds n live K) (match source with
      | none => pure ()
      | some _ => do
        let blockId ← cowBlockIfNotAppendable r
        modify (setBlockId r (some blockId)) : Method (Heaped (PrefixCachingBlockAllocator ε)) Unit) := by
  cases source with
  | none => exact .pure _
  | some b => exact .bind (cowBlockIfNotAppendable_holds blind) fun _ => setBlockId_holds blind _

omit [Evictor ε] in
theorem updateNumTokensTotal_holds [PythonHash] (blind : r ∈ live → Block.Blind (K r)) :
    Preserves (Holds n live K) (modify fun s : Heaped (PrefixCachingBlockAllocator ε) =>
      { s with objects := updateNumTokensTotal r s.objects } :
        Method (Heaped (PrefixCachingBlockAllocator ε)) PUnit) :=
  .modify fun _ holds => holds.update fun member _ known => (blind member).total _ _ known

omit [Evictor ε] in
theorem register_holds (b : BlockId) (h : PrefixHash) : Preserves (Holds n live K)
    (onSelf (register r b h) : Method (Heaped (PrefixCachingBlockAllocator ε)) Unit) :=
  onSelf_holds fun _ => .modify fun _ shape => shape

end

/-! ### What an append keeps of the registered hashes -/

structure Aloof (P : PrefixCachingBlockAllocator ε → Prop) : Prop where
  stable : Stable P
  hashless : ∀ s hashlessAllocator, P s → P { s with hashlessAllocator }
  copies : ∀ s cowTracker, P s → P { s with cowTracker }

section
variable {P : PrefixCachingBlockAllocator ε → Prop}

theorem onSelf_keeps (inner : Preserves P method) :
    Preserves (fun s : Heaped (PrefixCachingBlockAllocator ε) => P s.self) (onSelf method) :=
  .zoom inner (fun _ holds => holds) fun _ _ _ holds => holds

theorem onHashless_keeps (aloof : Aloof P) (method : Method (Heaped NaiveBlockAllocator) β) :
    Preserves (fun s : Heaped (PrefixCachingBlockAllocator ε) => P s.self) (onHashless method) :=
  .apart method fun s t holds => aloof.hashless s.self t.self holds

theorem presentBlockId_keeps (r : BlockRef) :
    Preserves (fun s : Heaped (PrefixCachingBlockAllocator ε) => P s.self) (presentBlockId r) := by
  intro s holds
  unfold presentBlockId
  rw [wp_bind, wp_get]
  cases (s.block r).blockId <;> exact holds

theorem decrRefcountHashlessBlock_keeps (aloof : Aloof P) (r : BlockRef) :
    Preserves (fun s : Heaped (PrefixCachingBlockAllocator ε) => P s.self) (decrRefcountHashlessBlock r) :=
  .bind (presentBlockId_keeps r) fun b => .bind (onSelf_keeps (untrackIfLast_stable aloof.stable b)) fun _ =>
    onHashless_keeps aloof _

theorem allocateBlockId_keeps [Evictor ε] (aloof : Aloof P) :
    Preserves (fun s : Heaped (PrefixCachingBlockAllocator ε) => P s.self) allocateBlockId := by
  have hashless : Preserves (fun s : Heaped (PrefixCachingBlockAllocator ε) => P s.self)
      allocateHashlessBlockId :=
    .bind (onHashless_keeps aloof _) fun r => .bind (presentBlockId_keeps r) fun b =>
      .bind (onHashless_keeps aloof _) fun _ =>
        .bind (onSelf_keeps (trackBlockId_stable aloof.stable b false)) fun _ => .pure _
  refine .bind (.catching _ _ hashless) fun found => ?_
  cases found with
  | some b => exact .pure b
  | none =>
    refine .bind (onSelf_keeps (maybeAllocateEvictedBlockId_stable aloof.stable)) fun found => ?_
    cases found with
    | some b => exact .pure b
    | none => exact .throw _

theorem appendInner_keeps [Evictor ε] (aloof : Aloof P) (r : BlockRef) (tokenIds : List TokenId) :
    Preserves (fun s : Heaped (PrefixCachingBlockAllocator ε) => P s.self) (appendInner r tokenIds) := by
  refine .bind .get fun s => .bind (.apart _ fun _ _ holds => holds) fun _ => ?_
  cases (s.block r).blockId with
  | none => exact .pure _
  | some b =>
    refine .bind (.bind (presentBlockId_keeps r) fun b => .bind (onSelf_keeps (isAppendable_stable aloof.stable b))
      fun _ => .ite (.pure _) ?_) fun _ => .modify fun _ holds => holds
    exact .bind (decrRefcountHashlessBlock_keeps aloof r) fun _ => .bind (allocateBlockId_keeps aloof) fun _ =>
      .bind (.modify fun s holds => aloof.copies s.self _ holds) fun _ => .pure _

def NoneRegistered (s t : PrefixCachingBlockAllocator ε) : Prop :=
  ∀ h b, t.cachedBlocks.get? h = some b → s.cachedBlocks.get? h = some b

theorem noneRegistered_aloof (s : PrefixCachingBlockAllocator ε) : Aloof (NoneRegistered s) := by
  refine ⟨⟨fun _ _ kept => kept, fun _ _ kept => kept, fun _ _ kept => kept, fun t h kept k b found => ?_⟩,
    fun _ _ kept => kept, fun _ _ kept => kept⟩
  rw [Dict.get?_erase] at found
  split at found
  · cases found
  · exact kept k b found

end

end PrefixCachingBlockAllocator
end Vllm
