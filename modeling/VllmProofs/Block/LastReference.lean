import VllmProofs.Block.HashChain
import VllmProofs.Block.PrefixLookup
import VllmProofs.Evictor.Lawful
import VllmProofs.Evictor.LruMlAdd
import VllmProofs.Evictor.LruMlOutdated

/-!
Freeing the last reference to an immutable block. The count is down to zero before the evictor is
asked to take the block, so the allocator keeps its promise only as long as `add` does not raise.
-/

namespace Vllm
open Exec Heaped Evictor

namespace PrefixCachingBlockAllocator

section
variable {ε τ : Type} [PythonHash] [Evictor ε]

/-- The block holds the last reference to an id that is registered under its hash and tracked. -/
structure LastReference (s : Heaped (PrefixCachingBlockAllocator ε)) (r : BlockRef) (b : BlockId)
    (h : PrefixHash) (tracker : BlockTracker) : Prop where
  present : (s.block r).blockId = some b
  immutable : ∃ u, contentHash r s = .ok (some h) u
  registered : s.self.cachedBlocks.contains h = true
  last : s.self.refcounts.get? b = some 1
  tracked : s.self.blockTracker.get? b = some tracker
  active : tracker.active = true

/-- `_free_block_id` moves a block that was never accessed to the evictor, and where it raises it
leaves the evictor's tables, the counts and the trackers as they were. -/
def FreesCleanly (tables : ε → τ) (s : Heaped (PrefixCachingBlockAllocator ε)) (r : BlockRef) (b : BlockId)
    (tracker : BlockTracker) : Prop :=
  (tracker.lastAccessed = defaultLastAccessedTime → tracker.cacheHint = none →
    ∃ t, freeBlockId r s = .ok () t ∧ contains t.self.evictor b = true) ∧
  ∀ e t, freeBlockId r s = .error e t → tables t.self.evictor = tables s.self.evictor ∧
    t.self.refcounts = s.self.refcounts ∧ t.self.blockTracker = s.self.blockTracker

variable {s : Heaped (PrefixCachingBlockAllocator ε)} {r : BlockRef} {b : BlockId} {h : PrefixHash}
  {tracker : BlockTracker}

/-- The free is what `add` makes of it, with the count at zero either way. -/
theorem LastReference.freeBlockId_wp (reference : LastReference s r b h tracker) :
    wp (freeBlockId r)
      (fun _ t => add b h (s.block r).cachedNumTokensTotal tracker.lastAccessed tracker.cacheHint
        s.self.evictor = .ok () t.self.evictor)
      (fun e t => add b h (s.block r).cachedNumTokensTotal tracker.lastAccessed tracker.cacheHint
        s.self.evictor = .error e t.self.evictor ∧ t.self.refcounts.get? b = some 0) s := by
  obtain ⟨present, ⟨u, read⟩, registered, last, tracked, active⟩ := reference
  obtain ⟨self, rehashed⟩ := contentHash_ok read
  have unhashed : (u.block r).unhashed = (s.block r).unhashed := rehashed r
  have total : (u.block r).unhashed.cachedNumTokensTotal = (s.block r).unhashed.cachedNumTokensTotal :=
    congrArg _ unhashed
  have same : (u.block r).blockId = some b ∧
      (u.block r).cachedNumTokensTotal = (s.block r).cachedNumTokensTotal :=
    ⟨(congrArg Block.blockId unhashed).trans present, total⟩
  unfold freeBlockId decrRefcountCachedBlock releaseCached retire
  simp only [wp_bind, wp_presentBlockId present, wp_of_ok read, wp_presentBlockId same.1, wp_get, wp_onSelf,
    wp_modify, self, wp_decr last, lt_self_iff_false, ↓reduceIte, wp_assertThat]
  refine ⟨fun _ => ?_, fun absent => absurd registered absent⟩
  rw [wp_trackerOf (show (s.self.setRefcount b 0).blockTracker.get? b = some tracker from tracked)]
  simp only [onEvictor, wp_zoom, same.2]
  refine wp_intro (fun _ e added => ?_) fun error e raised => ⟨raised, ?_⟩
  · refine (wp_untrackBlockId ?_ active).mpr ?_
    · exact tracked
    · exact added
  · exact Dict.get?_insert_self _ _ _

/-- The promise is kept just when `add` returns. -/
theorem LastReference.freesCleanly_iff (tables : ε → τ) (reference : LastReference s r b h tracker)
    (parks : ∀ n e, add b h n tracker.lastAccessed tracker.cacheHint s.self.evictor = .ok () e →
      contains e b = true) :
    FreesCleanly tables s r b tracker ↔ ∃ e, add b h (s.block r).cachedNumTokensTotal
      tracker.lastAccessed tracker.cacheHint s.self.evictor = .ok () e := by
  have freed := reference.freeBlockId_wp
  cases call : freeBlockId r s with
  | ok u t =>
    have added := freed.ok call
    refine iff_of_true ⟨fun _ _ => ⟨t, call, parks _ _ added⟩, fun e t raised => ?_⟩ ⟨_, added⟩
    rw [call] at raised
    cases raised
  | error e t =>
    obtain ⟨raised, dropped⟩ := freed.error call
    refine iff_of_false (fun cleanly => ?_) fun ⟨e', added⟩ => by rw [raised] at added; cases added
    have kept := (cleanly.2 e t call).2.1
    rw [kept, reference.last] at dropped
    cases dropped

end

variable [PythonHash]

/-- The evictor apart from the clock it reads. -/
def untimed (s : LRUMLEvictor) : LRUMLEvictor :=
  { s with clock := { readings := fun _ => 0 } }

/-- Every free is clean with an LRU or a PDP evictor; with LRUML it is where nothing `add` looks up
is missing. -/
theorem lastReference_freesCleanly_iff [Numpy] :
    (∀ (s : Heaped (PrefixCachingBlockAllocator LRUEvictor)) r b h tracker,
      LastReference s r b h tracker → FreesCleanly id s r b tracker) ∧
    (∀ (s : Heaped (PrefixCachingBlockAllocator PDPEvictor)) r b h tracker,
      LastReference s r b h tracker → FreesCleanly id s r b tracker) ∧
    ∀ (s : Heaped (PrefixCachingBlockAllocator LRUMLEvictor)) r b h tracker,
      LastReference s r b h tracker → (FreesCleanly untimed s r b tracker ↔
        LRUMLEvictor.Addable s.self.evictor b tracker.lastAccessed tracker.cacheHint) := by
  refine ⟨fun s r b h tracker reference => ?_, fun s r b h tracker reference => ?_,
    fun s r b h tracker reference => ?_⟩
  · refine (reference.freesCleanly_iff id fun n e added => ?_).mpr ⟨_, rfl⟩
    have parked : residents e = insert b (residents s.self.evictor) := LawfulEvictor.add_ok added
    show b ∈ residents e
    rw [parked]
    exact Set.mem_insert b _
  · refine (reference.freesCleanly_iff id fun n e added => ?_).mpr ?_
    · obtain ⟨record, -, -, -, call⟩ := PDPEvictor.add_eq s.self.evictor b h n tracker.lastAccessed tracker.cacheHint
      obtain ⟨-, rfl⟩ := pure_ok (call.symm.trans added)
      exact Dict.contains_iff.mpr ⟨record, Dict.get?_insert_self _ _ _⟩
    · obtain ⟨record, -, -, -, call⟩ := PDPEvictor.add_eq s.self.evictor b h
        (s.block r).cachedNumTokensTotal tracker.lastAccessed tracker.cacheHint
      exact ⟨_, call⟩
  · refine (reference.freesCleanly_iff untimed fun n e added => ?_).trans LRUMLEvictor.add_returns_iff
    obtain ⟨id, -, gains⟩ := LRUMLEvictor.add_gains added
    obtain ⟨block, resident, -⟩ := Option.map_eq_some_iff.mp gains.use
    exact Dict.contains_iff.mpr ⟨block, resident⟩

omit [PythonHash]

/-- An allocator whose only block has just been promoted. -/
def promoted {ε : Type} [Evictor ε] (evictor : ε) : Heaped (PrefixCachingBlockAllocator ε) :=
  after (@allocateImmutableBlock ε digitsHash _ none [5] none) ⟨∅, init .gpu 1 [0] evictor⟩

theorem promoted_reference_of {ε : Type} [Evictor ε] {evictor : ε}
    (read : ((promoted evictor).block ⟨.gpu, 0⟩).blockId = some 0 ∧
      result? (@contentHash ε digitsHash ⟨.gpu, 0⟩) (promoted evictor) = some (some 5) ∧
      (promoted evictor).self.cachedBlocks.contains 5 = true ∧
      (promoted evictor).self.refcounts.get? 0 = some 1 ∧
      (promoted evictor).self.blockTracker.get? 0 = some { active := true }) :
    @LastReference ε digitsHash (promoted evictor) ⟨.gpu, 0⟩ 0 5 { active := true } := by
  obtain ⟨present, immutable, registered, last, tracked⟩ := read
  let _ := digitsHash
  exact ⟨present, result?_eq_some.mp immutable, registered, last, tracked, rfl⟩

open LRUMLEvictor (unscheduled noPrediction)

theorem promoted_lru : @LastReference LRUEvictor digitsHash (promoted {}) ⟨.gpu, 0⟩ 0 5 { active := true } :=
  promoted_reference_of (by decide +kernel)

theorem promoted_lruml : let _ := noPrediction
    @LastReference LRUMLEvictor digitsHash (promoted unscheduled) ⟨.gpu, 0⟩ 0 5 { active := true } :=
  let _ := noPrediction
  promoted_reference_of (by decide +kernel)

theorem lastReference_freesCleanly_promoted : let _ := digitsHash; let _ := noPrediction
    FreesCleanly id (promoted (ε := LRUEvictor) {}) ⟨.gpu, 0⟩ 0 { active := true } ∧
      ¬FreesCleanly untimed (promoted unscheduled) ⟨.gpu, 0⟩ 0 { active := true } := by
  intro hash numpy
  have clean := @lastReference_freesCleanly_iff hash numpy
  refine ⟨clean.1 _ _ _ _ _ promoted_lru, fun cleanly => ?_⟩
  obtain ⟨id, missing, -⟩ := (clean.2.2 _ _ _ _ _ promoted_lruml).mp cleanly
  cases missing

/-- Swapped out, the block is in the evictor's table with its count at zero, and `add` has raised. -/
theorem promoted_swapOut : let _ := digitsHash; let _ := noPrediction
    raised? (swapOut [⟨.gpu, 0⟩]) (promoted unscheduled) = some .typeError ∧
      (after (swapOut [⟨.gpu, 0⟩]) (promoted unscheduled)).self.refcounts.get? 0 = some 0 ∧
      (after (swapOut [⟨.gpu, 0⟩]) (promoted unscheduled)).self.evictor.freeTable.contains 0 = true := by
  decide +kernel

/-- The first promise, and the second, fail for it. -/
theorem unmarked_raises : ¬∀ (_ : PythonHash) (_ : Numpy)
    (s : Heaped (PrefixCachingBlockAllocator LRUMLEvictor)) (r : BlockRef) (b : BlockId) (h : PrefixHash)
    (tracker : BlockTracker), LastReference s r b h tracker → FreesCleanly untimed s r b tracker := by
  intro claim
  let _ := digitsHash
  let _ := noPrediction
  obtain ⟨t, freed, -⟩ := (claim digitsHash noPrediction _ _ _ _ _ promoted_lruml).1 rfl rfl
  obtain ⟨u, raised⟩ := raised?_eq_some.mp promoted_swapOut.1
  have returned : swapOut [⟨.gpu, 0⟩] (promoted unscheduled) = .ok ⟨⟩ t := bind_of_ok freed
  rw [returned] at raised
  cases raised

end PrefixCachingBlockAllocator
end Vllm
