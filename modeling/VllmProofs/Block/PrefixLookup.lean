import VllmProofs.Block.PrefixCachingCall
import VllmProofs.Block.Trackers
import VllmProofs.Data.Bisect
import VllmProofs.Data.Runs

/-!
`find_cached_blocks_prefix` bisects for the end of the cached prefix of a hash chain. It finds it
unless the bisection meets a cached block past the end.
-/

namespace Vllm
open Exec Heaped Evictor

namespace PrefixCachingBlockAllocator

variable {ε : Type} [Evictor ε]

def isCached (s : PrefixCachingBlockAllocator ε) (blockHash : PrefixHash) : Bool :=
  match s.cachedBlocks.get? blockHash with
  | none => false
  | some blockId =>
    match s.blockTracker.get? blockId with
    | none => false
    | some tracker => if tracker.active then tracker.computed else contains s.evictor blockId

/-- The hashes of a chain up to the first that is not cached. -/
def cachedPrefix (s : PrefixCachingBlockAllocator ε) (blockHashes : List PrefixHash) :
    List PrefixHash := blockHashes.takeWhile s.isCached

variable {s : PrefixCachingBlockAllocator ε} {ids : Finset BlockId}

theorem blockIsCached_eq (known : s.Known ids fun _ => True) (h : PrefixHash) :
    blockIsCached h s = .ok (s.isCached h) s := by
  unfold blockIsCached isCached
  rw [get_bind]
  cases found : s.cachedBlocks.get? h with
  | none => rfl
  | some b =>
    have tracked := (known.tracked b).mpr (known.named h b found)
    obtain ⟨tracker, entry⟩ := Option.isSome_iff_exists.mp tracked
    have same : trackerOf b s = .ok tracker s := by simp [trackerOf, entry]
    simp only [entry]
    unfold blockIsComputed
    rw [bind_of_ok same]
    cases tracker.active <;> rfl

theorem bisectLeft_eq (known : s.Known ids fun _ => True) (hashes : List PrefixHash)
    (rounds lo hi : ℕ) : bisectLeft hashes rounds lo hi s =
      .ok (bisect (fun i => s.isCached (hashes.getD i 0)) rounds lo hi) s := by
  induction rounds generalizing lo hi with
  | zero => rfl
  | succ rounds ih =>
    unfold bisectLeft bisect
    by_cases order : lo < hi
    · simp only [order, ↓reduceIte]
      rw [bind_of_ok (blockIsCached_eq known _)]
      cases s.isCached (hashes.getD ((lo + hi) / 2) 0) with
      | true => exact ih _ hi
      | false => exact ih lo _
    · simp only [order, ↓reduceIte]
      rfl

omit [Evictor ε] in
theorem take_eq_takeWhile_iff {α : Type} {p : α → Bool} {xs : List α} {n : ℕ} (bounded : n ≤ xs.length) :
    xs.take n = xs.takeWhile p ↔ n = (xs.takeWhile p).length := by
  constructor
  · intro same
    rw [← same, List.length_take, min_eq_left bounded]
  · rintro rfl
    exact (List.prefix_iff_eq_take.mp (List.takeWhile_prefix p)).symm

/-- The bisection finds the cached prefix unless it looks at a cached block past its end. -/
theorem findCachedBlocksPrefix_eq_iff (known : s.Known ids fun _ => True)
    (hashes : List PrefixHash) :
    findCachedBlocksPrefix hashes s = .ok (s.cachedPrefix hashes) s ↔
      ∀ mid ∈ midpoints (s.cachedPrefix hashes).length hashes.length 0 hashes.length,
        (s.cachedPrefix hashes).length ≤ mid → s.isCached (hashes.getD mid 0) = false := by
  have holds : ∀ i < (s.cachedPrefix hashes).length, s.isCached (hashes.getD i 0) = true := by
    intro i inside
    have before := (List.takeWhile_prefix s.isCached (l := hashes)).length_le
    have member : hashes.getD i 0 ∈ s.cachedPrefix hashes := by
      rw [List.getD_eq_getElem _ _ (inside.trans_le before)]
      have same := (List.takeWhile_prefix s.isCached (l := hashes)).getElem inside
      exact same ▸ List.getElem_mem inside
    exact List.mem_takeWhile_imp member
  have bounded : (s.cachedPrefix hashes).length ≤ hashes.length :=
    (List.takeWhile_prefix s.isCached).length_le
  rw [← bisect_eq_iff (p := fun i => s.isCached (hashes.getD i 0)) (by omega) (by omega) bounded holds]
  unfold findCachedBlocksPrefix
  rw [bind_of_ok (bisectLeft_eq known hashes _ _ _), pure_apply]
  rw [EStateM.Result.ok.injEq, and_iff_left rfl]
  exact take_eq_takeWhile_iff (bisect_le (Nat.zero_le _))

/-- Whatever calls were made, and however they ended, a lookup finds the cached prefix exactly
when its bisection looks at no cached block past the end. -/
theorem run_findCachedBlocksPrefix [PythonHash] [Numpy] (device : Device) (blockSize : ℕ)
    (blockIds : List BlockId) (evictor : ε) (o : Objects) (calls : List Call)
    (s : Heaped (PrefixCachingBlockAllocator ε))
    (run : Run (fun s call t => t = after call.exec s) ⟨o, init device blockSize blockIds evictor⟩ calls s)
    (hashes : List PrefixHash) :
    findCachedBlocksPrefix hashes s.self = .ok (s.self.cachedPrefix hashes) s.self ↔
      ∀ mid ∈ midpoints (s.self.cachedPrefix hashes).length hashes.length 0 hashes.length,
        (s.self.cachedPrefix hashes).length ≤ mid → s.self.isCached (hashes.getD mid 0) = false := by
  have known : s.self.Known blockIds.toFinset fun _ => True := by
    refine run.invariant (I := fun _ t => t.self.Known blockIds.toFinset fun _ => True)
      (init_known _ _ _ trivial) ?_
    rintro _ t call _ known rfl
    exact (exec_knows kept_true call fun hashes hint _ => observeCacheAccesses_known hashes hint).after known
  exact findCachedBlocksPrefix_eq_iff known hashes

/-- A hash that tells short chains of small tokens apart. -/
abbrev digitsHash : PythonHash where
  noneHash := -1
  tuple _ prevBlockHash tokenIds _ := (prevBlockHash.getD 0 + 1) * 10 + tokenIds.sum

abbrev identityNumpy : Numpy := ⟨fun x => x⟩

/-- Two blocks of one sequence are freed, and the next allocation evicts the first of them. -/
def freedChain : List Call :=
  [.allocateMutableBlock none none, .free ⟨.gpu, 1⟩, .free ⟨.gpu, 0⟩,
    .allocateImmutableBlock (some ⟨.gpu, 0⟩) [2] none, .allocateImmutableBlock none [1] none]

def twoBlocks : Heaped (PrefixCachingBlockAllocator PDPEvictor) :=
  ⟨∅, init .gpu 1 [0, 1] (PDPEvictor.init {})⟩

/-- The states a list of calls leads to, latest call first. -/
def callAll [PythonHash] [Numpy] (start : Heaped (PrefixCachingBlockAllocator ε)) :
    List Call → Heaped (PrefixCachingBlockAllocator ε)
  | [] => start
  | call :: rest => after call.exec (callAll start rest)

theorem callAll_run [PythonHash] [Numpy] (start : Heaped (PrefixCachingBlockAllocator ε))
    (calls : List Call) :
    Run (fun s call t => t = after call.exec s) start calls (callAll start calls) := by
  induction calls with
  | nil => exact .start
  | cons call rest ih => exact .call ih rfl

def freedChainHashes : List PrefixHash :=
  @ComputedBlocksTracker.hashBlocks digitsHash none (-1) [[1], [2]]

/-- The allocator once the first block of the chain has been evicted. -/
def evictedHead : PrefixCachingBlockAllocator PDPEvictor :=
  (@callAll PDPEvictor _ digitsHash identityNumpy twoBlocks freedChain).self

theorem evictedHead_lookup :
    result? (findCachedBlocksPrefix freedChainHashes) evictedHead = some freedChainHashes ∧
      evictedHead.cachedPrefix freedChainHashes = [] := by
  decide +kernel

theorem evictedHead_not_prefix : findCachedBlocksPrefix freedChainHashes evictedHead ≠
    .ok (evictedHead.cachedPrefix freedChainHashes) evictedHead := by
  intro call
  obtain ⟨found, cached⟩ := evictedHead_lookup
  rw [result?_eq_some.mpr ⟨_, call⟩, cached] at found
  exact absurd found (by decide)

theorem run_findCachedBlocksPrefix_freedChain :
    ¬ ∀ mid ∈ midpoints (evictedHead.cachedPrefix freedChainHashes).length freedChainHashes.length 0
        freedChainHashes.length,
      (evictedHead.cachedPrefix freedChainHashes).length ≤ mid →
        evictedHead.isCached (freedChainHashes.getD mid 0) = false := fun condition =>
  evictedHead_not_prefix ((@run_findCachedBlocksPrefix PDPEvictor _ digitsHash identityNumpy .gpu 1
    [0, 1] (PDPEvictor.init {}) ∅ freedChain _
    (@callAll_run PDPEvictor _ digitsHash identityNumpy twoBlocks freedChain) freedChainHashes).mpr
    condition)

/-- The first block of the chain is gone, and the lookup still returns both hashes. -/
theorem evicted_head_found : ¬ ∀ (hash : PythonHash) (numpy : Numpy) (calls : List Call)
    (s : Heaped (PrefixCachingBlockAllocator PDPEvictor)),
    Run (fun s call t => t = after (@Call.exec _ hash _ numpy call) s) twoBlocks calls s →
    ∀ blocks : List (List TokenId),
      findCachedBlocksPrefix (@ComputedBlocksTracker.hashBlocks hash none hash.noneHash blocks)
        s.self = .ok (s.self.cachedPrefix
          (@ComputedBlocksTracker.hashBlocks hash none hash.noneHash blocks)) s.self := by
  intro claim
  exact evictedHead_not_prefix (claim digitsHash identityNumpy freedChain _
    (@callAll_run PDPEvictor _ digitsHash identityNumpy twoBlocks freedChain) [[1], [2]])

end PrefixCachingBlockAllocator
end Vllm
