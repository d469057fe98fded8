import VllmProofs.V1.ScheduleRounds

/-!
What `allocate_slots` cannot raise: the assertions of `schedule`, which calls it.
-/

namespace Vllm.V1
open Exec

/-- The exceptions of the assertions that stand in `schedule` itself. -/
def ownAssertions : List Raised :=
  [Assertion.numNewTokensPositive, .atMostMaxLoras, .withinTokenBudget, .withinMaxNumSeqs, .scheduledAreRunning].map
    .assertionError

theorem ne_of_own {e e' : Raised} (own : e ∈ ownAssertions) (foreign : e' ∉ ownAssertions) : e' ≠ e := by
  rintro rfl
  exact foreign own

theorem Elsewhere.foreign {e : Raised} (elsewhere : Elsewhere e) : e ∉ ownAssertions := by
  intro own
  obtain ⟨assertion, member, rfl⟩ := List.mem_map.mp own
  exact elsewhere assertion (List.mem_of_mem_drop (i := 2) member) rfl

namespace BlockPool

variable {e : Raised}

theorem getNewBlock_avoids (own : e ∈ ownAssertions) : Avoids e getNewBlock := by
  have evicts (b : BlockId) : Avoids e (maybeEvictCachedBlock b) := by
    apply Avoids.bind Avoids.get
    intro s
    split
    · exact Avoids.pure _
    · split
      · exact Avoids.pure _
      · exact Avoids.bind (Avoids.modify _) fun _ => Avoids.bind (getItem_avoids (ne_of_own own (by decide)))
          fun _ => Avoids.bind (Avoids.modify _) fun _ => Avoids.pure _
  have pops : Avoids e FreeKVCacheBlockQueue.popleft := by
    apply Avoids.bind Avoids.get
    intro q
    split
    · exact Avoids.throw (ne_of_own own (by decide))
    · exact Avoids.bind (Avoids.set _) fun _ => Avoids.pure _
  have evictsIfCaching (b : BlockId) : Avoids e (evictIfCaching b) := by
    apply Avoids.bind Avoids.get
    intro s
    exact Avoids.ite (Avoids.bind (evicts b) fun _ => Avoids.pure _) (Avoids.pure _)
  apply Avoids.bind (Avoids.zoom pops)
  intro b
  apply Avoids.bind Avoids.get
  intro s
  apply Avoids.bind (check_avoids (ne_of_own own (by decide)))
  intro _
  exact Avoids.bind (evictsIfCaching b) fun _ => Avoids.bind (Avoids.modify _) fun _ => Avoids.pure _

theorem getNewBlocks_avoids (own : e ∈ ownAssertions) (n : ℤ) : Avoids e (getNewBlocks n) := by
  have each (n : ℕ) : Avoids e (getEach n) := by
    induction n with
    | zero => exact Avoids.pure _
    | succ n ih => exact Avoids.bind (getNewBlock_avoids own) fun _ => Avoids.bind ih fun _ => Avoids.pure _
  apply Avoids.bind Avoids.get
  intro s
  exact Avoids.ite (Avoids.throw (ne_of_own own (by decide))) (each _)

theorem touch_avoids (blocks : List BlockId) : Avoids e (touch blocks) := by
  apply Avoids.forM
  intro b
  apply Avoids.bind Avoids.get
  intro s
  exact Avoids.ite (Avoids.set _) (Avoids.set _)

variable [TupleHash] {request : Request}

theorem blockHashAt_foreign {blockSize i : ℕ} {numCached : ℤ} {newHashes hashes : List BlockHash} {prev : Option ℤ}
    (raised : blockHashAt request blockSize numCached newHashes i prev hashes = .error e) : e ∉ ownAssertions := by
  unfold blockHashAt at raised
  split at raised
  · cases raised
  · cases next : nextBlockHash request blockSize (numCached + i) prev with
    | ok h =>
      rw [next] at raised
      cases raised
    | error e' =>
      rw [next] at raised
      cases raised
      unfold nextBlockHash at next
      dsimp only at next
      split at next
      · cases next
        decide
      · unfold generateBlockHashExtraKeys at next
        cases keys : genMmExtraHashKeys request ((numCached + i) * blockSize) ((numCached + i + 1) * blockSize) (-1) with
        | ok found =>
          rw [keys] at next
          cases next
        | error e'' =>
          rw [keys] at next
          cases next
          exact (genMmExtraHashKeys_elsewhere keys).foreign

theorem cacheLoop_avoids (own : e ∈ ownAssertions) (request : Request) (blockSize : ℕ) (numCached : ℤ)
    (newHashes : List BlockHash) (i : ℕ) (blocks : List BlockId) (prev : Option ℤ) (hashes : List BlockHash) :
    Avoids e (cacheLoop request blockSize numCached newHashes i blocks prev hashes) := by
  induction blocks generalizing i prev hashes with
  | nil => exact Avoids.pure _
  | cons b rest ih =>
    unfold cacheLoop
    apply Avoids.bind Avoids.get
    intro s
    apply Avoids.bind (check_avoids (ne_of_own own (by decide)))
    intro _
    split
    · rename_i raised
      exact Avoids.throw (ne_of_own own (blockHashAt_foreign raised))
    · exact Avoids.bind (Avoids.modify _) fun _ => ih _ _ _

theorem cacheFullBlocks_avoids (own : e ∈ ownAssertions) (request : Request) (blocks : List BlockId)
    (hashes : List BlockHash) (numCached numFull : ℤ) (blockSize : ℕ) :
    Avoids e (cacheFullBlocks request blocks hashes numCached numFull blockSize) := by
  have prev : Avoids e (prevHashValue blocks numCached) := by
    apply Avoids.ite
    · exact Avoids.pure _
    · apply Avoids.bind (getItem_avoids (ne_of_own own (by decide)))
      intro b
      apply Avoids.bind Avoids.get
      intro s
      exact Avoids.bind (getItem_avoids (ne_of_own own (by decide))) fun _ => Avoids.pure _
  apply Avoids.ite
  · exact Avoids.pure _
  · apply Avoids.bind (check_avoids (ne_of_own own (by decide)))
    intro _
    exact Avoids.bind prev fun _ => cacheLoop_avoids own _ _ _ _ _ _ _ _

end BlockPool

namespace KVCacheManager

variable [TupleHash] {e : Raised}

theorem allocateSlots_avoids (own : e ∈ ownAssertions) (request : Request) (n : ℕ) (hits : List BlockId) :
    Avoids e (allocateSlots request n hits) := by
  have takes : Avoids e (takeComputedBlocks request.requestId hits) := by
    apply Avoids.bind
    · apply Avoids.bind Avoids.get
      intro s
      exact Avoids.ite (Avoids.zoom (BlockPool.touch_avoids hits)) (check_avoids (ne_of_own own (by decide)))
    · exact fun _ => Avoids.modify _
  have gets (k : ℤ) : Avoids e (getBlocks request.requestId k) := by
    apply Avoids.ite
    · exact Avoids.pure _
    · apply Avoids.bind Avoids.get
      intro s
      apply Avoids.bind (check_avoids (ne_of_own own (by decide)))
      intro _
      exact Avoids.bind (Avoids.zoom (BlockPool.getNewBlocks_avoids own _)) fun _ =>
        Avoids.bind (Avoids.modify _) fun _ => Avoids.pure _
  have caches : Avoids e (cacheIfCaching request n hits) := by
    apply Avoids.bind Avoids.get
    intro s
    apply Avoids.ite
    · apply Avoids.bind Avoids.get
      intro s
      exact Avoids.bind (Avoids.zoom (BlockPool.cacheFullBlocks_avoids own _ _ _ _ _ _)) fun _ => Avoids.modify _
    · exact Avoids.pure _
  apply Avoids.bind Avoids.get
  intro s
  apply Avoids.ite
  · exact Avoids.throw (ne_of_own own (by decide))
  · apply Avoids.ite
    · exact Avoids.pure _
    · exact Avoids.bind takes fun _ => Avoids.bind (gets _) fun _ => Avoids.bind caches fun _ => Avoids.pure _

end KVCacheManager
end Vllm.V1
