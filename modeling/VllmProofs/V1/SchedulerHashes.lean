import VllmProofs.V1.Lockstep
import VllmProofs.V1.ScheduledBatch

/-!
The block hashes the scheduler's KV cache manager keeps are those of the tokens of live requests, as long
as no request has more drafts than tokens that are computed or scheduled.
-/

namespace Vllm.V1
open Exec Vllm.V1.BlockPool

namespace Scheduler

variable {s t : Scheduler} {ref : RequestRef} {p p' : Pass} [TupleHash]

structure Hashing (s : Scheduler) : Prop where
  coherent : s.kvCacheManager.Coherent
  counted : ∀ id n, s.kvCacheManager.numCachedBlock.get? id = some n → 0 ≤ n
  chained : ∀ id ref, s.requests.get? id = some ref →
    IsChain s.blockSize (s.objects ref).allTokenIds (s.kvCacheManager.hashesOf id)
  gone : ∀ id, s.requests.get? id = none → s.kvCacheManager.hashesOf id = []

theorem isChain_of_prefix {blockSize : ℕ} {tokens tokens' : List TokenId} {hashes : List BlockHash}
    (chained : IsChain blockSize tokens hashes) (longer : tokens <+: tokens') : IsChain blockSize tokens' hashes := by
  obtain ⟨more, rfl⟩ := longer
  exact chained.append

/-- The same requests are live, and a list of hashes that is another one belongs to one of them. -/
theorem Hashing.step (hashing : s.Hashing) (coherent : t.kvCacheManager.Coherent)
    (counted : ∀ id n, t.kvCacheManager.numCachedBlock.get? id = some n → 0 ≤ n)
    (blockSize : t.blockSize = s.blockSize) (requests : t.requests = s.requests)
    (evolves : ∀ ref, Evolves (s.objects ref) (t.objects ref))
    (hashes : ∀ id, t.kvCacheManager.hashesOf id = s.kvCacheManager.hashesOf id ∨
      ∃ ref, s.requests.get? id = some ref ∧
        IsChain s.blockSize (s.objects ref).allTokenIds (t.kvCacheManager.hashesOf id)) : t.Hashing := by
  refine ⟨coherent, counted, ?_, ?_⟩
  · intro id ref known
    rw [requests] at known
    rw [blockSize]
    apply isChain_of_prefix _ (evolves ref).allTokenIds
    rcases hashes id with same | ⟨ref', known', chained⟩
    · rw [same]
      exact hashing.chained id ref known
    · rw [known, Option.some.injEq] at known'
      rw [known']
      exact chained
  · intro id unknown
    rw [requests] at unknown
    rcases hashes id with same | ⟨ref', known, -⟩
    · rw [same]
      exact hashing.gone id unknown
    · rw [unknown] at known
      cases known

theorem Hashing.same (hashing : s.Hashing) (kv : t.kvCacheManager = s.kvCacheManager)
    (blockSize : t.blockSize = s.blockSize) (requests : t.requests = s.requests)
    (evolves : ∀ ref, Evolves (s.objects ref) (t.objects ref)) : t.Hashing := by
  apply hashing.step
  · rw [kv]
    exact hashing.coherent
  · rw [kv]
    exact hashing.counted
  · exact blockSize
  · exact requests
  · exact evolves
  · rw [kv]
    exact fun id => Or.inl rfl

/-! ### The moves of `schedule` -/

theorem Hashing.lookup {found : List BlockId} {manager : KVCacheManager} (hashing : s.Hashing)
    (blockSize : s.kvCacheManager.blockSize = s.blockSize) (live : s.requests.get? (s.objects ref).requestId = some ref)
    (looked : KVCacheManager.LookedUp (s.objects ref) found s.kvCacheManager manager) :
    (s.setKVCacheManager manager).Hashing := by
  have counts : manager.numCachedBlock = s.kvCacheManager.numCachedBlock := by rw [looked.unchanged]
  apply hashing.step
  · exact hashing.coherent.lookup looked
  · rw [setKVCacheManager_kvCacheManager, counts]
    exact hashing.counted
  · rfl
  · rfl
  · exact fun ref => Evolves.refl _
  · intro id
    show manager.hashesOf id = _ ∨ _
    by_cases mine : id = (s.objects ref).requestId
    · subst mine
      rcases looked.hashes with same | ⟨-, computed⟩
      · exact Or.inl same
      · refine Or.inr ⟨ref, live, ?_⟩
        rw [← blockSize]
        exact hashRequestTokens_isChain computed
    · exact Or.inl (looked.otherHashes id mine)

/-- `allocate_slots` hashes the blocks that its tokens fill. -/
theorem Hashing.allocate {n : ℕ} {hits blocks : List BlockId} {manager : KVCacheManager} (hashing : s.Hashing)
    (blockSize : s.kvCacheManager.blockSize = s.blockSize) (live : s.requests.get? (s.objects ref).requestId = some ref)
    (found : s.kvCacheManager.HitsOf (s.objects ref).requestId hits)
    (first : hits = [] ∨ s.kvCacheManager.blocksOf (s.objects ref).requestId = [])
    (covered : (s.objects ref).specTokenIds.length ≤ (s.objects ref).numComputedTokens + hits.length * s.blockSize + n)
    (got : KVCacheManager.allocateSlots (s.objects ref) n hits s.kvCacheManager = .ok (some blocks) manager)
    {u : Scheduler} (kv : u.kvCacheManager = manager) (size : u.blockSize = s.blockSize)
    (requests : u.requests = s.requests) (evolves : ∀ ref, Evolves (s.objects ref) (u.objects ref)) : u.Hashing := by
  have start : 0 ≤ s.kvCacheManager.numCachedBlocks (s.objects ref).requestId hits := by
    unfold KVCacheManager.numCachedBlocks
    cases count : s.kvCacheManager.numCachedBlock.get? (s.objects ref).requestId with
    | none => exact Int.natCast_nonneg _
    | some k => exact hashing.counted _ k count
  have full : 0 ≤ s.kvCacheManager.numFullBlocks (s.objects ref) n hits := by
    unfold KVCacheManager.numFullBlocks
    rw [blockSize]
    apply Int.ediv_nonneg
    · have cast : ((s.objects ref).specTokenIds.length : ℤ) ≤
          ((s.objects ref).numComputedTokens + hits.length * s.blockSize + n : ℕ) := Int.ofNat_le.mpr covered
      push_cast at cast
      omega
    · exact Int.natCast_nonneg _
  obtain ⟨coherent, extended⟩ := hashing.coherent.allocateSlots found first start full got
  have allocated := KVCacheManager.allocateSlots_ok hashing.coherent.sound
    (found.inside hashing.coherent.sound) got
  apply hashing.step
  · rw [kv]
    exact coherent
  · intro id k count
    rw [kv, allocated.numCachedBlock] at count
    split at count
    · rw [Dict.get?_insert] at count
      split at count
      · cases count
        exact full
      · exact hashing.counted id k count
    · exact hashing.counted id k count
  · exact size
  · exact requests
  · exact evolves
  · intro id
    rw [kv]
    by_cases mine : id = (s.objects ref).requestId
    · subst mine
      rw [blockSize] at extended
      exact Or.inr ⟨ref, live, extended.isChain (hashing.chained _ ref live)⟩
    · exact Or.inl (allocated.otherHashes id mine)

/-- Whoever is given tokens has no more drafts than tokens that are computed or given. -/
def CoversDrafts (s : Scheduler) : Prop :=
  s.AlwaysGives fun request numComputedTokens numNewTokens =>
    request.specTokenIds.length ≤ numComputedTokens + numNewTokens

theorem Hashing.move (serving : (putBack p s).Serving) (hashing : s.Hashing) (move : Move (s, p) (t, p'))
    (covers : ∀ ref c n, Gives s p ref c n → (s.objects ref).specTokenIds.length ≤ c + n) : t.Hashing := by
  obtain ⟨queued, holding⟩ := serving
  have blockSize : s.kvCacheManager.blockSize = s.blockSize := holding.blockSize
  have evolves := move.evolves
  cases move with
  | skip => exact hashing
  | recordLoras => exact hashing
  | setAside => exact hashing.same rfl rfl rfl evolves
  | wake =>
    apply hashing.same
    · unfold wake
      split <;> rfl
    · unfold wake
      split <;> rfl
    · unfold wake
      split <;> rfl
    · exact evolves
  | preempt attempt lacks last freed =>
    have done := KVCacheManager.free_ok hashing.coherent.sound freed
    apply hashing.step
    · exact hashing.coherent.free freed
    · intro id k count
      change Dict.get? (KVCacheManager.numCachedBlock _) id = some k at count
      rw [preempted_kvCacheManager, setKVCacheManager_kvCacheManager, done.numCachedBlock, Dict.get?_erase] at count
      split at count
      · cases count
      · exact hashing.counted id k count
    · rfl
    · rfl
    · exact evolves
    · intro id
      exact Or.inl (congrFun (KVCacheManager.hashesOf_of_reqToBlockHashes done.reqToBlockHashes) id)
  | @run _ _ ref plan newBlocks manager attempt got =>
    have live := (queued.known ref (List.mem_append_left _ attempt.running)).2
    apply hashing.allocate blockSize live (KVCacheManager.HitsOf.nil _ _) (Or.inl rfl) _ got
    · rfl
    · rfl
    · rfl
    · exact evolves
    · rw [List.length_nil, Nat.zero_mul, Nat.add_zero]
      exact covers ref _ _ (.running attempt got)
  | @lookup _ _ ref found manager turn lora looked =>
    have waits := turn.waits
    have live := (queued.known ref (List.mem_append_right _ waits)).2
    exact hashing.lookup blockSize live (KVCacheManager.getComputedBlocks_ok hashing.coherent.sound looked).2
  | @admitRequest _ _ ref hits newBlocks c n plan looked manager attempt status got =>
    have prepared := attempt.prepared holding.sound blockSize
    obtain ⟨all, k, -, lookedUp⟩ := prepared.found
    have waits := attempt.waits
    have live := (queued.known ref (List.mem_append_right _ waits)).2
    have fresh := (queued.waits ref waits).numComputedTokens
    have after := hashing.lookup blockSize live lookedUp
    have idle : (s.objects ref).requestId ∉ (putBack p s).runningIds := by
      intro member
      obtain ⟨ref', runs, named⟩ := List.mem_map.mp member
      have same := queued.unique (List.mem_append_left _ runs) (List.mem_append_right _ waits) named
      rw [same] at runs
      exact List.disjoint_of_nodup_append queued.nodup runs waits
    have none : looked.blocksOf (s.objects ref).requestId = [] := by
      rw [KVCacheManager.blocksOf_of_reqToBlocks (by rw [lookedUp.unchanged])]
      exact (holding.idle _ idle).1
    apply after.allocate (s := s.setKVCacheManager looked) _ live prepared.hitsOf (Or.inr none) _ got
    · rfl
    · rfl
    · rfl
    · exact evolves
    · show looked.blockSize = s.blockSize
      rw [lookedUp.unchanged]
      exact blockSize
    · have enough := covers ref _ _ (.waiting attempt got)
      rw [prepared.computed] at enough
      change (s.objects ref).numComputedTokens = 0 at fresh
      rw [setKVCacheManager_objects, setKVCacheManager_blockSize, fresh, Nat.zero_add]
      exact enough

theorem Hashing.moves (serving : s.Serving) (hashing : s.Hashing) (covers : s.CoversDrafts)
    (moves : Moves s s.startPass t p) : t.Hashing :=
  moves.invariant (I := fun u _ => u.Hashing) hashing fun u q _ _ before kept move =>
    kept.move (serving.moves before) move (covers u q before)

variable {out : SchedulerOutput}

theorem Hashing.schedule (serving : s.Serving) (hashing : s.Hashing) (covers : s.CoversDrafts)
    (call : schedule s = .ok out t) : t.Hashing := by
  obtain ⟨u, p, moves, scheduled⟩ := schedule_ok call
  rw [scheduled.state]
  exact (hashing.moves serving covers moves).same rfl rfl rfl fun ref => Evolves.refl _

/-! ### The other calls -/

omit [TupleHash] in
theorem coherent_freeBlockHashes {m m' : KVCacheManager} {request : Request} {u : Unit} (coherent : m.Coherent)
    (none : m.blocksOf request.requestId = []) (drop : KVCacheManager.freeBlockHashes request m = .ok u m') :
    m'.Coherent := by
  obtain ⟨unchanged, hashes⟩ := KVCacheManager.freeBlockHashes_ok drop
  have blocks : m'.blocksOf = m.blocksOf := KVCacheManager.blocksOf_of_reqToBlocks (by rw [unchanged])
  have held : m'.held = m.held := KVCacheManager.held_of_reqToBlocks (by rw [unchanged])
  have pool : m'.blockPool = m.blockPool := by rw [unchanged]
  refine ⟨⟨?_, ?_⟩, ?_, ?_⟩
  · rw [pool, held]
    exact coherent.sound.pool
  · rw [pool, unchanged]
    exact coherent.sound.caching
  · intro id i b h at_ hash
    rw [blocks] at at_
    rw [pool] at hash
    rw [hashes]
    by_cases mine : id = request.requestId
    · rw [mine, none] at at_
      cases at_
    · rw [Function.update_of_ne mine]
      exact coherent.aligned id i b h at_ hash
  · intro b unhashed
    rw [pool] at unhashed
    rw [held]
    exact coherent.single b unhashed

theorem Hashing.release {freed : KVCacheManager} (hashing : s.Hashing) (ref : RequestRef) (request : Request)
    (named : request.requestId = (s.objects ref).requestId)
    (free : KVCacheManager.free request s.kvCacheManager = .ok () freed)
    (drop : KVCacheManager.freeBlockHashes request freed = .ok () t.kvCacheManager)
    (blockSize : t.blockSize = s.blockSize) (requests : t.requests = s.requests.erase (s.objects ref).requestId)
    (evolves : ∀ ref, Evolves (s.objects ref) (t.objects ref)) : t.Hashing := by
  have done := KVCacheManager.free_ok hashing.coherent.sound free
  obtain ⟨unchanged, hashes⟩ := KVCacheManager.freeBlockHashes_ok drop
  have counts : t.kvCacheManager.numCachedBlock = freed.numCachedBlock := by rw [unchanged]
  have before := KVCacheManager.hashesOf_of_reqToBlockHashes done.reqToBlockHashes
  refine ⟨?_, ?_, ?_, ?_⟩
  · apply coherent_freeBlockHashes (hashing.coherent.free free) _ drop
    rw [done.blocksOf, Function.update_self]
  · intro id k count
    rw [counts, done.numCachedBlock, Dict.get?_erase] at count
    split at count
    · cases count
    · exact hashing.counted id k count
  · intro id ref' known
    rw [requests, Dict.get?_erase] at known
    split at known
    · cases known
    · rename_i other
      rw [blockSize, hashes, named, Function.update_of_ne other, before]
      exact isChain_of_prefix (hashing.chained id ref' known) (evolves ref').allTokenIds
  · intro id unknown
    rw [hashes, named, before]
    by_cases mine : id = (s.objects ref).requestId
    · rw [mine, Function.update_self]
    · rw [Function.update_of_ne mine]
      rw [requests, Dict.get?_erase, if_neg mine] at unknown
      exact hashing.gone id unknown

variable {finishedStatus : RequestStatus}

theorem Hashing.finishRequest {id : RequestId} {u : Unit} (hashing : s.Hashing)
    (call : finishRequest finishedStatus id s = .ok u t) : t.Hashing := by
  rcases finishRequest_ok call with ⟨-, rfl⟩ | ⟨ref, dequeued, found, left, -, -, freed, manager, free, drop, rfl⟩
  · exact hashing
  · have evolves : Evolves (s.objects ref) ((s.objects ref).setStatus finishedStatus) :=
      Evolves.of_same rfl rfl rfl rfl rfl rfl rfl rfl rfl
    rw [setRequest_objects, Function.update_self] at free drop
    cases left with
    | running =>
      apply hashing.release ref ((s.objects ref).setStatus finishedStatus)
      · rfl
      · exact free
      · exact drop
      · rfl
      · simp
      · apply evolves_update
        · rfl
        · exact evolves
    | waiting =>
      apply hashing.release ref ((s.objects ref).setStatus finishedStatus)
      · rfl
      · exact free
      · exact drop
      · rfl
      · simp
      · apply evolves_update
        · rfl
        · exact evolves

theorem Hashing.finishEach {ids : List RequestId} {u : PUnit} (hashing : s.Hashing)
    (call : ids.forM (Scheduler.finishRequest finishedStatus) s = .ok u t) : t.Hashing := by
  induction ids generalizing s with
  | nil =>
    cases call
    exact hashing
  | cons id rest ih =>
    obtain ⟨_, v, first, others⟩ := bind_ok call
    exact ih (hashing.finishRequest first) others

variable {result : ModelRunnerOutput}

theorem Hashing.updateRequest {sent : Option EngineCoreOutput}
    {stopped : Bool} (hashing : s.Hashing) (call : updateRequest out result ref s = .ok (sent, stopped) t) : t.Hashing := by
  rcases updateRequest_ok call with ⟨-, -, rfl⟩ | ⟨n, gen, new, request, -, -, updated⟩
  · exact hashing
  · have named := updated.evolves.requestId
    rcases updated.state with ⟨-, rfl⟩ | ⟨-, v, ⟨-, -, freed, manager, free, drop, rfl⟩, rfl⟩
    · apply hashing.same
      · rfl
      · rfl
      · rfl
      · apply evolves_update
        · rfl
        · exact updated.evolves
    · rw [setRequest_objects, Function.update_self] at free drop
      apply hashing.release ref request named free drop
      · simp
      · simp [named]
      · exact evolves_update (s := s) rfl updated.evolves

theorem Hashing.updateFromOutput
    {outputs : List EngineCoreOutput} (hashing : s.Hashing) (call : updateFromOutput out result s = .ok outputs t) : t.Hashing := by
  unfold Scheduler.updateFromOutput at call
  rw [get_bind] at call
  obtain ⟨found, v, updates, call⟩ := bind_ok call
  obtain ⟨sent, newRunning⟩ := found
  cases call
  have after := @updateEach_invariant s v out result (fun _ _ v => v.Hashing) s.running outputs newRunning
    (fun _ _ _ _ _ _ _ before updated => before.updateRequest updated) [] hashing updates
  exact after.same rfl rfl rfl fun _ => Evolves.refl _

theorem Hashing.between (serving : s.Serving) (hashing : s.Hashing) (between : Between s t) : t.Hashing := by
  cases between with
  | @add request unused new =>
    refine ⟨hashing.coherent, hashing.counted, ?_, ?_⟩
    · intro id ref known
      rw [addRequest_requests, Dict.get?_insert] at known
      split at known
      · rename_i mine
        show IsChain _ _ (s.kvCacheManager.hashesOf id)
        rw [mine, hashing.gone _ unused]
        exact IsChain.nil
      · obtain ⟨member, -⟩ := serving.queued.queued id ref known
        have older := (serving.queued.known ref member).1
        rw [addRequest_objects, setRequest_objects, Function.update_of_ne (Nat.ne_of_lt older)]
        exact hashing.chained id ref known
    · intro id unknown
      rw [addRequest_requests, Dict.get?_insert] at unknown
      split at unknown
      · cases unknown
      · exact hashing.gone id unknown
  | finish call =>
    unfold finishRequests at call
    obtain ⟨_, _, checked, call⟩ := bind_ok call
    obtain ⟨-, rfl⟩ := check_ok checked
    exact hashing.finishEach call
  | grammarReady ref =>
    apply hashing.same
    · rfl
    · rfl
    · rfl
    · apply evolves_update
      · rfl
      · exact Evolves.of_same rfl rfl rfl rfl rfl rfl rfl rfl rfl
  | resetPrefixCache call =>
    obtain ⟨manager, inner, rfl⟩ := zoom_ok call
    have was := KVCacheManager.resetPrefixCache_ok hashing.coherent.sound inner
    apply hashing.step
    · exact hashing.coherent.resetPrefixCache inner
    · rw [setKVCacheManager_kvCacheManager, was.numCachedBlock]
      exact hashing.counted
    · rfl
    · rfl
    · exact fun ref => Evolves.refl _
    · exact fun id => Or.inl (congrFun (KVCacheManager.hashesOf_of_reqToBlockHashes was.reqToBlockHashes) id)
  | update call => exact hashing.updateFromOutput call

/-! ### What a waiting request has left -/

/-- The blocks found for a request have no more slots than it has tokens, so that some tokens are left. -/
theorem hitsToUse_left {found : List BlockId × ℕ} {hits : List BlockId} {c left : ℕ} {looked : KVCacheManager}
    {u v : Scheduler} (serving : (putBack p s).Serving) (hashing : s.Hashing) (turn : WaitingTurn s p ref)
    (lookup : KVCacheManager.getComputedBlocks (s.objects ref) s.kvCacheManager = .ok found looked)
    (used : hitsToUse (s.objects ref) s.blockSize found u = .ok (hits, c, left) v) : 0 < left := by
  obtain ⟨queued, holding⟩ := serving
  have blockSize : s.kvCacheManager.blockSize = s.blockSize := holding.blockSize
  have positive : 0 < s.blockSize := holding.positive
  have waits := turn.waits
  have live := (queued.known ref (List.mem_append_right _ waits)).2
  have fits := (queued.fits ref (List.mem_append_right _ waits)).1
  obtain ⟨length, lookedUp⟩ := KVCacheManager.getComputedBlocks_ok hashing.coherent.sound lookup
  have chained := (hashing.lookup blockSize live lookedUp).chained _ ref live
  have short : found.1.length ≤ (looked.hashesOf (s.objects ref).requestId).length := by
    by_contra long
    rw [not_le] at long
    obtain ⟨h, -, at_⟩ := lookedUp.found _ _ (List.getElem?_eq_getElem long)
    exact absurd (List.getElem?_eq_some_iff.mp at_).1 (lt_irrefl _)
  obtain ⟨-, -, inside⟩ := chained
  have within : found.2 ≤ (s.objects ref).numTokens := by
    rw [length, blockSize]
    exact (Nat.mul_le_mul_right _ short).trans inside
  unfold hitsToUse at used
  split at used
  · obtain ⟨_, _, -, done⟩ := bind_ok used
    cases done
    exact positive
  · rename_i other
    cases used
    omega

theorem hashing_init (config : SchedulerConfig) : (init config).Hashing := by
  have sound := (serving_init config).holding.sound
  refine ⟨⟨sound, ?_, ?_⟩, nofun, nofun, fun _ _ => rfl⟩
  · intro id i b h at_
    cases at_
  · intro b _
    exact Nat.zero_le _

end Scheduler
end Vllm.V1
