import VllmProofs.V1.HashedBlocks
import VllmProofs.V1.ScheduleRounds
import VllmProofs.V1.SchedulerCalls

/-!
What holds of the scheduler between any two of its calls: each request is in one queue, only running
requests have blocks, and the blocks are counted right.
-/

namespace Vllm.V1
open Exec

structure Request.IsNew (r : Request) (maxModelLen : ℕ) : Prop where
  status : r.status = if r.samplingParams.guidedDecoding then .waitingForFsm else .waiting
  outputTokenIds : r.outputTokenIds = []
  specTokenIds : r.specTokenIds = []
  numComputedTokens : r.numComputedTokens = 0
  prompt : 0 < r.promptTokenIds.length
  short : r.promptTokenIds.length < maxModelLen
  maxTokens : 0 < r.samplingParams.maxTokens

instance (r : Request) (maxModelLen : ℕ) : Decidable (r.IsNew maxModelLen) :=
  decidable_of_iff (r.status = (if r.samplingParams.guidedDecoding then .waitingForFsm else .waiting) ∧
    r.outputTokenIds = [] ∧ r.specTokenIds = [] ∧ r.numComputedTokens = 0 ∧
    0 < r.promptTokenIds.length ∧ r.promptTokenIds.length < maxModelLen ∧ 0 < r.samplingParams.maxTokens)
    ⟨fun ⟨a, b, c, d, e, f, g⟩ => ⟨a, b, c, d, e, f, g⟩, fun ⟨a, b, c, d, e, f, g⟩ => ⟨a, b, c, d, e, f, g⟩⟩

structure Request.IsWaiting (r : Request) : Prop where
  status : r.status = .waiting ∨ r.status = .waitingForFsm ∨ r.status = .preempted
  numComputedTokens : r.numComputedTokens = 0

/-- A request that has not stopped has some tokens, and room for more. -/
def Request.Fits (r : Request) (maxModelLen : ℕ) : Prop := 0 < r.numTokens ∧ r.numTokens < maxModelLen

namespace Scheduler

structure Queued (s : Scheduler) : Prop where
  nodup : (s.running ++ s.waiting).Nodup
  known : ∀ ref ∈ s.running ++ s.waiting,
    ref < s.numObjects ∧ s.requests.get? (s.objects ref).requestId = some ref
  queued : ∀ id ref, s.requests.get? id = some ref →
    ref ∈ s.running ++ s.waiting ∧ (s.objects ref).requestId = id
  runs : ∀ ref ∈ s.running, (s.objects ref).status = .running
  waits : ∀ ref ∈ s.waiting, (s.objects ref).IsWaiting
  fits : ∀ ref ∈ s.running ++ s.waiting, (s.objects ref).Fits s.maxModelLen

def runningIds (s : Scheduler) : List RequestId := s.running.map fun ref => (s.objects ref).requestId

structure Holding (s : Scheduler) : Prop where
  sound : s.kvCacheManager.Sound
  blockSize : s.kvCacheManager.blockSize = s.blockSize
  positive : 0 < s.blockSize
  maxBlocks : s.kvCacheManager.maxNumBlocksPerReq = cdiv s.maxModelLen s.blockSize
  idle : ∀ id ∉ s.runningIds, s.kvCacheManager.blocksOf id = [] ∧ s.kvCacheManager.numCachedBlock.get? id = none

structure Serving (s : Scheduler) : Prop where
  queued : s.Queued
  holding : s.Holding

variable {s t : Scheduler} {ref ref' : RequestRef} {id : RequestId} {p p' : Pass}

/-! ### The queues -/

theorem Queued.unique (queued : s.Queued) (member : ref ∈ s.running ++ s.waiting)
    (member' : ref' ∈ s.running ++ s.waiting) (same : (s.objects ref).requestId = (s.objects ref').requestId) :
    ref = ref' := by
  have one := (queued.known ref member).2
  have two := (queued.known ref' member').2
  rw [same, two, Option.some.injEq] at one
  exact one.symm

theorem Queued.rearrange (queued : s.Queued) (perm : (t.running ++ t.waiting).Perm (s.running ++ s.waiting))
    (requests : t.requests = s.requests) (numObjects : t.numObjects = s.numObjects)
    (ids : ∀ ref, (t.objects ref).requestId = (s.objects ref).requestId)
    (runs : ∀ ref ∈ t.running, (t.objects ref).status = .running)
    (waits : ∀ ref ∈ t.waiting, (t.objects ref).IsWaiting)
    (fits : ∀ ref ∈ s.running ++ s.waiting, (t.objects ref).Fits t.maxModelLen) : t.Queued := by
  refine ⟨perm.nodup_iff.mpr queued.nodup, ?_, ?_, runs, waits, fun ref member => fits ref (perm.mem_iff.mp member)⟩
  · intro ref member
    rw [numObjects, requests, ids]
    exact queued.known ref (perm.mem_iff.mp member)
  · intro id ref found
    rw [requests] at found
    obtain ⟨member, named⟩ := queued.queued id ref found
    exact ⟨perm.mem_iff.mpr member, (ids ref).trans named⟩

variable {request : Request}

theorem requestId_update (objects : t.objects = Function.update s.objects ref request)
    (named : request.requestId = (s.objects ref).requestId) (ref' : RequestRef) :
    (t.objects ref').requestId = (s.objects ref').requestId := by
  rw [objects, Function.update_apply]
  split
  · rename_i same
    rw [same, named]
  · rfl

theorem Queued.update (queued : s.Queued) (ref : RequestRef) (request : Request)
    (perm : (t.running ++ t.waiting).Perm (s.running ++ s.waiting))
    (requests : t.requests = s.requests) (numObjects : t.numObjects = s.numObjects)
    (maxModelLen : t.maxModelLen = s.maxModelLen) (objects : t.objects = Function.update s.objects ref request)
    (named : request.requestId = (s.objects ref).requestId)
    (running : ∀ ref' ∈ t.running, (ref' = ref ∧ request.status = .running) ∨ (ref' ≠ ref ∧ ref' ∈ s.running))
    (waiting : ∀ ref' ∈ t.waiting, (ref' = ref ∧ request.IsWaiting) ∨ (ref' ≠ ref ∧ ref' ∈ s.waiting))
    (fits : ref ∈ s.running ++ s.waiting → request.Fits s.maxModelLen) : t.Queued := by
  apply queued.rearrange perm requests numObjects
  · exact requestId_update objects named
  · intro ref' member
    rw [objects]
    rcases running ref' member with ⟨rfl, status⟩ | ⟨other, old⟩
    · rw [Function.update_self]
      exact status
    · rw [Function.update_of_ne other]
      exact queued.runs ref' old
  · intro ref' member
    rw [objects]
    rcases waiting ref' member with ⟨rfl, waits⟩ | ⟨other, old⟩
    · rw [Function.update_self]
      exact waits
    · rw [Function.update_of_ne other]
      exact queued.waits ref' old
  · intro ref' member
    rw [objects, maxModelLen, Function.update_apply]
    split
    · rename_i same
      exact fits (same ▸ member)
    · exact queued.fits ref' member

/-- One request has gone. -/
theorem Queued.remove (queued : s.Queued) (ref : RequestRef) (perm : (ref :: (t.running ++ t.waiting)).Perm (s.running ++ s.waiting))
    (requests : t.requests = s.requests.erase (s.objects ref).requestId) (numObjects : t.numObjects = s.numObjects)
    (maxModelLen : t.maxModelLen = s.maxModelLen)
    (objects : ∀ ref' ≠ ref, t.objects ref' = s.objects ref')
    (running : ∀ ref' ∈ t.running, ref' ∈ s.running) (waiting : ∀ ref' ∈ t.waiting, ref' ∈ s.waiting) :
    t.Queued := by
  have nodup := perm.nodup_iff.mpr queued.nodup
  rw [List.nodup_cons] at nodup
  have other : ∀ ref' ∈ t.running ++ t.waiting, ref' ≠ ref := by
    rintro ref' member rfl
    exact nodup.1 member
  have before : ∀ ref' ∈ t.running ++ t.waiting, ref' ∈ s.running ++ s.waiting := fun ref' member =>
    perm.mem_iff.mp (List.mem_cons_of_mem _ member)
  have here : ref ∈ s.running ++ s.waiting := perm.mem_iff.mp List.mem_cons_self
  refine ⟨nodup.2, ?_, ?_, ?_, ?_, ?_⟩
  · intro ref' member
    have different : (s.objects ref').requestId ≠ (s.objects ref).requestId := fun same =>
      other ref' member (queued.unique (before ref' member) here same)
    rw [numObjects, requests, objects ref' (other ref' member), Dict.get?_erase_ne different]
    exact queued.known ref' (before ref' member)
  · intro id ref' found
    rw [requests, Dict.get?_erase] at found
    split at found
    · cases found
    · rename_i different
      obtain ⟨member, named⟩ := queued.queued id ref' found
      have apart : ref' ≠ ref := by
        rintro rfl
        exact different named.symm
      refine ⟨?_, (objects ref' apart) ▸ named⟩
      rcases List.mem_cons.mp (perm.mem_iff.mpr member) with same | there
      · exact absurd same apart
      · exact there
  · intro ref' member
    rw [objects ref' (other ref' (List.mem_append_left _ member))]
    exact queued.runs ref' (running ref' member)
  · intro ref' member
    rw [objects ref' (other ref' (List.mem_append_right _ member))]
    exact queued.waits ref' (waiting ref' member)
  · intro ref' member
    rw [objects ref' (other ref' member), maxModelLen]
    exact queued.fits ref' (before ref' member)

theorem Queued.add (queued : s.Queued) (unused : s.requests.get? request.requestId = none)
    (new : request.IsNew s.maxModelLen) : (s.addRequest request).Queued := by
  have older : ∀ ref ∈ s.running ++ s.waiting, ref ≠ s.numObjects := by
    rintro ref member rfl
    exact lt_irrefl _ (queued.known _ member).1
  have same : ∀ ref ∈ s.running ++ s.waiting, (s.addRequest request).objects ref = s.objects ref := fun ref member =>
    Function.update_of_ne (older ref member) _ _
  have mine : (s.addRequest request).objects s.numObjects = request := Function.update_self _ _ _
  have cases_ : ∀ ref ∈ (s.addRequest request).running ++ (s.addRequest request).waiting,
      ref ∈ s.running ++ s.waiting ∨ ref = s.numObjects := by
    intro ref member
    rw [addRequest_running, addRequest_waiting, ← List.append_assoc, List.mem_append, List.mem_singleton] at member
    exact member
  have tokens : request.numTokens = request.promptTokenIds.length := by
    unfold Request.numTokens Request.allTokenIds
    rw [new.outputTokenIds, List.append_nil]
  refine ⟨?_, ?_, ?_, ?_, ?_, ?_⟩
  · rw [addRequest_running, addRequest_waiting, ← List.append_assoc, List.nodup_append]
    refine ⟨queued.nodup, List.nodup_singleton _, fun ref member ref' new => ?_⟩
    rw [List.mem_singleton.mp new]
    exact older ref member
  · intro ref member
    rw [addRequest_numObjects, addRequest_requests, Dict.get?_insert]
    rcases cases_ ref member with old | rfl
    · obtain ⟨less, known⟩ := queued.known ref old
      rw [same ref old, if_neg]
      · exact ⟨Nat.lt_succ_of_lt less, known⟩
      · intro named
        rw [named, unused] at known
        cases known
    · rw [mine, if_pos rfl]
      exact ⟨Nat.lt_succ_self _, rfl⟩
  · intro id ref found
    rw [addRequest_requests, Dict.get?_insert] at found
    rw [addRequest_running, addRequest_waiting, ← List.append_assoc]
    split at found
    · rename_i named
      cases found
      exact ⟨List.mem_append_right _ (List.mem_singleton.mpr rfl), by rw [mine, named]⟩
    · obtain ⟨member, named⟩ := queued.queued id ref found
      exact ⟨List.mem_append_left _ member, by rw [same ref member, named]⟩
  · intro ref member
    have old : ref ∈ s.running := member
    rw [same ref (List.mem_append_left _ old)]
    exact queued.runs ref old
  · intro ref member
    rw [addRequest_waiting, List.mem_append, List.mem_singleton] at member
    rcases member with old | rfl
    · rw [same ref (List.mem_append_right _ old)]
      exact queued.waits ref old
    · rw [mine]
      refine ⟨?_, new.numComputedTokens⟩
      rw [new.status]
      split
      · exact Or.inr (Or.inl rfl)
      · exact Or.inl rfl
  · intro ref member
    show Request.Fits _ s.maxModelLen
    rcases cases_ ref member with old | rfl
    · rw [same ref old]
      exact queued.fits ref old
    · rw [mine]
      unfold Request.Fits
      rw [tokens]
      exact ⟨new.prompt, new.short⟩

/-! ### The blocks -/

/-- The KV cache manager has changed, and for ids that are not running only to having nothing. -/
theorem Holding.change (holding : s.Holding) (sound : t.kvCacheManager.Sound)
    (config : KVCacheManager.SameConfig s.kvCacheManager t.kvCacheManager)
    (blockSize : t.blockSize = s.blockSize) (maxModelLen : t.maxModelLen = s.maxModelLen)
    (idle : ∀ id ∉ t.runningIds, t.kvCacheManager.blocksOf id = [] ∧ t.kvCacheManager.numCachedBlock.get? id = none) :
    t.Holding := by
  refine ⟨sound, ?_, ?_, ?_, idle⟩
  · rw [config.blockSize, blockSize]
    exact holding.blockSize
  · rw [blockSize]
    exact holding.positive
  · rw [config.maxNumBlocksPerReq, maxModelLen, blockSize]
    exact holding.maxBlocks

theorem Holding.same (holding : s.Holding) (kv : t.kvCacheManager = s.kvCacheManager)
    (blockSize : t.blockSize = s.blockSize) (maxModelLen : t.maxModelLen = s.maxModelLen)
    (running : ∀ id ∈ s.runningIds, id ∈ t.runningIds) : t.Holding := by
  apply holding.change
  · rw [kv]
    exact holding.sound
  · rw [kv]
    exact KVCacheManager.SameConfig.refl _
  · exact blockSize
  · exact maxModelLen
  · rw [kv]
    exact fun id absent => holding.idle id fun member => absent (running id member)

variable {manager : KVCacheManager}

theorem idle_free {u : Unit} (sound : s.kvCacheManager.Sound)
    (freed : KVCacheManager.free request s.kvCacheManager = .ok u manager)
    (idle : ∀ id, id ≠ request.requestId → id ∉ t.runningIds →
      s.kvCacheManager.blocksOf id = [] ∧ s.kvCacheManager.numCachedBlock.get? id = none) :
    ∀ id ∉ t.runningIds, manager.blocksOf id = [] ∧ manager.numCachedBlock.get? id = none := by
  intro id absent
  have done := KVCacheManager.free_ok sound freed
  rw [done.blocksOf, done.numCachedBlock, Dict.get?_erase]
  by_cases mine : id = request.requestId
  · rw [mine, Function.update_self, if_pos rfl]
    exact ⟨rfl, rfl⟩
  · rw [Function.update_of_ne mine, if_neg mine]
    exact idle id mine absent

variable [TupleHash] {looked : KVCacheManager} {hits : List BlockId} {n : ℕ}

theorem idle_allocate {blocks : List BlockId}
    (sound : looked.Sound) (known : ∀ b ∈ hits, b < looked.blockPool.numGpuBlocks)
    (got : KVCacheManager.allocateSlots request n hits looked = .ok (some blocks) manager)
    (running : request.requestId ∈ t.runningIds)
    (idle : ∀ id ∉ t.runningIds, looked.blocksOf id = [] ∧ looked.numCachedBlock.get? id = none) :
    ∀ id ∉ t.runningIds, manager.blocksOf id = [] ∧ manager.numCachedBlock.get? id = none := by
  intro id absent
  have allocated := KVCacheManager.allocateSlots_ok sound known got
  have other : id ≠ request.requestId := by
    rintro rfl
    exact absent running
  rw [allocated.blocksOf, Function.update_of_ne other, allocated.numCachedBlock]
  split
  · rw [Dict.get?_insert_ne other]
    exact idle id absent
  · exact idle id absent

/-! ### The moves of `schedule` -/

omit [TupleHash] in
theorem putBack_setAside {rest : List RequestRef} (queue : s.waiting = ref :: rest) :
    putBack (p.setAside ref) (s.setWaiting rest) = putBack p s := by
  unfold putBack Pass.setAside setWaiting
  rw [queue]
  simp

omit [TupleHash] in
theorem runningIds_of_objects (ids : ∀ ref, (t.objects ref).requestId = (s.objects ref).requestId) :
    t.runningIds = t.running.map fun ref => (s.objects ref).requestId :=
  List.map_congr_left fun ref _ => ids ref

omit [TupleHash] in
theorem mem_runningIds (member : ref ∈ s.running) : (s.objects ref).requestId ∈ s.runningIds :=
  List.mem_map_of_mem (f := fun ref => (s.objects ref).requestId) member

variable {plan : EncoderPlan}

omit [TupleHash] in
theorem RunAttempt.running (attempt : RunAttempt s p ref plan) : ref ∈ s.running :=
  List.mem_of_getElem? attempt.at_

variable {c : ℕ}

theorem AdmitAttempt.waiting
    (attempt : AdmitAttempt s p ref hits c n plan looked) : ∃ rest, s.waiting = ref :: rest :=
  List.head?_eq_some_iff.mp attempt.head

variable {found : List BlockId × ℕ}

omit [TupleHash] in
theorem hitsToUse_ok {blockSize c n : ℕ}
    (used : hitsToUse request blockSize found s = .ok (hits, c, n) t) (length : found.2 = found.1.length * blockSize)
    (within : 0 < n) : (∃ k, hits = found.1.take k) ∧ c = hits.length * blockSize ∧ c + n = request.numTokens := by
  unfold hitsToUse at used
  split at used
  · rename_i all
    obtain ⟨last, _, got, done⟩ := bind_ok used
    obtain ⟨some, -⟩ := getItem_ok got
    cases done
    have nonempty : 0 < found.1.length := List.length_pos_of_mem (List.mem_of_getLast? some)
    have split : found.1.length * blockSize = (found.1.length - 1) * blockSize + blockSize := by
      rw [← Nat.succ_mul]
      congr 1
      omega
    refine ⟨⟨found.1.length - 1, List.dropLast_eq_take⟩, ?_, ?_⟩
    · rw [List.length_dropLast, length, split, Nat.add_sub_cancel]
    · rw [all, length, split, Nat.add_sub_cancel]
  · cases used
    refine ⟨⟨found.1.length, (List.take_length).symm⟩, length, ?_⟩
    omega

structure Prepared (s : Scheduler) (p : Pass) (ref : RequestRef) (hits : List BlockId) (c n : ℕ)
    (looked : KVCacheManager) : Prop where
  found : ∃ all k, hits = all.take k ∧ KVCacheManager.LookedUp (s.objects ref) all s.kvCacheManager looked
  computed : c = hits.length * s.blockSize
  within : n ≤ p.tokenBudget ∧ c + n ≤ (s.objects ref).numTokens

theorem AdmitAttempt.prepared
    (attempt : AdmitAttempt s p ref hits c n plan looked) (sound : s.kvCacheManager.Sound)
    (blockSize : s.kvCacheManager.blockSize = s.blockSize) : Prepared s p ref hits c n looked := by
  obtain ⟨found, left, t, lookup, used, rfl⟩ := attempt.looked
  have positive := attempt.positive
  obtain ⟨length, lookedUp⟩ := KVCacheManager.getComputedBlocks_ok sound lookup
  rw [blockSize] at length
  obtain ⟨⟨k, taken⟩, computed, total⟩ := hitsToUse_ok used length (by omega)
  exact ⟨⟨found.1, k, taken, lookedUp⟩, computed, Nat.min_le_right _ _, by omega⟩

theorem Prepared.hitsOf
    (prepared : Prepared s p ref hits c n looked) : looked.HitsOf (s.objects ref).requestId hits := by
  obtain ⟨all, k, rfl, lookedUp⟩ := prepared.found
  exact lookedUp.found.take k

omit [TupleHash] in
theorem sound_of_unchanged [TupleHash]
    (sound : s.kvCacheManager.Sound) (lookedUp : KVCacheManager.LookedUp request hits s.kvCacheManager looked) :
    looked.Sound ∧ KVCacheManager.SameConfig s.kvCacheManager looked ∧
      looked.blocksOf = s.kvCacheManager.blocksOf ∧ looked.numCachedBlock = s.kvCacheManager.numCachedBlock ∧
      looked.held = s.kvCacheManager.held ∧ looked.blockPool = s.kvCacheManager.blockPool := by
  have unchanged := lookedUp.unchanged
  generalize looked.reqToBlockHashes = hashes at unchanged
  subst unchanged
  exact ⟨⟨sound.pool, sound.caching⟩, ⟨rfl, rfl, rfl, rfl, rfl⟩, rfl, rfl, rfl, rfl⟩

section
variable (serving : (putBack p s).Serving)
include serving

omit [TupleHash] in
theorem Serving.preempted {rest : List RequestRef} (last : s.running = rest ++ [ref])
    (freed : KVCacheManager.free (s.objects ref) s.kvCacheManager = .ok () manager) :
    (putBack (p.preempt ref) (Scheduler.preempted ref ((s.setRunning rest).setKVCacheManager manager))).Serving := by
  obtain ⟨queued, holding⟩ := serving
  have sound : s.kvCacheManager.Sound := holding.sound
  have nodup := queued.nodup
  rw [putBack_running, last, putBack_waiting, List.append_assoc, List.nodup_append] at nodup
  constructor
  · apply queued.update ref (s.objects ref).preempt
    · show (rest ++ (p.waitingForFsm.reverse ++ ref :: s.waiting)).Perm
        (s.running ++ (p.waitingForFsm.reverse ++ s.waiting))
      rw [last, List.append_assoc]
      exact (List.Perm.append_left rest (List.perm_middle.trans (by rfl)))
    · rfl
    · rfl
    · rfl
    · rfl
    · rfl
    · intro ref' member
      right
      have inside : ref' ∈ rest := member
      refine ⟨?_, ?_⟩
      · rintro rfl
        exact nodup.2.2 ref' inside ref' (List.mem_append_left _ (List.mem_singleton.mpr rfl)) rfl
      · rw [putBack_running, last]
        exact List.mem_append_left _ inside
    · intro ref' member
      by_cases same : ref' = ref
      · exact Or.inl ⟨same, Or.inr (Or.inr rfl), rfl⟩
      · refine Or.inr ⟨same, ?_⟩
        have inside : ref' ∈ p.waitingForFsm.reverse ++ ref :: s.waiting := member
        rcases List.mem_append.mp inside with aside | waits
        · exact List.mem_append_left _ aside
        · exact List.mem_append_right _ ((List.mem_cons.mp waits).resolve_left same)
    · exact fun member => queued.fits ref member
  · have done := KVCacheManager.free_ok sound freed
    apply holding.change
    · exact done.sound
    · exact done.config
    · rfl
    · rfl
    · apply idle_free sound freed
      intro id other absent
      apply holding.idle id
      intro member
      obtain ⟨ref', there, named⟩ := List.mem_map.mp member
      rw [putBack_running, last, List.mem_append, List.mem_singleton] at there
      rcases there with inside | rfl
      · apply absent
        refine List.mem_map.mpr ⟨ref', inside, ?_⟩
        rw [← named]
        apply requestId_update
        · rfl
        · rfl
      · exact other named.symm

theorem Serving.ran {newBlocks : List BlockId} (member : ref ∈ s.running)
    (got : KVCacheManager.allocateSlots (s.objects ref) plan.numNewTokens [] s.kvCacheManager =
      .ok (some newBlocks) manager) :
    (putBack (p.giveRunning ref (s.objects ref) plan newBlocks)
      (takeRunning ref plan (s.setKVCacheManager manager))).Serving := by
  obtain ⟨queued, holding⟩ := serving
  have sound : s.kvCacheManager.Sound := holding.sound
  constructor
  · apply queued.update ref ((s.objects ref).trimmed plan.numNewTokens)
    · exact List.Perm.refl _
    · rfl
    · rfl
    · rfl
    · rfl
    · rfl
    · intro ref' there
      by_cases same : ref' = ref
      · exact Or.inl ⟨same, queued.runs ref member⟩
      · exact Or.inr ⟨same, there⟩
    · intro ref' there
      refine Or.inr ⟨?_, there⟩
      rintro rfl
      exact List.disjoint_of_nodup_append queued.nodup member there
    · exact fun there => queued.fits ref there
  · have allocated := KVCacheManager.allocateSlots_ok sound (by simp) got
    have ids : (putBack (p.giveRunning ref (s.objects ref) plan newBlocks)
        (takeRunning ref plan (s.setKVCacheManager manager))).runningIds = (putBack p s).runningIds := by
      apply runningIds_of_objects
      apply requestId_update
      · rfl
      · rfl
    apply holding.change
    · exact allocated.sound
    · exact allocated.config
    · rfl
    · rfl
    · rw [ids]
      apply idle_allocate sound (by simp) got
      · exact mem_runningIds member
      · exact holding.idle

omit [TupleHash] in
theorem Serving.woken (first : s.waiting.head? = some ref) : (putBack p (s.wake ref)).Serving := by
  obtain ⟨queued, holding⟩ := serving
  unfold wake
  split
  · rename_i waits
    have member : ref ∈ s.waiting := List.mem_of_head? first
    constructor
    · apply queued.update ref ((s.objects ref).setStatus .waiting)
      · exact List.Perm.refl _
      · rfl
      · rfl
      · rfl
      · rfl
      · rfl
      · intro ref' there
        refine Or.inr ⟨?_, there⟩
        rintro rfl
        have status := queued.runs ref' there
        rw [putBack_objects, waits] at status
        cases status
      · intro ref' there
        by_cases same : ref' = ref
        · have was := queued.waits ref' there
          subst same
          exact Or.inl ⟨rfl, Or.inl rfl, was.numComputedTokens⟩
        · exact Or.inr ⟨same, there⟩
      · exact fun there => queued.fits ref there
    · apply holding.same
      · rfl
      · rfl
      · rfl
      · intro id there
        rw [runningIds_of_objects (s := putBack p s)]
        · exact there
        · apply requestId_update
          · rfl
          · rfl
  · exact ⟨queued, holding⟩

theorem Serving.lookedUp
    (looked : KVCacheManager.getComputedBlocks (s.objects ref) s.kvCacheManager = .ok found manager) :
    (putBack p (s.setKVCacheManager manager)).Serving := by
  obtain ⟨queued, holding⟩ := serving
  have sound : s.kvCacheManager.Sound := holding.sound
  obtain ⟨-, lookedUp⟩ := KVCacheManager.getComputedBlocks_ok sound looked
  obtain ⟨sound', config, blocks, counts, -, -⟩ := sound_of_unchanged sound lookedUp
  constructor
  · exact ⟨queued.nodup, queued.known, queued.queued, queued.runs, queued.waits, queued.fits⟩
  · apply holding.change
    · exact sound'
    · exact config
    · rfl
    · rfl
    · intro id absent
      show _ = _ ∧ _ = _
      rw [putBack_kvCacheManager, setKVCacheManager_kvCacheManager, blocks, counts]
      exact holding.idle id absent

theorem Serving.admitted {newBlocks : List BlockId} (attempt : AdmitAttempt s p ref hits c n plan looked)
    (got : KVCacheManager.allocateSlots (s.objects ref) plan.numNewTokens hits looked =
      .ok (some newBlocks) manager) :
    (putBack (p.giveWaiting ref (s.objects ref) s.maxLoras plan (hits ++ newBlocks))
      (takeWaiting ref c plan (s.setKVCacheManager manager))).Serving := by
  obtain ⟨queued, holding⟩ := serving
  have sound : s.kvCacheManager.Sound := holding.sound
  have prepared := attempt.prepared sound holding.blockSize
  obtain ⟨rest, queue⟩ := attempt.waiting
  have waiting : ref ∈ (putBack p s).waiting := by
    rw [putBack_waiting, queue]
    exact List.mem_append_right _ List.mem_cons_self
  obtain ⟨all, k, -, lookedUp⟩ := prepared.found
  obtain ⟨sound', config, blocks, counts, -, -⟩ := sound_of_unchanged sound lookedUp
  have known := prepared.hitsOf.inside sound'
  have allocated := KVCacheManager.allocateSlots_ok sound' known got
  have nodup := queued.nodup
  rw [putBack_running, putBack_waiting, queue, List.nodup_append] at nodup
  constructor
  · apply queued.update ref ((s.objects ref).run c)
    · show ((s.running ++ [ref]) ++ (p.waitingForFsm.reverse ++ s.waiting.tail)).Perm
        (s.running ++ (p.waitingForFsm.reverse ++ s.waiting))
      rw [queue, List.tail_cons, List.append_assoc, List.singleton_append]
      exact List.Perm.append_left _ List.perm_middle.symm
    · rfl
    · rfl
    · rfl
    · rfl
    · rfl
    · intro ref' there
      have inside : ref' ∈ s.running ++ [ref] := there
      by_cases same : ref' = ref
      · exact Or.inl ⟨same, rfl⟩
      · refine Or.inr ⟨same, ?_⟩
        rcases List.mem_append.mp inside with old | new
        · exact old
        · exact absurd (List.mem_singleton.mp new) same
    · intro ref' there
      right
      have inside : ref' ∈ p.waitingForFsm.reverse ++ s.waiting.tail := there
      rw [queue, List.tail_cons] at inside
      have apart := nodup.2.1
      rw [List.nodup_middle, List.nodup_cons] at apart
      constructor
      · rintro rfl
        exact apart.1 inside
      · rw [putBack_waiting, queue]
        rcases List.mem_append.mp inside with aside | later
        · exact List.mem_append_left _ aside
        · exact List.mem_append_right _ (List.mem_cons_of_mem _ later)
    · exact fun there => queued.fits ref there
  · have ids : ∀ ref', ((putBack (p.giveWaiting ref (s.objects ref) s.maxLoras plan (hits ++ newBlocks))
        (takeWaiting ref c plan (s.setKVCacheManager manager))).objects ref').requestId =
        ((putBack p s).objects ref').requestId := by
      apply requestId_update
      · rfl
      · rfl
    apply holding.change
    · exact allocated.sound
    · exact config.trans allocated.config
    · rfl
    · rfl
    · rw [runningIds_of_objects ids]
      intro id absent
      have absent' : id ∉ (s.running ++ [ref]).map fun ref' => (s.objects ref').requestId := absent
      rw [List.map_append, List.mem_append, not_or] at absent'
      have other : id ≠ (s.objects ref).requestId := by
        rintro rfl
        exact absent'.2 (List.mem_singleton.mpr rfl)
      have before := holding.idle id absent'.1
      show manager.blocksOf id = [] ∧ manager.numCachedBlock.get? id = none
      rw [allocated.blocksOf, Function.update_of_ne other, blocks, allocated.numCachedBlock]
      refine ⟨before.1, ?_⟩
      split
      · rw [Dict.get?_insert_ne other, counts]
        exact before.2
      · rw [counts]
        exact before.2

theorem Serving.move (move : Move (s, p) (t, p')) : (putBack p' t).Serving := by
  cases move with
  | skip => exact ⟨serving.queued, serving.holding⟩
  | recordLoras => exact ⟨serving.queued, serving.holding⟩
  | setAside _ queue _ =>
    rw [putBack_setAside queue]
    exact serving
  | preempt attempt lacks last freed => exact serving.preempted last freed
  | run attempt got => exact serving.ran attempt.running got
  | wake turn ready => exact serving.woken turn.head
  | lookup _ _ looked => exact serving.lookedUp looked
  | admitRequest attempt status got => exact serving.admitted attempt got

end

theorem Serving.moves (serving : s.Serving) (moves : Moves s s.startPass t p) : (putBack p t).Serving :=
  moves.invariant (I := fun u q => (putBack q u).Serving) serving fun _ _ _ _ _ before move => before.move move

omit [TupleHash] in
theorem Serving.flush (serving : s.Serving) : s.flush.Serving :=
  ⟨⟨serving.queued.nodup, serving.queued.known, serving.queued.queued, serving.queued.runs, serving.queued.waits,
    serving.queued.fits⟩, ⟨serving.holding.sound, serving.holding.blockSize, serving.holding.positive,
    serving.holding.maxBlocks, serving.holding.idle⟩⟩

theorem Serving.schedule {out : SchedulerOutput} (serving : s.Serving) (call : schedule s = .ok out t) :
    t.Serving := by
  obtain ⟨u, p, moves, scheduled⟩ := schedule_ok call
  rw [scheduled.state]
  exact (serving.moves moves).flush

end Scheduler
end Vllm.V1
