import VllmProofs.V1.KVCacheBlocks

/-!
The hashes of the blocks that requests hold: block `i` of a request has the `i`-th hash of the request
or none, and a block without a hash has one holder.
-/

namespace Vllm.V1
open Exec Vllm.V1.BlockPool

theorem two_le_count {α : Type} [DecidableEq α] {xs : List α} {x : α} {i j : ℕ} (lt : i < j)
    (one : xs[i]? = some x) (two : xs[j]? = some x) : 2 ≤ xs.count x := by
  induction xs generalizing i j with
  | nil => cases one
  | cons y rest ih =>
    obtain ⟨j, rfl⟩ : ∃ k, j = k + 1 := ⟨j - 1, by omega⟩
    rw [List.getElem?_cons_succ] at two
    rw [List.count_cons]
    cases i with
    | zero =>
      rw [List.getElem?_cons_zero, Option.some.injEq] at one
      subst one
      have later := List.count_pos_iff.mpr (List.mem_of_getElem? two)
      simp only [BEq.rfl, ↓reduceIte]
      omega
    | succ i =>
      rw [List.getElem?_cons_succ] at one
      have inner := ih (by omega) one two
      omega

namespace KVCacheManager

variable {s t : KVCacheManager} {id : RequestId} {request : Request} {n : ℕ} {u : Unit}
  {blocks hits : List BlockId} {b : BlockId}

theorem held_unique {id' : RequestId} {i i' : ℕ} (once : s.held b ≤ 1)
    (here : (s.blocksOf id)[i]? = some b) (there : (s.blocksOf id')[i']? = some b) :
    id = id' ∧ i = i' := by
  have same : id = id' := by
    by_contra different
    unfold blocksOf at here there
    cases mine : s.reqToBlocks.get? id with
    | none => simp [mine] at here
    | some one =>
      cases other : s.reqToBlocks.get? id' with
      | none => simp [other] at there
      | some two =>
        simp only [mine, other, Option.getD_some] at here there
        have split := Dict.sum_erase_of_some (f := List.count b) mine
        have rest : (s.reqToBlocks.erase id).get? id' = some two := by
          rw [Dict.get?_erase_ne (Ne.symm different), other]
        have le := Dict.le_sum (f := List.count b) rest
        have pos₁ := List.count_pos_iff.mpr (List.mem_of_getElem? here)
        have pos₂ := List.count_pos_iff.mpr (List.mem_of_getElem? there)
        unfold held at once
        omega
  subst same
  refine ⟨rfl, ?_⟩
  have le := count_le_held s id b
  rcases Nat.lt_trichotomy i i' with lt | same | gt
  · have twice := two_le_count lt here there
    omega
  · exact same
  · have twice := two_le_count gt there here
    omega

structure Coherent (s : KVCacheManager) : Prop where
  sound : s.Sound
  aligned : ∀ id (i : ℕ) b h, (s.blocksOf id)[i]? = some b → s.blockPool.hashOf b = some h →
    (s.hashesOf id)[i]? = some h
  single : ∀ b, s.blockPool.hashOf b = none → s.held b ≤ 1

/-- Blocks that are found under the first hashes of a request. -/
def HitsOf (s : KVCacheManager) (id : RequestId) (hits : List BlockId) : Prop :=
  ∀ (i : ℕ) b, hits[i]? = some b → ∃ h, s.blockPool.hashOf b = some h ∧ (s.hashesOf id)[i]? = some h

theorem HitsOf.nil (s : KVCacheManager) (id : RequestId) : s.HitsOf id [] := by
  intro i b at_
  cases at_

theorem HitsOf.take (found : s.HitsOf id hits) (k : ℕ) : s.HitsOf id (hits.take k) := by
  intro i b at_
  rw [List.getElem?_take] at at_
  split at at_
  · exact found i b at_
  · cases at_

theorem HitsOf.hashed (found : s.HitsOf id hits) (member : b ∈ hits) : s.blockPool.hashOf b ≠ none := by
  obtain ⟨i, at_⟩ := List.mem_iff_getElem?.mp member
  obtain ⟨h, hash, -⟩ := found i b at_
  rw [hash]
  nofun

theorem HitsOf.inside (found : s.HitsOf id hits) (sound : s.Sound) :
    ∀ b ∈ hits, b < s.blockPool.numGpuBlocks := fun b member =>
  sound.pool.indexed.hashedInside b (found.hashed member)

theorem hashesOf_of_reqToBlockHashes (same : t.reqToBlockHashes = s.reqToBlockHashes) :
    t.hashesOf = s.hashesOf := by
  unfold hashesOf
  rw [same]

theorem Coherent.grow_hits (coherent : s.Coherent) (found : s.HitsOf id hits)
    (first : hits = [] ∨ s.blocksOf id = []) (sound : t.Sound) (grew : Grew id hits s t)
    (same : SameCache s.blockPool t.blockPool) : t.Coherent := by
  refine ⟨sound, ?_, ?_⟩
  · intro id' i b h at_ hash
    rw [same.hashOf] at hash
    rw [hashesOf_of_reqToBlockHashes grew.reqToBlockHashes]
    rw [grew.blocksOf] at at_
    by_cases mine : id' = id
    · subst mine
      rw [Function.update_self] at at_
      rcases first with none | new
      · rw [none, List.append_nil] at at_
        exact coherent.aligned id' i b h at_ hash
      · rw [new, List.nil_append] at at_
        obtain ⟨h', hash', at_'⟩ := found i b at_
        rw [hash, Option.some.injEq] at hash'
        rw [hash']
        exact at_'
    · rw [Function.update_of_ne mine] at at_
      exact coherent.aligned id' i b h at_ hash
  · intro b none
    rw [same.hashOf] at none
    have absent : hits.count b = 0 := List.count_eq_zero.mpr fun member => found.hashed member none
    rw [grew.held, more, absent]
    exact coherent.single b none

theorem Coherent.grow_new (coherent : s.Coherent) (sound : t.Sound) (grew : Grew id blocks s t)
    (took : Took s.held blocks s.blockPool t.blockPool) : t.Coherent := by
  have unheld : ∀ id' (i : ℕ) b, (s.blocksOf id')[i]? = some b → b ∉ blocks := by
    intro id' i b at_ member
    have none := (took.wereFree b member).1
    have some := held_pos_of_mem (List.mem_of_getElem? at_)
    omega
  refine ⟨sound, ?_, ?_⟩
  · intro id' i b h at_ hash
    rw [took.hashOf] at hash
    split at hash
    · cases hash
    · rename_i outside
      rw [hashesOf_of_reqToBlockHashes grew.reqToBlockHashes]
      rw [grew.blocksOf] at at_
      by_cases mine : id' = id
      · subst mine
        rw [Function.update_self, List.getElem?_append] at at_
        split at at_
        · exact coherent.aligned id' i b h at_ hash
        · exact (outside (List.mem_of_getElem? at_)).elim
      · rw [Function.update_of_ne mine] at at_
        exact coherent.aligned id' i b h at_ hash
  · intro b none
    rw [grew.held, more]
    by_cases member : b ∈ blocks
    · have zero := (took.wereFree b member).1
      have once := List.nodup_iff_count_le_one.mp took.nodup b
      omega
    · rw [took.hashOf, if_neg member] at none
      rw [List.count_eq_zero.mpr member]
      exact coherent.single b none

theorem Coherent.free (coherent : s.Coherent) (call : free request s = .ok u t) : t.Coherent := by
  have freed := free_ok coherent.sound call
  refine ⟨freed.sound, ?_, ?_⟩
  · intro id i b h at_ hash
    rw [freed.hashOf] at hash
    rw [hashesOf_of_reqToBlockHashes freed.reqToBlockHashes]
    rw [freed.blocksOf] at at_
    by_cases mine : id = request.requestId
    · subst mine
      rw [Function.update_self] at at_
      cases at_
    · rw [Function.update_of_ne mine] at at_
      exact coherent.aligned id i b h at_ hash
  · intro b none
    rw [freed.hashOf] at none
    have before := coherent.single b none
    rw [freed.held] at before
    unfold more at before
    omega

theorem Coherent.resetPrefixCache {done : Bool} (coherent : s.Coherent)
    (call : resetPrefixCache s = .ok done t) : t.Coherent := by
  have reset := resetPrefixCache_ok coherent.sound call
  cases done with
  | false =>
    rw [reset.kept rfl]
    exact coherent
  | true =>
    obtain ⟨unheld, unhashed⟩ := reset.dropped rfl
    refine ⟨reset.sound, ?_, ?_⟩
    · intro id i b h _ hash
      rw [unhashed b] at hash
      cases hash
    · intro b _
      rw [held_of_reqToBlocks reset.reqToBlocks, unheld b]
      omega

variable [TupleHash]

/-- The count of cached blocks that the end of `allocate_slots` starts from. -/
def numCachedBlocks (s : KVCacheManager) (id : RequestId) (hits : List BlockId) : ℤ :=
  (s.numCachedBlock.get? id).getD hits.length

theorem Coherent.cache (coherent : s.Coherent)
    (start : 0 ≤ s.numCachedBlocks request.requestId hits) (full : 0 ≤ s.numFullBlocks request n hits)
    (call : cacheIfCaching request n hits s = .ok u t) :
    t.Coherent ∧ Extended request s.blockSize (s.hashesOf request.requestId)
      (t.hashesOf request.requestId) := by
  obtain ⟨sound, cached⟩ := cacheIfCaching_ok coherent.sound call
  have step : Extended request s.blockSize (s.hashesOf request.requestId) (t.hashesOf request.requestId) ∧
      ∀ b, s.blockPool.hashOf b = none → t.blockPool.hashOf b ≠ none → ∃ (i : ℕ) (h : BlockHash),
        (s.blocksOf request.requestId)[i]? = some b ∧ t.blockPool.hashOf b = some h ∧
        (t.hashesOf request.requestId)[i]? = some h := by
    unfold cacheIfCaching at call
    rw [get_bind] at call
    split at call
    · rename_i caching
      unfold cacheBlocks at call
      rw [get_bind] at call
      dsimp only at call
      obtain ⟨hashes, v, hashedBlocks, last⟩ := bind_ok call
      cases last
      obtain ⟨pool, inner, rfl⟩ := zoom_ok hashedBlocks
      obtain ⟨c, start⟩ := Int.eq_ofNat_of_zero_le start
      obtain ⟨f, full⟩ := Int.eq_ofNat_of_zero_le full
      unfold numCachedBlocks at start
      rw [start, full] at inner
      have on := coherent.sound.caching.trans caching
      have inside : ∀ b ∈ s.blocksOf request.requestId, b < s.blockPool.numGpuBlocks :=
        fun b member => coherent.sound.inside member
      obtain ⟨slice, -⟩ := cacheFullBlocks_hashed coherent.sound.pool.indexed on inside inner
      obtain ⟨extended, each⟩ := cacheFullBlocks_aligned coherent.sound.pool.indexed on inside
        (fun i b h => coherent.aligned request.requestId i b h) inner
      have mine := congrFun (hashesOf_setHashes { s with blockPool := pool } request.requestId hashes)
        request.requestId
      rw [Function.update_self] at mine
      refine ⟨?_, fun b none some => ?_⟩
      · rw [← mine] at extended
        exact extended
      · have member : b ∈ PySlice.slice (s.blocksOf request.requestId) c f := by
          by_contra outside
          exact some ((slice.others b outside).trans none)
        rw [PySlice.slice_nat] at member
        obtain ⟨j, at_⟩ := List.mem_iff_getElem?.mp member
        rw [List.getElem?_drop, List.getElem?_take] at at_
        split at at_
        · rename_i to_
          obtain ⟨h, hash, found⟩ := each (c + j) b (by omega) to_ at_
          rw [← mine] at found
          exact ⟨c + j, h, at_, hash, found⟩
        · cases at_
    · cases call
      exact ⟨.start, fun b none some => (some none).elim⟩
  obtain ⟨extended, fresh⟩ := step
  refine ⟨⟨sound, ?_, ?_⟩, extended⟩
  · intro id i b h at_ hash
    rw [blocksOf_of_reqToBlocks cached.reqToBlocks] at at_
    cases before : s.blockPool.hashOf b with
    | some h' =>
      rw [cached.pool.kept b (by rw [before]; nofun), before] at hash
      cases hash
      have old := coherent.aligned id i b h at_ before
      by_cases mine : id = request.requestId
      · subst mine
        exact getElem?_of_prefix extended.prefix old
      · rw [cached.otherHashes id mine]
        exact old
    | none =>
      obtain ⟨j, h', there, hash', found⟩ := fresh b before (by rw [hash]; nofun)
      obtain ⟨rfl, rfl⟩ := held_unique (coherent.single b before) at_ there
      rw [hash, Option.some.injEq] at hash'
      rw [hash']
      exact found
  · intro b none
    rw [held_of_reqToBlocks cached.reqToBlocks]
    apply coherent.single
    by_contra some
    rw [cached.pool.kept b some] at none
    exact some none

theorem Coherent.allocateSlots (coherent : s.Coherent) (found : s.HitsOf request.requestId hits)
    (first : hits = [] ∨ s.blocksOf request.requestId = [])
    (start : 0 ≤ s.numCachedBlocks request.requestId hits) (full : 0 ≤ s.numFullBlocks request n hits)
    (call : allocateSlots request n hits s = .ok (some blocks) t) :
    t.Coherent ∧ Extended request s.blockSize (s.hashesOf request.requestId)
      (t.hashesOf request.requestId) := by
  obtain ⟨-, -, v, w, taken, got, cached⟩ := allocateSlots_stages call
  obtain ⟨soundV, grewV, cacheV⟩ := takeComputedBlocks_ok coherent.sound (found.inside coherent.sound) taken
  have coherentV := coherent.grow_hits found first soundV grewV cacheV
  obtain ⟨soundW, grewW, took, -, -⟩ := getBlocks_ok soundV got
  have coherentW := coherentV.grow_new soundW grewW took
  have config := grewV.config.trans grewW.config
  have hashes : w.hashesOf = s.hashesOf := by
    rw [hashesOf_of_reqToBlockHashes grewW.reqToBlockHashes,
      hashesOf_of_reqToBlockHashes grewV.reqToBlockHashes]
  have startW : 0 ≤ w.numCachedBlocks request.requestId hits := by
    unfold numCachedBlocks
    rw [grewW.numCachedBlock, grewV.numCachedBlock]
    exact start
  have fullW : 0 ≤ w.numFullBlocks request n hits := by
    rw [numFullBlocks_config config]
    exact full
  have last := coherentW.cache startW fullW cached
  rw [hashes, config.blockSize] at last
  exact last

/-! ### Looking up the computed blocks of a request -/

omit [TupleHash] in
theorem cachedPrefix_ok {pool pool' : BlockPool} {hashes : List BlockHash} (indexed : pool.Indexed)
    (call : cachedPrefix hashes pool = .ok blocks pool') :
    pool' = pool ∧ (∀ (i : ℕ) b, blocks[i]? = some b → ∃ h, pool.hashOf b = some h ∧ hashes[i]? = some h) ∧
      ∀ h, hashes[blocks.length]? = some h → ∀ b, pool.hashOf b ≠ some h := by
  induction hashes generalizing blocks with
  | nil =>
    cases call
    exact ⟨rfl, nofun, nofun⟩
  | cons h rest ih =>
    unfold cachedPrefix at call
    obtain ⟨found, v, looked, call⟩ := bind_ok call
    obtain ⟨rfl, hit, miss⟩ := getCachedBlock_ok indexed looked
    cases found with
    | none =>
      cases call
      refine ⟨rfl, nofun, fun h' at_ b => ?_⟩
      cases at_
      exact miss rfl b
    | some b =>
      obtain ⟨more, w, others, last⟩ := bind_ok call
      cases last
      obtain ⟨rfl, each, longest⟩ := ih others
      refine ⟨rfl, ?_, longest⟩
      intro i c at_
      cases i with
      | zero =>
        cases at_
        exact ⟨h, hit b rfl, rfl⟩
      | succ i => exact each i c at_

theorem blockHashesOf_ok {hashes : List BlockHash} (call : blockHashesOf request s = .ok hashes t) :
    (s.hashesOf request.requestId ≠ [] ∧ t = s ∧ hashes = s.hashesOf request.requestId) ∨
      (s.hashesOf request.requestId = [] ∧ t = s.setHashes request.requestId hashes ∧
        hashRequestTokens s.blockSize request = .ok hashes) := by
  unfold blockHashesOf at call
  rw [get_bind] at call
  split at call
  · rename_i known
    cases call
    exact Or.inl ⟨known, rfl, rfl⟩
  · rename_i unknown
    rw [not_not] at unknown
    cases computed : hashRequestTokens s.blockSize request with
    | error raised =>
      simp only [computed] at call
      cases call
    | ok hashes' =>
      simp only [computed] at call
      cases call
      exact Or.inr ⟨unknown, rfl, rfl⟩

/-- What `get_computed_blocks` has done; its hits are those of a request without prompt logprobs. -/
structure LookedUp (request : Request) (hits : List BlockId) (s t : KVCacheManager) : Prop where
  unchanged : t = { s with reqToBlockHashes := t.reqToBlockHashes }
  otherHashes : ∀ id ≠ request.requestId, t.hashesOf id = s.hashesOf id
  hashes : t.hashesOf request.requestId = s.hashesOf request.requestId ∨
    s.hashesOf request.requestId = [] ∧
      hashRequestTokens s.blockSize request = .ok (t.hashesOf request.requestId)
  found : t.HitsOf request.requestId hits
  longest : s.enableCaching = true → request.samplingParams.promptLogprobs = none →
    ∀ h, (t.hashesOf request.requestId)[hits.length]? = some h → ∀ b, t.blockPool.hashOf b ≠ some h

theorem getComputedBlocks_ok {m : ℕ} (sound : s.Sound)
    (call : getComputedBlocks request s = .ok (hits, m) t) :
    m = hits.length * s.blockSize ∧ LookedUp request hits s t := by
  unfold getComputedBlocks at call
  rw [get_bind] at call
  split at call
  · rename_i off
    cases call
    refine ⟨by simp, rfl, fun _ _ => rfl, Or.inl rfl, HitsOf.nil _ _, fun on => ?_⟩
    rw [off] at on
    cases on
  · obtain ⟨hashes, v, known, call⟩ := bind_ok call
    have looked : v = { s with reqToBlockHashes := v.reqToBlockHashes } ∧
        v.hashesOf request.requestId = hashes ∧
        (∀ id ≠ request.requestId, v.hashesOf id = s.hashesOf id) ∧
        (v.hashesOf request.requestId = s.hashesOf request.requestId ∨
          s.hashesOf request.requestId = [] ∧
            hashRequestTokens s.blockSize request = .ok (v.hashesOf request.requestId)) := by
      rcases blockHashesOf_ok known with ⟨-, rfl, rfl⟩ | ⟨none, rfl, computed⟩
      · exact ⟨rfl, rfl, fun _ _ => rfl, Or.inl rfl⟩
      · have set_ := hashesOf_setHashes s request.requestId hashes
        have mine := congrFun set_ request.requestId
        rw [Function.update_self] at mine
        refine ⟨rfl, mine, fun id different => ?_, Or.inr ⟨none, ?_⟩⟩
        · rw [set_, Function.update_of_ne different]
        · rw [mine]
          exact computed
    obtain ⟨unchanged, mine, others, from_⟩ := looked
    have pool : v.blockPool = s.blockPool := by rw [unchanged]
    cases logprobs : request.samplingParams.promptLogprobs with
    | some k =>
      simp only [logprobs] at call
      cases call
      exact ⟨by simp, unchanged, others, from_, HitsOf.nil _ _, fun _ absent => by rw [absent] at logprobs; cases logprobs⟩
    | none =>
      simp only [logprobs] at call
      obtain ⟨hits', w, inner, last⟩ := bind_ok call
      cases last
      obtain ⟨pool', inner, same⟩ := zoom_ok inner
      have indexed : v.blockPool.Indexed := by
        rw [pool]
        exact sound.pool.indexed
      obtain ⟨rfl, each, longest⟩ := cachedPrefix_ok indexed inner
      have here : t = v := same
      subst here
      refine ⟨rfl, unchanged, others, from_, ?_, fun _ _ => ?_⟩
      · intro i b at_
        rw [mine]
        exact each i b at_
      · rw [mine]
        exact longest

theorem Coherent.lookup (coherent : s.Coherent) (looked : LookedUp request hits s t) : t.Coherent := by
  have pool : t.blockPool = s.blockPool := by rw [looked.unchanged]
  have blocks : t.reqToBlocks = s.reqToBlocks := by rw [looked.unchanged]
  have caching : t.enableCaching = s.enableCaching := by rw [looked.unchanged]
  refine ⟨⟨?_, ?_⟩, ?_, ?_⟩
  · rw [pool, held_of_reqToBlocks blocks]
    exact coherent.sound.pool
  · rw [pool, caching]
    exact coherent.sound.caching
  · intro id i b h at_ hash
    rw [blocksOf_of_reqToBlocks blocks] at at_
    rw [pool] at hash
    have before := coherent.aligned id i b h at_ hash
    by_cases mine : id = request.requestId
    · subst mine
      rcases looked.hashes with same | ⟨none, -⟩
      · rw [same]
        exact before
      · rw [none] at before
        cases before
    · rw [looked.otherHashes id mine]
      exact before
  · intro b none
    rw [held_of_reqToBlocks blocks]
    rw [pool] at none
    exact coherent.single b none

end KVCacheManager
end Vllm.V1
