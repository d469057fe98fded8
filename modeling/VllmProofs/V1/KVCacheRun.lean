import VllmProofs.Data.Runs
import VllmProofs.V1.HashedBlocks

/-!
Runs of `KVCacheManager` in the hands of its callers: requests are added, looked up, given slots and
freed in any order, while their tokens grow.
-/

namespace Vllm.V1
open Exec Vllm.V1.BlockPool

/-- The manager, with the requests it is called for. -/
structure Cache where
  manager : KVCacheManager
  /-- Every `Request` object there has been; a `RequestRef` is a place in this list. -/
  objects : List Request := []
  live : RequestId → Option RequestRef := fun _ => none
  /-- What `get_computed_blocks` returned, when it was called last. -/
  justReturned : Option (RequestId × List BlockId) := none
  /-- The request that has taken a block out of the free queue last, and the block's place there. -/
  writer : BlockId → Option (RequestRef × ℕ) := fun _ => none
  /-- How many hashes of a request were computed by `hash_request_tokens`. -/
  fromPrompt : RequestId → ℕ := fun _ => 0

inductive CacheEvent where
  | add (request : Request)
  /-- The request has got tokens, and its caller sets its draft tokens and `num_computed_tokens`. -/
  | advance (id : RequestId) (tokenIds specTokenIds : List TokenId) (numComputedTokens : ℕ)
  | getComputedBlocks (id : RequestId)
  /-- `allocate_slots` with the first `numHits` of the blocks just returned. -/
  | allocateSlots (id : RequestId) (numTokens numHits : ℕ)
  | free (id : RequestId)
  /-- `free` and `free_block_hashes`, after which the id may be used again. -/
  | finish (id : RequestId)
  | resetPrefixCache

namespace Cache

def start (config : CacheConfig) : Cache := { manager := config.manager }

def request? (c : Cache) (id : RequestId) : Option (RequestRef × Request) := do
  let ref ← c.live id
  let request ← c.objects[ref]?
  return (ref, request)

def advanced (request : Request) (tokenIds specTokenIds : List TokenId) (numComputedTokens : ℕ) : Request :=
  { request.appendOutputTokenIds tokenIds with specTokenIds, numComputedTokens }

/-- The blocks just returned for a request. -/
def hitsFor (c : Cache) (id : RequestId) (numHits : ℕ) : List BlockId :=
  match c.justReturned with
  | none => []
  | some (id', blocks) => if id' = id then blocks.take numHits else []

/-- New blocks belong to a request from place `first` on. -/
def write (writer : BlockId → Option (RequestRef × ℕ)) (ref : RequestRef) (first : ℕ)
    (blocks : List BlockId) (b : BlockId) : Option (RequestRef × ℕ) :=
  if b ∈ blocks then some (ref, first + blocks.idxOf b) else writer b

/-- Callers pass hits for a request that has no blocks yet. What is left without the draft tokens, if
there are any, is not negative. -/
def Disciplined (c : Cache) : CacheEvent → Prop
  | .allocateSlots id numTokens numHits =>
    (c.hitsFor id numHits = [] ∨ c.manager.blocksOf id = []) ∧
      ∀ r ∈ (c.request? id).map Prod.snd, r.specTokenIds.length ≤
        r.numComputedTokens + (c.hitsFor id numHits).length * c.manager.blockSize + numTokens
  | _ => True

variable [TupleHash]

/-- One call; there is no next state when it raises. -/
def step (c : Cache) : CacheEvent → Option Cache
  | .add request =>
    if c.live request.requestId = none then
      some { c with
        objects := c.objects ++ [request]
        live := Function.update c.live request.requestId (some c.objects.length)
        fromPrompt := Function.update c.fromPrompt request.requestId 0 }
    else none
  | .advance id tokenIds specTokenIds numComputedTokens => do
    let (ref, request) ← c.request? id
    return { c with objects := c.objects.set ref (advanced request tokenIds specTokenIds numComputedTokens) }
  | .getComputedBlocks id => do
    let (_, request) ← c.request? id
    match KVCacheManager.getComputedBlocks request c.manager with
    | .ok (blocks, _) manager => some { c with
        manager
        justReturned := some (id, blocks)
        fromPrompt := if c.manager.hashesOf id = [] then
          Function.update c.fromPrompt id (manager.hashesOf id).length else c.fromPrompt }
    | .error _ _ => none
  | .allocateSlots id numTokens numHits => do
    let (ref, request) ← c.request? id
    let hits := c.hitsFor id numHits
    match KVCacheManager.allocateSlots request numTokens hits c.manager with
    | .ok none manager => some { c with manager, justReturned := none }
    | .ok (some blocks) manager =>
      let first := (c.manager.blocksOf id).length + hits.length
      some { c with manager, justReturned := none, writer := write c.writer ref first blocks }
    | .error _ _ => none
  | .free id => do
    let (_, request) ← c.request? id
    let manager ← next? (KVCacheManager.free request) c.manager
    return { c with manager, justReturned := none }
  | .finish id => do
    let (_, request) ← c.request? id
    let freed ← next? (KVCacheManager.free request) c.manager
    let manager ← next? (KVCacheManager.freeBlockHashes request) freed
    return { c with manager, justReturned := none, live := Function.update c.live id none }
  | .resetPrefixCache => do
    let manager ← next? KVCacheManager.resetPrefixCache c.manager
    return { c with manager, justReturned := none }

/-! ### What the manager guarantees -/

/-- The block has the hash of the tokens that its writer put at its place. -/
def Written (c : Cache) (b : BlockId) (h : BlockHash) : Prop :=
  ∃ ref i request keys, c.writer b = some (ref, i) ∧ c.objects[ref]? = some request ∧
    (i + 1) * c.manager.blockSize ≤ request.numTokens ∧
    h = chainHash keys c.manager.blockSize request.allTokenIds i

/-- The number of requests that hold a block. -/
def holders (c : Cache) (b : BlockId) : ℕ := c.manager.reqToBlocks.items.countP fun x => b ∈ x.2

structure Contract (c : Cache) : Prop where
  /-- Each holder counts once for each time it has the block. -/
  refCnt : ∀ b, (c.manager.blockPool.block b).refCnt = c.manager.held b
  /-- That is once, unless two blocks of a request have the same hash. -/
  refCnt_holders : (∀ id, (c.manager.hashesOf id).Nodup) →
    ∀ b, (c.manager.blockPool.block b).refCnt = c.holders b
  free : ∀ b, (c.manager.blockPool.freeBlockQueue.getAllFreeBlocks c.manager.blockPool.numGpuBlocks).count b =
    if b < c.manager.blockPool.numGpuBlocks ∧ (c.manager.blockPool.block b).refCnt = 0 then 1 else 0
  hashed : ∀ b h, c.manager.blockPool.hashOf b = some h ↔ c.manager.blockPool.entry h b = some ()
  written : ∀ b h, c.manager.blockPool.hashOf b = some h → c.Written b h
  /-- The hashes recorded for a request are those of its leading full blocks. -/
  chained : ∀ id ref request, c.request? id = some (ref, request) →
    IsChain c.manager.blockSize request.allTokenIds (c.manager.hashesOf id)
  aligned : ∀ id (i : ℕ) b h, (c.manager.blocksOf id)[i]? = some b →
    c.manager.blockPool.hashOf b = some h → (c.manager.hashesOf id)[i]? = some h
  allocate : ∀ request n hits, 0 < n →
    ((∃ t, KVCacheManager.allocateSlots request n hits c.manager = .ok none t) ↔
      c.manager.lacksBlocks request n hits)
  refuse : ∀ request n hits t, KVCacheManager.allocateSlots request n hits c.manager = .ok none t →
    t = c.manager
  lookup : ∀ id ref request hits m t, c.request? id = some (ref, request) →
    KVCacheManager.getComputedBlocks request c.manager = .ok (hits, m) t →
    request.samplingParams.promptLogprobs = none →
    t.blockPool = c.manager.blockPool ∧ m = hits.length * c.manager.blockSize ∧
      t.HitsOf id hits ∧ (c.manager.enableCaching = true →
        IsChain c.manager.blockSize request.allTokenIds (t.hashesOf id) ∧
        (t.hashesOf id = c.manager.hashesOf id ∨
          (t.hashesOf id).length = request.numTokens / c.manager.blockSize) ∧
        ∀ h, (t.hashesOf id)[hits.length]? = some h → ∀ b, t.blockPool.hashOf b ≠ some h)

/-! ### The invariant of runs -/

structure Serving (c : Cache) : Prop where
  positive : 0 < c.manager.blockSize
  coherent : c.manager.Coherent
  requests : ∀ id ref, c.live id = some ref →
    ∃ request, c.objects[ref]? = some request ∧ request.requestId = id
  chained : ∀ id ref request, c.request? id = some (ref, request) →
    IsChain c.manager.blockSize request.allTokenIds (c.manager.hashesOf id)
  idle : ∀ id, c.live id = none → c.manager.blocksOf id = [] ∧ c.manager.hashesOf id = []
  counts : ∀ id m, c.manager.numCachedBlock.get? id = some m → 0 ≤ m
  returned : ∀ id hits, c.justReturned = some (id, hits) → c.manager.HitsOf id hits
  written : ∀ b h, c.manager.blockPool.hashOf b = some h → c.Written b h
  owner : ∀ id (i : ℕ) b, (c.manager.blocksOf id)[i]? = some b → c.manager.blockPool.hashOf b = none →
    ∃ ref, c.live id = some ref ∧ c.writer b = some (ref, i)

variable {c d : Cache} {id : RequestId} {ref : RequestRef} {request : Request}

omit [TupleHash] in
theorem request?_eq_some : c.request? id = some (ref, request) ↔
    c.live id = some ref ∧ c.objects[ref]? = some request := by
  unfold request?
  cases live : c.live id with
  | none => simp
  | some ref' =>
    cases at_ : c.objects[ref']? with
    | none =>
      simp only [Option.bind_eq_bind, Option.bind_some, at_, Option.bind_none, false_iff, reduceCtorEq,
        Option.some.injEq, not_and]
      rintro rfl
      rw [at_]
      nofun
    | some request' =>
      simp only [Option.bind_eq_bind, Option.bind_some, at_, Option.pure_def, Option.some.injEq, Prod.mk.injEq]
      constructor
      · rintro ⟨rfl, rfl⟩
        exact ⟨rfl, at_⟩
      · rintro ⟨rfl, found⟩
        rw [at_, Option.some.injEq] at found
        exact ⟨rfl, found⟩

theorem Serving.names (serving : c.Serving) (found : c.request? id = some (ref, request)) :
    request.requestId = id := by
  obtain ⟨live, at_⟩ := request?_eq_some.mp found
  obtain ⟨request', at_', mine⟩ := serving.requests id ref live
  rw [at_, Option.some.injEq] at at_'
  subst at_'
  exact mine

structure Continues (request request' : Request) : Prop where
  requestId : request'.requestId = request.requestId
  tokens : ∃ more, request'.allTokenIds = request.allTokenIds ++ more
  mmPositions : request'.mmPositions = request.mmPositions
  mmHashes : request'.mmHashes = request.mmHashes
  loraRequest : request'.loraRequest = request.loraRequest

omit [TupleHash] in
theorem Continues.refl (request : Request) : Continues request request :=
  ⟨rfl, ⟨[], (List.append_nil _).symm⟩, rfl, rfl, rfl⟩

/-- The objects there were are there, and their tokens have only grown. -/
def Grown (c d : Cache) : Prop :=
  ∀ (ref : ℕ) request, c.objects[ref]? = some request →
    ∃ request', d.objects[ref]? = some request' ∧ Continues request request'

omit [TupleHash] in
theorem Grown.of_same (same : d.objects = c.objects) : Grown c d := by
  intro ref request at_
  rw [same]
  exact ⟨request, at_, Continues.refl request⟩

theorem Written.grown {b : BlockId} {h : BlockHash} (written : c.Written b h) (grown : Grown c d)
    (blockSize : d.manager.blockSize = c.manager.blockSize) (writer : d.writer b = c.writer b) :
    d.Written b h := by
  obtain ⟨ref, i, request, keys, wrote, at_, inside, rfl⟩ := written
  obtain ⟨request', at_', continues⟩ := grown ref request at_
  obtain ⟨more, tokens⟩ := continues.tokens
  refine ⟨ref, i, request', keys, writer.trans wrote, at_', ?_, ?_⟩
  · rw [blockSize, Request.numTokens, tokens, List.length_append]
    exact Nat.le_add_right_of_le inside
  · rw [blockSize, tokens, chainHash_append inside]

/-- Only the requests have changed, and those that were live have grown. -/
theorem Serving.grow (serving : c.Serving) (grown : Grown c d) (manager : d.manager = c.manager)
    (returned : d.justReturned = c.justReturned) (writer : d.writer = c.writer)
    (live : ∀ id, d.live id = c.live id ∨ c.live id = none ∧
      ∃ ref request, d.live id = some ref ∧ d.objects[ref]? = some request ∧ request.requestId = id) :
    d.Serving := by
  refine ⟨?_, ?_, ?_, ?_, ?_, ?_, ?_, ?_, ?_⟩
  · rw [manager]
    exact serving.positive
  · rw [manager]
    exact serving.coherent
  · intro id ref mine
    rcases live id with same | ⟨-, ref', request', mine', at_, named⟩
    · rw [same] at mine
      obtain ⟨request, at_, named⟩ := serving.requests id ref mine
      obtain ⟨request', at_', continues⟩ := grown ref request at_
      exact ⟨request', at_', continues.requestId.trans named⟩
    · rw [mine', Option.some.injEq] at mine
      subst mine
      exact ⟨request', at_, named⟩
  · intro id ref request found
    obtain ⟨mine, at_⟩ := request?_eq_some.mp found
    rw [manager]
    rcases live id with same | ⟨none, -⟩
    · rw [same] at mine
      obtain ⟨request₀, at_₀, -⟩ := serving.requests id ref mine
      obtain ⟨request', at_', continues⟩ := grown ref request₀ at_₀
      obtain ⟨more, tokens⟩ := continues.tokens
      rw [at_, Option.some.injEq] at at_'
      subst at_'
      rw [tokens]
      exact (serving.chained id ref request₀ (request?_eq_some.mpr ⟨mine, at_₀⟩)).append
    · rw [(serving.idle id none).2]
      exact IsChain.nil
  · intro id none
    rw [manager]
    rcases live id with same | ⟨unused, -⟩
    · exact serving.idle id (same.symm.trans none)
    · exact serving.idle id unused
  · rw [manager]
    exact serving.counts
  · rw [manager, returned]
    exact serving.returned
  · intro b h hash
    rw [manager] at hash
    exact (serving.written b h hash).grown grown (by rw [manager]) (by rw [writer])
  · intro id i b at_ none
    rw [manager] at at_ none
    obtain ⟨ref, mine, wrote⟩ := serving.owner id i b at_ none
    rcases live id with same | ⟨unused, -⟩
    · exact ⟨ref, same.trans mine, by rw [writer, wrote]⟩
    · rw [unused] at mine
      cases mine

/-! ### Each call keeps it -/

omit [TupleHash] in
theorem grown_add (c : Cache) (request : Request) (live : RequestId → Option RequestRef)
    (fromPrompt : RequestId → ℕ) :
    Grown c { c with objects := c.objects ++ [request], live, fromPrompt } := by
  intro ref request' at_
  exact ⟨request', getElem?_of_prefix (List.prefix_append _ _) at_, Continues.refl request'⟩

theorem Serving.add (serving : c.Serving) (unused : c.live request.requestId = none)
    (fromPrompt : RequestId → ℕ) :
    Serving { c with
      objects := c.objects ++ [request]
      live := Function.update c.live request.requestId (some c.objects.length)
      fromPrompt } := by
  apply serving.grow
  · exact grown_add c request _ _
  · rfl
  · rfl
  · rfl
  · intro id
    by_cases mine : id = request.requestId
    · subst mine
      right
      refine ⟨unused, c.objects.length, request, Function.update_self _ _ _, ?_, rfl⟩
      exact List.getElem?_concat_length
    · exact Or.inl (Function.update_of_ne mine _ _)

omit [TupleHash] in
theorem grown_advance (found : c.request? id = some (ref, request)) (tokenIds specTokenIds : List TokenId)
    (numComputedTokens : ℕ) :
    Grown c { c with
      objects := c.objects.set ref (advanced request tokenIds specTokenIds numComputedTokens) } := by
  obtain ⟨-, here⟩ := request?_eq_some.mp found
  intro ref' request' at_
  by_cases mine : ref = ref'
  · subst mine
    rw [here, Option.some.injEq] at at_
    subst at_
    refine ⟨advanced request tokenIds specTokenIds numComputedTokens, ?_, rfl,
      ⟨tokenIds, request.allTokenIds_append tokenIds⟩, rfl, rfl, rfl⟩
    exact List.getElem?_set_self (List.getElem?_eq_some_iff.mp here).1
  · refine ⟨request', ?_, Continues.refl request'⟩
    rw [List.getElem?_set_ne mine]
    exact at_

theorem Serving.advance (serving : c.Serving) (found : c.request? id = some (ref, request))
    (tokenIds specTokenIds : List TokenId) (numComputedTokens : ℕ) :
    Serving { c with
      objects := c.objects.set ref (advanced request tokenIds specTokenIds numComputedTokens) } := by
  apply serving.grow (grown_advance found tokenIds specTokenIds numComputedTokens)
  · rfl
  · rfl
  · rfl
  · exact fun id => Or.inl rfl

variable {hits : List BlockId} {t : KVCacheManager}

theorem Serving.lookup {m : ℕ} (serving : c.Serving) (found : c.request? id = some (ref, request))
    (call : KVCacheManager.getComputedBlocks request c.manager = .ok (hits, m) t)
    (fromPrompt : RequestId → ℕ) :
    Serving { c with manager := t, justReturned := some (id, hits), fromPrompt } := by
  obtain rfl := serving.names found
  obtain ⟨-, looked⟩ := KVCacheManager.getComputedBlocks_ok serving.coherent.sound call
  have blocks : t.blocksOf = c.manager.blocksOf := by
    rw [looked.unchanged]
    rfl
  have pool : t.blockPool = c.manager.blockPool := by rw [looked.unchanged]
  have blockSize : t.blockSize = c.manager.blockSize := by rw [looked.unchanged]
  have chainedT : IsChain c.manager.blockSize request.allTokenIds (t.hashesOf request.requestId) := by
    rcases looked.hashes with same | ⟨-, computed⟩
    · rw [same]
      exact serving.chained _ ref request found
    · exact hashRequestTokens_isChain computed
  refine ⟨blockSize ▸ serving.positive, serving.coherent.lookup looked, serving.requests, ?_, ?_, ?_, ?_, ?_, ?_⟩
  · intro id ref' request' found'
    show IsChain t.blockSize request'.allTokenIds (t.hashesOf id)
    rw [blockSize]
    by_cases mine : id = request.requestId
    · subst mine
      have same : c.request? request.requestId = some (ref', request') := found'
      rw [found, Option.some.injEq, Prod.mk.injEq] at same
      obtain ⟨rfl, rfl⟩ := same
      exact chainedT
    · rw [looked.otherHashes id mine]
      exact serving.chained id ref' request' found'
  · intro id none
    show t.blocksOf id = [] ∧ t.hashesOf id = []
    have different : id ≠ request.requestId := by
      rintro rfl
      obtain ⟨mine, -⟩ := request?_eq_some.mp found
      rw [none] at mine
      cases mine
    rw [blocks, looked.otherHashes id different]
    exact serving.idle id none
  · show ∀ id m, t.numCachedBlock.get? id = some m → 0 ≤ m
    rw [looked.unchanged]
    exact serving.counts
  · rintro id hits' ⟨⟩
    exact looked.found
  · intro b h hash
    have before : c.manager.blockPool.hashOf b = some h := by
      rw [← pool]
      exact hash
    exact (serving.written b h before).grown (Grown.of_same rfl) blockSize rfl
  · intro id i b at_ none
    have before : c.manager.blockPool.hashOf b = Option.none := by
      rw [← pool]
      exact none
    have here : (t.blocksOf id)[i]? = some b := at_
    rw [blocks] at here
    exact serving.owner id i b here before

/-- The manager's lists of a request are dropped, hashes stay on their blocks. -/
theorem Serving.free {u : Unit} (serving : c.Serving) (found : c.request? id = some (ref, request))
    (call : KVCacheManager.free request c.manager = .ok u t) :
    Serving { c with manager := t, justReturned := none } := by
  obtain rfl := serving.names found
  have freed := KVCacheManager.free_ok serving.coherent.sound call
  have hashes := KVCacheManager.hashesOf_of_reqToBlockHashes freed.reqToBlockHashes
  refine ⟨freed.config.blockSize ▸ serving.positive, serving.coherent.free call, serving.requests, ?_, ?_, ?_, nofun, ?_, ?_⟩
  · intro id ref' request' found'
    show IsChain t.blockSize request'.allTokenIds (t.hashesOf id)
    rw [freed.config.blockSize, hashes]
    exact serving.chained id ref' request' found'
  · intro id none
    show t.blocksOf id = [] ∧ t.hashesOf id = []
    rw [hashes, freed.blocksOf]
    obtain ⟨blocks, hashes⟩ := serving.idle id none
    refine ⟨?_, hashes⟩
    by_cases mine : id = request.requestId
    · rw [mine, Function.update_self]
    · rw [Function.update_of_ne mine]
      exact blocks
  · intro id m known
    have before : t.numCachedBlock.get? id = some m := known
    rw [freed.numCachedBlock, Dict.get?_erase] at before
    split at before
    · cases before
    · exact serving.counts id m before
  · intro b h hash
    have before : t.blockPool.hashOf b = some h := hash
    rw [freed.hashOf] at before
    exact (serving.written b h before).grown (Grown.of_same rfl) freed.config.blockSize rfl
  · intro id i b at_ none
    have here : (t.blocksOf id)[i]? = some b := at_
    have unhashed : t.blockPool.hashOf b = Option.none := none
    rw [freed.hashOf] at unhashed
    rw [freed.blocksOf] at here
    by_cases mine : id = request.requestId
    · rw [mine, Function.update_self] at here
      cases here
    · rw [Function.update_of_ne mine] at here
      exact serving.owner id i b here unhashed

/-- The hashes of a request without blocks are dropped, and its id is unused from then on. -/
theorem Serving.retire {u : Unit} (serving : c.Serving)
    (found : c.request? id = some (ref, request)) (empty : c.manager.blocksOf id = [])
    (call : KVCacheManager.freeBlockHashes request c.manager = .ok u t) :
    Serving { c with manager := t, justReturned := none, live := Function.update c.live id none } := by
  obtain rfl := serving.names found
  obtain ⟨unchanged, hashesT⟩ := KVCacheManager.freeBlockHashes_ok call
  have hashes : ∀ id ≠ request.requestId, t.hashesOf id = c.manager.hashesOf id := fun id different => by
    rw [hashesT, Function.update_of_ne different]
  have mine : t.hashesOf request.requestId = [] := by
    rw [hashesT, Function.update_self]
  generalize t.reqToBlockHashes = kept at unchanged
  subst unchanged
  have sound := serving.coherent.sound
  refine ⟨serving.positive, ⟨⟨sound.pool, sound.caching⟩, ?_, serving.coherent.single⟩, ?_, ?_, ?_,
    serving.counts, nofun, ?_, ?_⟩
  · intro id i b h at_ hash
    have different : id ≠ request.requestId := by
      rintro rfl
      have here : (c.manager.blocksOf request.requestId)[i]? = some b := at_
      rw [empty] at here
      cases here
    rw [hashes id different]
    exact serving.coherent.aligned id i b h at_ hash
  · intro id ref' mine
    have live : Function.update c.live request.requestId none id = some ref' := mine
    by_cases same : id = request.requestId
    · rw [same, Function.update_self] at live
      cases live
    · rw [Function.update_of_ne same] at live
      exact serving.requests id ref' live
  · intro id ref' request' found'
    obtain ⟨mine, at_⟩ := request?_eq_some.mp found'
    have live : Function.update c.live request.requestId none id = some ref' := mine
    by_cases same : id = request.requestId
    · rw [same, Function.update_self] at live
      cases live
    · rw [Function.update_of_ne same] at live
      rw [hashes id same]
      exact serving.chained id ref' request' (request?_eq_some.mpr ⟨live, at_⟩)
  · intro id none
    have unused : Function.update c.live request.requestId Option.none id = Option.none := none
    by_cases same : id = request.requestId
    · subst same
      exact ⟨empty, mine⟩
    · rw [Function.update_of_ne same] at unused
      rw [hashes id same]
      exact serving.idle id unused
  · exact fun b h hash => (serving.written b h hash).grown (Grown.of_same rfl) rfl rfl
  · intro id i b at_ none
    obtain ⟨ref', mine, wrote⟩ := serving.owner id i b at_ none
    have different : id ≠ request.requestId := by
      rintro rfl
      have here : (c.manager.blocksOf request.requestId)[i]? = some b := at_
      rw [empty] at here
      cases here
    exact ⟨ref', (Function.update_of_ne different _ _).trans mine, wrote⟩

theorem Serving.reset {done : Bool} (serving : c.Serving)
    (call : KVCacheManager.resetPrefixCache c.manager = .ok done t) :
    Serving { c with manager := t, justReturned := none } := by
  have reset := KVCacheManager.resetPrefixCache_ok serving.coherent.sound call
  have blocks := KVCacheManager.blocksOf_of_reqToBlocks reset.reqToBlocks
  have hashes := KVCacheManager.hashesOf_of_reqToBlockHashes reset.reqToBlockHashes
  refine ⟨reset.config.blockSize ▸ serving.positive, serving.coherent.resetPrefixCache call, serving.requests, ?_, ?_, ?_, nofun, ?_, ?_⟩
  · intro id ref request found
    show IsChain t.blockSize request.allTokenIds (t.hashesOf id)
    rw [reset.config.blockSize, hashes]
    exact serving.chained id ref request found
  · intro id none
    show t.blocksOf id = [] ∧ t.hashesOf id = []
    rw [blocks, hashes]
    exact serving.idle id none
  · show ∀ id m, t.numCachedBlock.get? id = some m → 0 ≤ m
    rw [reset.numCachedBlock]
    exact serving.counts
  · intro b h hash
    have after : t.blockPool.hashOf b = some h := hash
    cases done with
    | false =>
      rw [reset.kept rfl] at after
      exact (serving.written b h after).grown (Grown.of_same rfl) reset.config.blockSize rfl
    | true =>
      rw [(reset.dropped rfl).2 b] at after
      cases after
  · intro id i b at_ none
    have here : (t.blocksOf id)[i]? = some b := at_
    rw [blocks] at here
    cases done with
    | false =>
      have unhashed : t.blockPool.hashOf b = Option.none := none
      rw [reset.kept rfl] at unhashed
      exact serving.owner id i b here unhashed
    | true =>
      have unheld := (reset.dropped rfl).1 b
      have held := KVCacheManager.held_pos_of_mem (List.mem_of_getElem? here)
      omega

variable {blocks : List BlockId} {writer : BlockId → Option (RequestRef × ℕ)}

omit [TupleHash] in
theorem write_of_mem {first j : ℕ}
    {b : BlockId} (nodup : blocks.Nodup) (at_ : blocks[j]? = some b) :
    write writer ref first blocks b = some (ref, first + j) := by
  obtain ⟨inside, rfl⟩ := List.getElem?_eq_some_iff.mp at_
  unfold write
  rw [if_pos (List.getElem_mem inside), nodup.idxOf_getElem]

omit [TupleHash] in
theorem write_of_not_mem {first : ℕ}
    {b : BlockId} (outside : b ∉ blocks) : write writer ref first blocks b = writer b := if_neg outside

variable {n : ℕ}

omit [TupleHash] in
theorem numFullBlocks_nonneg {s : KVCacheManager}
    (drafts : request.specTokenIds.length ≤ request.numComputedTokens + hits.length * s.blockSize + n) :
    0 ≤ s.numFullBlocks request n hits := by
  have left : (request.specTokenIds.length : ℤ) ≤
      (request.numComputedTokens + hits.length * s.blockSize + n : ℕ) := Int.ofNat_le.mpr drafts
  push_cast at left
  apply Int.ediv_nonneg
  · omega
  · exact Int.natCast_nonneg _

theorem Serving.extended (serving : c.Serving)
    (found : c.request? id = some (ref, request)) (known : c.manager.HitsOf id hits)
    (fits : hits = [] ∨ c.manager.blocksOf id = [])
    (drafts : request.specTokenIds.length ≤
      request.numComputedTokens + hits.length * c.manager.blockSize + n)
    (call : KVCacheManager.allocateSlots request n hits c.manager = .ok (some blocks) t) :
    t.Coherent ∧ Extended request c.manager.blockSize (c.manager.hashesOf id) (t.hashesOf id) := by
  obtain rfl := serving.names found
  have start : 0 ≤ c.manager.numCachedBlocks request.requestId hits := by
    unfold KVCacheManager.numCachedBlocks
    cases count : c.manager.numCachedBlock.get? request.requestId with
    | none => exact Int.natCast_nonneg _
    | some m => exact serving.counts _ m count
  exact serving.coherent.allocateSlots known fits start (numFullBlocks_nonneg drafts) call

theorem Serving.allocate (serving : c.Serving)
    (found : c.request? id = some (ref, request)) (known : c.manager.HitsOf id hits)
    (fits : hits = [] ∨ c.manager.blocksOf id = [])
    (drafts : request.specTokenIds.length ≤
      request.numComputedTokens + hits.length * c.manager.blockSize + n)
    (call : KVCacheManager.allocateSlots request n hits c.manager = .ok (some blocks) t) :
    Serving { c with
      manager := t
      justReturned := none
      writer := write c.writer ref ((c.manager.blocksOf id).length + hits.length) blocks } := by
  obtain rfl := serving.names found
  obtain ⟨mine, at_⟩ := request?_eq_some.mp found
  have full := numFullBlocks_nonneg (s := c.manager) drafts
  obtain ⟨coherent, extended⟩ := serving.extended found known fits drafts call
  have allocated := KVCacheManager.allocateSlots_ok serving.coherent.sound
    (known.inside serving.coherent.sound) call
  have blockSize := allocated.config.blockSize
  have chained := extended.isChain (serving.chained _ ref request found)
  have blocksT : t.blocksOf request.requestId =
      c.manager.blocksOf request.requestId ++ hits ++ blocks := by
    rw [allocated.blocksOf, Function.update_self]
  have othersT : ∀ id ≠ request.requestId, t.blocksOf id = c.manager.blocksOf id := by
    intro id different
    rw [allocated.blocksOf, Function.update_of_ne different]
  -- the place of a block that is neither new nor a hit
  have older : ∀ (i : ℕ) b, (t.blocksOf request.requestId)[i]? = some b → b ∉ blocks →
      c.manager.blockPool.hashOf b = none → (c.manager.blocksOf request.requestId)[i]? = some b := by
    intro i b here outside unhashed
    rw [blocksT, List.getElem?_append] at here
    split at here
    · rw [List.getElem?_append] at here
      split at here
      · exact here
      · exact (known.hashed (List.mem_of_getElem? here) unhashed).elim
    · exact (outside (List.mem_of_getElem? here)).elim
  have newer : ∀ (j : ℕ) b, blocks[j]? = some b →
      (t.blocksOf request.requestId)[(c.manager.blocksOf request.requestId).length + hits.length + j]? =
        some b := by
    intro j b here
    rw [blocksT, ← List.length_append, List.getElem?_append_right (Nat.le_add_right _ _),
      Nat.add_sub_cancel_left]
    exact here
  refine ⟨blockSize ▸ serving.positive, coherent, serving.requests, ?_, ?_, ?_, nofun, ?_, ?_⟩
  · intro id ref' request' found'
    show IsChain t.blockSize request'.allTokenIds (t.hashesOf id)
    rw [blockSize]
    by_cases same : id = request.requestId
    · subst same
      have again : c.request? request.requestId = some (ref', request') := found'
      rw [found, Option.some.injEq, Prod.mk.injEq] at again
      obtain ⟨rfl, rfl⟩ := again
      exact chained
    · rw [allocated.otherHashes id same]
      exact serving.chained id ref' request' found'
  · intro id none
    show t.blocksOf id = [] ∧ t.hashesOf id = []
    have different : id ≠ request.requestId := by
      rintro rfl
      rw [none] at mine
      cases mine
    rw [othersT id different, allocated.otherHashes id different]
    exact serving.idle id none
  · intro id m count
    have after : t.numCachedBlock.get? id = some m := count
    rw [allocated.numCachedBlock] at after
    split at after
    · rw [Dict.get?_insert] at after
      split at after
      · cases after
        exact full
      · exact serving.counts id m after
    · exact serving.counts id m after
  · intro b h hash
    have after : t.blockPool.hashOf b = some h := hash
    by_cases member : b ∈ blocks
    · obtain ⟨j, here⟩ := List.mem_iff_getElem?.mp member
      have place := coherent.aligned _ _ b h (newer j b here) after
      obtain ⟨inside, keys, rfl⟩ := chained.getElem? place
      refine ⟨ref, _, request, keys, write_of_mem allocated.nodup here, at_, ?_, ?_⟩
      · rw [blockSize]
        exact inside
      · rw [blockSize]
    · cases before : c.manager.blockPool.hashOf b with
      | some h' =>
        rw [allocated.kept b member (by rw [before]; nofun), before] at after
        cases after
        exact (serving.written b h before).grown (Grown.of_same rfl) blockSize (write_of_not_mem member)
      | none =>
        have inside : b ∈ t.blocksOf request.requestId := by
          by_contra outside
          rw [blocksT] at outside
          rw [allocated.others b outside, before] at after
          cases after
        obtain ⟨i, here⟩ := List.mem_iff_getElem?.mp inside
        obtain ⟨full, keys, rfl⟩ := chained.getElem? (coherent.aligned _ i b h here after)
        obtain ⟨ref', mine', wrote⟩ := serving.owner _ i b (older i b here member before) before
        rw [mine, Option.some.injEq] at mine'
        subst mine'
        refine ⟨ref, i, request, keys, (write_of_not_mem member).trans wrote, at_, ?_, ?_⟩
        · rw [blockSize]
          exact full
        · rw [blockSize]
  · intro id i b here none
    have inT : (t.blocksOf id)[i]? = some b := here
    have after : t.blockPool.hashOf b = Option.none := none
    by_cases member : b ∈ blocks
    · obtain ⟨j, place⟩ := List.mem_iff_getElem?.mp member
      obtain ⟨rfl, rfl⟩ := KVCacheManager.held_unique (coherent.single b after) inT (newer j b place)
      exact ⟨ref, mine, write_of_mem allocated.nodup place⟩
    · have before : c.manager.blockPool.hashOf b = Option.none := by
        by_contra some
        rw [allocated.kept b member some] at after
        exact some after
      have there : (c.manager.blocksOf id)[i]? = some b := by
        by_cases same : id = request.requestId
        · subst same
          exact older i b inT member before
        · rw [othersT id same] at inT
          exact inT
      obtain ⟨ref', mine', wrote⟩ := serving.owner id i b there before
      exact ⟨ref', mine', (write_of_not_mem member).trans wrote⟩

theorem hitsFor_hits (id : RequestId) (numHits : ℕ) (serving : c.Serving) :
    c.manager.HitsOf id (c.hitsFor id numHits) := by
  unfold hitsFor
  split
  · exact KVCacheManager.HitsOf.nil _ _
  · rename_i id' blocks returned
    split
    · rename_i same
      subst same
      exact (serving.returned id' blocks returned).take numHits
    · exact KVCacheManager.HitsOf.nil _ _

theorem Serving.step {e : CacheEvent} (serving : c.Serving) (disciplined : c.Disciplined e)
    (stepped : c.step e = some d) : d.Serving := by
  cases e with
  | add request =>
    simp only [Cache.step] at stepped
    split at stepped
    · rename_i unused
      cases stepped
      exact serving.add unused _
    · cases stepped
  | advance id tokenIds specTokenIds numComputedTokens =>
    obtain ⟨⟨ref, request⟩, found, stepped⟩ := Option.bind_eq_some_iff.mp stepped
    cases stepped
    exact serving.advance found tokenIds specTokenIds numComputedTokens
  | getComputedBlocks id =>
    obtain ⟨⟨ref, request⟩, found, stepped⟩ := Option.bind_eq_some_iff.mp stepped
    dsimp only at stepped
    cases call : KVCacheManager.getComputedBlocks request c.manager with
    | error raised t =>
      rw [call] at stepped
      cases stepped
    | ok returned t =>
      rw [call] at stepped
      cases stepped
      exact serving.lookup found call _
  | allocateSlots id numTokens numHits =>
    obtain ⟨⟨ref, request⟩, found, stepped⟩ := Option.bind_eq_some_iff.mp stepped
    dsimp only at stepped
    cases call : KVCacheManager.allocateSlots request numTokens (c.hitsFor id numHits) c.manager with
    | error raised t =>
      rw [call] at stepped
      cases stepped
    | ok returned t =>
      rw [call] at stepped
      cases returned with
      | none =>
        cases stepped
        obtain ⟨-, -, rfl⟩ := KVCacheManager.allocateSlots_none call
        exact ⟨serving.positive, serving.coherent, serving.requests, serving.chained, serving.idle, serving.counts, nofun,
          serving.written, serving.owner⟩
      | some blocks =>
        cases stepped
        exact serving.allocate found (hitsFor_hits _ _ serving) disciplined.1
          (disciplined.2 request (by rw [found]; rfl)) call
  | free id =>
    obtain ⟨⟨ref, request⟩, found, stepped⟩ := Option.bind_eq_some_iff.mp stepped
    obtain ⟨t, freed, stepped⟩ := Option.bind_eq_some_iff.mp stepped
    cases stepped
    obtain ⟨_, call⟩ := next?_eq_some.mp freed
    exact serving.free found call
  | finish id =>
    obtain ⟨⟨ref, request⟩, found, stepped⟩ := Option.bind_eq_some_iff.mp stepped
    obtain ⟨v, freed, stepped⟩ := Option.bind_eq_some_iff.mp stepped
    obtain ⟨t, dropped, stepped⟩ := Option.bind_eq_some_iff.mp stepped
    cases stepped
    obtain ⟨_, call⟩ := next?_eq_some.mp freed
    obtain ⟨_, call'⟩ := next?_eq_some.mp dropped
    have empty : v.blocksOf id = [] := by
      have gone := (KVCacheManager.free_ok serving.coherent.sound call).blocksOf
      rw [gone, serving.names found, Function.update_self]
    exact (serving.free found call).retire (c := { c with manager := v, justReturned := none }) found empty call'
  | resetPrefixCache =>
    obtain ⟨t, done, stepped⟩ := Option.bind_eq_some_iff.mp stepped
    cases stepped
    obtain ⟨_, call⟩ := next?_eq_some.mp done
    exact serving.reset call

theorem serving_start (config : CacheConfig) : (start config).Serving := by
  have blocks : ∀ id, (start config).manager.blocksOf id = [] := fun _ => rfl
  have hashes : ∀ id, (start config).manager.hashesOf id = [] := fun _ => rfl
  have unhashed : ∀ b, (start config).manager.blockPool.hashOf b = none := fun _ => rfl
  have unused : ∀ id, (start config).live id = none := fun _ => rfl
  have uncounted : ∀ id, (start config).manager.numCachedBlock.get? id = none := fun _ => rfl
  have sound := KVCacheManager.init_sound config.someBlocks config.blockSize config.maxModelLen
    config.enableCaching config.numPreallocateTokens
  constructor
  · exact config.blocksHaveSlots
  · constructor
    · exact sound
    · intro id i b h at_
      rw [blocks] at at_
      cases at_
    · intro b _
      exact Nat.zero_le 1
  · intro id ref mine
    rw [unused] at mine
    cases mine
  · intro id ref request found
    obtain ⟨mine, -⟩ := request?_eq_some.mp found
    rw [unused] at mine
    cases mine
  · exact fun id _ => ⟨blocks id, hashes id⟩
  · intro id m count
    rw [uncounted] at count
    cases count
  · intro id hits returned
    cases returned
  · intro b h hash
    rw [unhashed] at hash
    cases hash
  · intro id i b at_
    rw [blocks] at at_
    cases at_

theorem Serving.blocks_nodup (serving : c.Serving) (distinct : ∀ id, (c.manager.hashesOf id).Nodup)
    (id : RequestId) : (c.manager.blocksOf id).Nodup := by
  apply List.nodup_iff_getElem?_ne_getElem?.mpr
  intro i j lt inside same
  have there := List.getElem?_eq_getElem inside
  have here := same.trans there
  cases hash : c.manager.blockPool.hashOf (c.manager.blocksOf id)[j] with
  | none =>
    have one := (KVCacheManager.held_unique (serving.coherent.single _ hash) here there).2
    omega
  | some h =>
    have first := serving.coherent.aligned id i _ h here hash
    have second := serving.coherent.aligned id j _ h there hash
    have end_ := (List.getElem?_eq_some_iff.mp second).1
    exact List.nodup_iff_getElem?_ne_getElem?.mp (distinct id) i j lt end_ (first.trans second.symm)

theorem Serving.held_eq_holders (serving : c.Serving) (distinct : ∀ id, (c.manager.hashesOf id).Nodup)
    (b : BlockId) : c.manager.held b = c.holders b := by
  unfold KVCacheManager.held holders
  apply Dict.sum_eq_countP (p := fun blocks => b ∈ blocks)
  rintro ⟨id, blocks⟩ member
  have found := Dict.mem_items_iff.mp member
  have nodup := serving.blocks_nodup distinct id
  unfold KVCacheManager.blocksOf at nodup
  rw [found] at nodup
  exact nodup.count

theorem Serving.count_free (serving : c.Serving) (b : BlockId) :
    (c.manager.blockPool.freeBlockQueue.getAllFreeBlocks c.manager.blockPool.numGpuBlocks).count b =
      if b < c.manager.blockPool.numGpuBlocks ∧ (c.manager.blockPool.block b).refCnt = 0 then 1 else 0 := by
  have zero := serving.coherent.sound.pool.refCnt b
  rw [serving.coherent.sound.pool.count_free]
  simp only [zero, Nat.cast_eq_zero]

omit [TupleHash] in
theorem allocateSlots_none_iff [TupleHash] {s : KVCacheManager} (some : 0 < n) :
    (∃ t, KVCacheManager.allocateSlots request n hits s = .ok none t) ↔ s.lacksBlocks request n hits := by
  constructor
  · rintro ⟨t, call⟩
    exact (KVCacheManager.allocateSlots_none call).2.1
  · intro lacks
    refine ⟨s, ?_⟩
    unfold KVCacheManager.allocateSlots
    rw [get_bind, if_neg (by omega), if_pos lacks]
    rfl

theorem Serving.lookup_longest {m : ℕ} (serving : c.Serving)
    (found : c.request? id = some (ref, request))
    (call : KVCacheManager.getComputedBlocks request c.manager = .ok (hits, m) t)
    (plain : request.samplingParams.promptLogprobs = none) :
    t.blockPool = c.manager.blockPool ∧ m = hits.length * c.manager.blockSize ∧
      t.HitsOf id hits ∧ (c.manager.enableCaching = true →
        IsChain c.manager.blockSize request.allTokenIds (t.hashesOf id) ∧
        (t.hashesOf id = c.manager.hashesOf id ∨
          (t.hashesOf id).length = request.numTokens / c.manager.blockSize) ∧
        ∀ h, (t.hashesOf id)[hits.length]? = some h → ∀ b, t.blockPool.hashOf b ≠ some h) := by
  have after := serving.lookup found call c.fromPrompt
  obtain rfl := serving.names found
  obtain ⟨count, looked⟩ := KVCacheManager.getComputedBlocks_ok serving.coherent.sound call
  have pool : t.blockPool = c.manager.blockPool := by rw [looked.unchanged]
  have blockSize : t.blockSize = c.manager.blockSize := by rw [looked.unchanged]
  refine ⟨pool, count, looked.found, fun caching => ⟨?_, ?_, looked.longest caching plain⟩⟩
  · have chained := after.chained request.requestId ref request found
    rw [← blockSize]
    exact chained
  · rcases looked.hashes with same | ⟨-, computed⟩
    · exact Or.inl same
    · right
      exact length_hashRequestTokens serving.positive computed

theorem Serving.contract (serving : c.Serving) : c.Contract where
  refCnt := serving.coherent.sound.pool.refCnt
  refCnt_holders distinct b := by
    rw [← serving.held_eq_holders distinct]
    exact serving.coherent.sound.pool.refCnt b
  free := serving.count_free
  hashed := serving.coherent.sound.pool.indexed.hashed
  written := serving.written
  chained := serving.chained
  aligned := serving.coherent.aligned
  allocate _ _ _ some := allocateSlots_none_iff some
  refuse _ _ _ _ call := (KVCacheManager.allocateSlots_none call).2.2
  lookup _ _ _ _ _ _ found call plain := serving.lookup_longest found call plain

/-- Every run keeps the contract. -/
theorem run_contract {config : CacheConfig} {h : List CacheEvent}
    (run : Run (fun c e d => c.Disciplined e ∧ c.step e = some d) (start config) h c) : c.Contract := by
  have serving := run.invariant (I := fun _ c => c.Serving) (serving_start config)
    fun _ c _ d serving stepped => serving.step stepped.1 stepped.2
  exact serving.contract

/-! ### Two requests with the same prompt -/

def exampleConfig : CacheConfig where
  blockSize := 2
  numGpuBlocks := 4
  maxModelLen := 8
  enableCaching := true
  someBlocks := CacheConfig.four_pos

def exampleRequest (requestId : RequestId) (promptLogprobs : Option ℕ) : Request where
  requestId
  samplingParams := { maxTokens := 2, promptLogprobs }
  promptTokenIds := [1, 2, 3]

instance (c : Cache) (e : CacheEvent) : Decidable (c.Disciplined e) := by
  cases e <;> unfold Disciplined <;> infer_instance

end Cache

section
local instance plainHash : TupleHash := ⟨1, fun parent tokens _ => 31 * parent + tokens.sum + 1⟩

namespace Cache

/-- The first request computes its prompt, the second finds a block of it. -/
def exampleHistory : List CacheEvent :=
  [.allocateSlots 1 1 1, .getComputedBlocks 1, .add (exampleRequest 1 none), .allocateSlots 0 3 0,
    .getComputedBlocks 0, .add (exampleRequest 0 none)]

theorem exampleHistory_contract : ∃ c : Cache, (c.manager.blockPool.block 0).refCnt = 2 ∧
    Run (fun c e d => c.Disciplined e ∧ c.step e = some d) (start exampleConfig) exampleHistory c ∧
    c.Contract := by
  have found : (Run.execute (fun (c : Cache) e => if c.Disciplined e then c.step e else none)
      (start exampleConfig) exampleHistory).any
        (fun c => decide ((c.manager.blockPool.block 0).refCnt = 2)) = true := by
    decide +kernel
  obtain ⟨c, done, held⟩ := Run.exists_of_execute found
  have run : Run (fun c e d => c.Disciplined e ∧ c.step e = some d) (start exampleConfig) exampleHistory c :=
    done.mono fun c e d stepped => by
      split at stepped
      · rename_i disciplined
        exact ⟨disciplined, stepped⟩
      · cases stepped
  exact ⟨c, held, run, run_contract run⟩

/-- A request for prompt logprobs is given no hits, whatever is cached; and a request that is given hits
although it has blocks holds a block twice. -/
theorem hits_withheld_and_held_twice :
    (∃ c : Cache, Run (fun c e d => c.step e = some d) (start exampleConfig)
      [.getComputedBlocks 1, .add (exampleRequest 1 (some 0)), .allocateSlots 0 3 0,
        .getComputedBlocks 0, .add (exampleRequest 0 none)] c ∧
      c.justReturned = some (1, []) ∧ (c.manager.hashesOf 1)[0]? ≠ none ∧
      c.manager.blockPool.hashOf 0 = (c.manager.hashesOf 1)[0]?) ∧
    ∃ c : Cache, Run (fun c e d => c.step e = some d) (start exampleConfig)
      [.allocateSlots 0 1 1, .getComputedBlocks 0, .allocateSlots 0 3 0,
        .getComputedBlocks 0, .add (exampleRequest 0 none)] c ∧
      (c.manager.blockPool.block 0).refCnt = 2 ∧ c.holders 0 = 1 :=
  ⟨Run.exists_of_execute (by decide +kernel), Run.exists_of_execute (by decide +kernel)⟩

end Cache
end
end Vllm.V1
