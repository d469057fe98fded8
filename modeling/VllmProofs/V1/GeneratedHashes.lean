import VllmProofs.V1.ExtraKeys
import VllmProofs.V1.KVCacheRun

/-!
Which hashes the blocks get that generated tokens complete, and which ones a follow-up prompt with the
same tokens looks for.
-/

namespace Vllm.V1
open Exec Vllm.V1.BlockPool

section
variable [TupleHash] {request : Request} {blockSize : ℕ}

/-- The extra keys of the inputs that overlap block `i`. -/
def blockKeys (request : Request) (blockSize i : ℕ) : Option (List ExtraKey) :=
  overlapKeys request (i * blockSize) ((i + 1) * blockSize)

/-- The extra keys of block `i` when generated tokens complete it. -/
def generatedKeys (request : Request) (blockSize i : ℕ) : Option (List ExtraKey) :=
  lastKeys request (i * blockSize) ((i + 1) * blockSize)

omit [TupleHash] in
theorem lastValue_snoc (hashes : List BlockHash) (h : BlockHash) :
    lastValue (hashes ++ [h]) = some h.hashValue := by
  rw [lastValue, List.getLast?_append]
  rfl

variable {keys : ℕ → Option (List ExtraKey)}

theorem chain_next {tokens : List TokenId} {hashes : List BlockHash}
    {n : ℕ} (chained : hashes = chain keys blockSize tokens n) :
    hashes ++ [hashBlockTokens (lastValue hashes) (blockTokens blockSize tokens n) (keys n)] =
      chain keys blockSize tokens (n + 1) := by
  rw [chain_extend (keys n) chained, Function.update_eq_self]

theorem hashBlocks_eq {k currMmIdx : ℕ} (m : ℕ) (prior : List BlockHash) (hashes : HashesInputs request)
    (cursor : Cursor (mmItems request) (k * blockSize) currMmIdx)
    (chained : prior = chain (blockKeys request blockSize) blockSize request.allTokenIds k) :
    ∃ others, hashBlocks blockSize request ((List.range' k m).map (· * blockSize)) currMmIdx
        (lastValue prior) = .ok others ∧
      prior ++ others =
        chain (blockKeys request blockSize) blockSize request.allTokenIds (k + others.length) := by
  induction m generalizing k currMmIdx prior with
  | zero =>
    refine ⟨[], rfl, ?_⟩
    rw [List.append_nil]
    exact chained
  | succ m ih =>
    obtain ⟨next, keys, cursor'⟩ := @extraKeysFrom_ahead _ _ _ blockSize hashes cursor
    have end_ : k * blockSize + blockSize = (k + 1) * blockSize := (Nat.succ_mul k blockSize).symm
    rw [end_] at keys cursor'
    rw [List.range'_succ, List.map_cons, hashBlocks]
    dsimp only
    rw [PySlice.slice_add]
    split
    · refine ⟨[], rfl, ?_⟩
      rw [List.append_nil]
      exact chained
    · have longer := chain_next chained
      obtain ⟨others, later, whole⟩ := ih _ cursor' longer
      rw [lastValue_snoc] at later
      refine ⟨hashBlockTokens (lastValue prior) (blockTokens blockSize request.allTokenIds k)
        (blockKeys request blockSize k) :: others, ?_, ?_⟩
      · rw [keys]
        unfold blockTokens blockKeys at later
        dsimp only [bind, Except.bind]
        rw [later]
        rfl
      · rw [List.length_cons, show k + (others.length + 1) = k + 1 + others.length by omega, ← whole,
          List.append_assoc, List.singleton_append]

theorem hashRequestTokens_eq (positive : 0 < blockSize) (hashes : HashesInputs request) :
    hashRequestTokens blockSize request = .ok (chain (blockKeys request blockSize) blockSize
      request.allTokenIds (request.numTokens / blockSize)) := by
  have cursor : Cursor (mmItems request) (0 * blockSize) 0 := by
    rw [Nat.zero_mul]
    exact Cursor.zero (mmItems_ordered hashes)
  obtain ⟨all, computed, whole⟩ :=
    hashBlocks_eq (cdiv request.numTokens blockSize) [] hashes cursor rfl
  have done : hashRequestTokens blockSize request = .ok all := by
    unfold hashRequestTokens
    dsimp only
    rw [List.range_eq_range']
    exact computed
  rw [List.nil_append, Nat.zero_add, length_hashRequestTokens positive done] at whole
  rw [done, whole]

/-! ### What is recorded for a request -/

namespace Cache

variable {c d : Cache} {id : RequestId} {ref : RequestRef}

/-- The keys of the blocks of a request whose first `k` were hashed with the prompt. -/
def recordedKeys (request : Request) (blockSize k i : ℕ) : Option (List ExtraKey) :=
  if i < k then blockKeys request blockSize i else generatedKeys request blockSize i

structure RecordedFor (request : Request) (blockSize k : ℕ) (hashes : List BlockHash) : Prop where
  keys : HashesInputs request → hashes =
    chain (recordedKeys request blockSize k) blockSize request.allTokenIds hashes.length
  le : k ≤ hashes.length

def Keyed (c : Cache) : Prop := ∀ id ref request, c.request? id = some (ref, request) →
  RecordedFor request c.manager.blockSize (c.fromPrompt id) (c.manager.hashesOf id)

variable {hashes hashes' : List BlockHash} {k : ℕ}

theorem RecordedFor.nil (request : Request) (blockSize : ℕ) : RecordedFor request blockSize 0 [] :=
  ⟨fun _ => rfl, le_rfl⟩

theorem RecordedFor.prompt (positive : 0 < blockSize)
    (computed : hashRequestTokens blockSize request = .ok hashes) :
    RecordedFor request blockSize hashes.length hashes := by
  refine ⟨fun inputs => ?_, le_rfl⟩
  rw [hashRequestTokens_eq positive inputs, Except.ok.injEq] at computed
  have length : hashes.length = request.numTokens / blockSize := by rw [← computed, length_chain]
  calc hashes = chain (blockKeys request blockSize) blockSize request.allTokenIds hashes.length := by
        rw [length, computed]
    _ = chain (recordedKeys request blockSize hashes.length) blockSize request.allTokenIds hashes.length :=
        chain_eq_iff.mpr fun i inside => (if_pos inside).symm

theorem RecordedFor.extended (recorded : RecordedFor request blockSize k hashes)
    (extended : Extended request blockSize hashes hashes') : RecordedFor request blockSize k hashes' := by
  refine ⟨fun inputs => ?_, recorded.le.trans extended.prefix.length_le⟩
  have start := recorded.keys inputs
  induction extended with
  | start => exact start
  | @next hashes' h extended computed ih =>
    obtain ⟨-, extraKeys, next, keys, rfl⟩ := nextBlockHash_ok computed
    obtain ⟨next', keys'⟩ := @generateBlockHashExtraKeys_last (hashes'.length * blockSize)
      ((hashes'.length + 1) * blockSize) _ inputs
    push_cast at keys'
    rw [keys, Except.ok.injEq, Prod.mk.injEq] at keys'
    have longer := extended.prefix.length_le
    have le := recorded.le
    have here : extraKeys = recordedKeys request blockSize k hashes'.length := by
      unfold recordedKeys generatedKeys
      rw [if_neg (by omega), keys'.1]
    rw [here, chain_next ih, length_chain]

variable {request' : Request}

omit [TupleHash] in
theorem mmItems_continues (continues : Continues request request') :
    mmItems request' = mmItems request := by
  unfold mmItems
  rw [continues.mmPositions, continues.mmHashes]

omit [TupleHash] in
theorem recordedKeys_continues (continues : Continues request request') :
    recordedKeys request' = recordedKeys request := by
  funext blockSize k i
  unfold recordedKeys blockKeys generatedKeys overlapKeys lastKeys genLoraExtraHashKeys
  rw [mmItems_continues continues, continues.loraRequest]

theorem RecordedFor.continues (recorded : RecordedFor request blockSize k hashes)
    (chained : IsChain blockSize request.allTokenIds hashes) (continues : Continues request request') :
    RecordedFor request' blockSize k hashes := by
  refine ⟨fun inputs => ?_, recorded.le⟩
  have inputs₀ : HashesInputs request := by
    unfold HashesInputs at inputs ⊢
    rw [← continues.mmPositions, ← continues.mmHashes]
    exact inputs
  obtain ⟨more, tokens⟩ := continues.tokens
  obtain ⟨-, -, inside⟩ := chained
  rw [recordedKeys_continues continues, tokens, chain_append inside]
  exact recorded.keys inputs₀

theorem Keyed.grow (keyed : c.Keyed) (serving : c.Serving) (grown : Grown c d) (manager : d.manager = c.manager)
    (live : ∀ id, d.live id = c.live id ∧ d.fromPrompt id = c.fromPrompt id ∨
      c.live id = none ∧ d.fromPrompt id = 0) : d.Keyed := by
  intro id ref request found
  obtain ⟨mine, at_⟩ := request?_eq_some.mp found
  rw [manager]
  rcases live id with ⟨same, count⟩ | ⟨unused, zero⟩
  · rw [same] at mine
    obtain ⟨request₀, at_₀, -⟩ := serving.requests id ref mine
    obtain ⟨request', at_', continues⟩ := grown ref request₀ at_₀
    rw [at_, Option.some.injEq] at at_'
    subst at_'
    have found₀ := request?_eq_some.mpr ⟨mine, at_₀⟩
    rw [count]
    exact (keyed id ref request₀ found₀).continues (serving.chained id ref request₀ found₀) continues
  · rw [zero, (serving.idle id unused).2]
    exact RecordedFor.nil request c.manager.blockSize

theorem Keyed.same (keyed : c.Keyed) (objects : d.objects = c.objects)
    (blockSize : d.manager.blockSize = c.manager.blockSize) (fromPrompt : d.fromPrompt = c.fromPrompt)
    (each : ∀ id, d.live id ≠ none → d.live id = c.live id ∧ d.manager.hashesOf id = c.manager.hashesOf id) :
    d.Keyed := by
  intro id ref request found
  obtain ⟨mine, at_⟩ := request?_eq_some.mp found
  obtain ⟨live, hashes⟩ := each id (by rw [mine]; nofun)
  rw [live] at mine
  rw [objects] at at_
  rw [blockSize, fromPrompt, hashes]
  exact keyed id ref request (request?_eq_some.mpr ⟨mine, at_⟩)

theorem Keyed.update (keyed : c.Keyed) (found : c.request? id = some (ref, request))
    (objects : d.objects = c.objects) (live : d.live = c.live)
    (blockSize : d.manager.blockSize = c.manager.blockSize)
    (recorded : RecordedFor request c.manager.blockSize (d.fromPrompt id) (d.manager.hashesOf id))
    (others : ∀ id' ≠ id, d.fromPrompt id' = c.fromPrompt id' ∧
      d.manager.hashesOf id' = c.manager.hashesOf id') : d.Keyed := by
  intro id' ref' request' found'
  obtain ⟨mine, at_⟩ := request?_eq_some.mp found'
  rw [live] at mine
  rw [objects] at at_
  have same := request?_eq_some.mpr ⟨mine, at_⟩
  rw [blockSize]
  by_cases here : id' = id
  · subst here
    rw [found, Option.some.injEq, Prod.mk.injEq] at same
    obtain ⟨rfl, rfl⟩ := same
    exact recorded
  · obtain ⟨count, hashes⟩ := others id' here
    rw [count, hashes]
    exact keyed id' ref' request' same

theorem Keyed.lookup {hits : List BlockId} {m : ℕ} {t : KVCacheManager} (keyed : c.Keyed)
    (serving : c.Serving) (found : c.request? id = some (ref, request))
    (call : KVCacheManager.getComputedBlocks request c.manager = .ok (hits, m) t) :
    Keyed { c with
      manager := t
      justReturned := some (id, hits)
      fromPrompt := if c.manager.hashesOf id = [] then
        Function.update c.fromPrompt id (t.hashesOf id).length else c.fromPrompt } := by
  obtain rfl := serving.names found
  obtain ⟨-, looked⟩ := KVCacheManager.getComputedBlocks_ok serving.coherent.sound call
  apply keyed.update found
  · rfl
  · rfl
  · show t.blockSize = _
    rw [looked.unchanged]
  · show RecordedFor request _ ((if c.manager.hashesOf request.requestId = [] then
      Function.update c.fromPrompt request.requestId (t.hashesOf request.requestId).length
      else c.fromPrompt) request.requestId) (t.hashesOf request.requestId)
    rcases looked.hashes with same | ⟨none, computed⟩
    · rw [same]
      split
      · rename_i none
        rw [none, Function.update_self]
        exact RecordedFor.nil request c.manager.blockSize
      · exact keyed _ ref request found
    · rw [if_pos none, Function.update_self]
      exact RecordedFor.prompt serving.positive computed
  · intro id' different
    refine ⟨?_, looked.otherHashes id' different⟩
    dsimp only
    split
    · exact Function.update_of_ne different _ _
    · rfl

theorem Keyed.step {e : CacheEvent} (keyed : c.Keyed) (serving : c.Serving) (disciplined : c.Disciplined e)
    (stepped : c.step e = some d) : d.Keyed := by
  cases e with
  | add request =>
    simp only [Cache.step] at stepped
    split at stepped
    · rename_i unused
      cases stepped
      apply keyed.grow serving (grown_add c request _ _)
      · rfl
      · intro id
        by_cases mine : id = request.requestId
        · subst mine
          exact Or.inr ⟨unused, Function.update_self _ _ _⟩
        · exact Or.inl ⟨Function.update_of_ne mine _ _, Function.update_of_ne mine _ _⟩
    · cases stepped
  | advance id tokenIds specTokenIds numComputedTokens =>
    obtain ⟨⟨ref, request⟩, found, stepped⟩ := Option.bind_eq_some_iff.mp stepped
    cases stepped
    exact keyed.grow serving (grown_advance found tokenIds specTokenIds numComputedTokens) rfl
      fun id => Or.inl ⟨rfl, rfl⟩
  | getComputedBlocks id =>
    obtain ⟨⟨ref, request⟩, found, stepped⟩ := Option.bind_eq_some_iff.mp stepped
    dsimp only at stepped
    cases call : KVCacheManager.getComputedBlocks request c.manager with
    | error raised t =>
      rw [call] at stepped
      cases stepped
    | ok returned t =>
      rw [call] at stepped
      cases stepped
      exact keyed.lookup serving found call
  | allocateSlots id numTokens numHits =>
    obtain ⟨⟨ref, request⟩, found, stepped⟩ := Option.bind_eq_some_iff.mp stepped
    dsimp only at stepped
    cases call : KVCacheManager.allocateSlots request numTokens (c.hitsFor id numHits) c.manager with
    | error raised t =>
      rw [call] at stepped
      cases stepped
    | ok returned t =>
      rw [call] at stepped
      cases returned with
      | none =>
        cases stepped
        obtain ⟨-, -, rfl⟩ := KVCacheManager.allocateSlots_none call
        exact keyed.same rfl rfl rfl fun id _ => ⟨rfl, rfl⟩
      | some blocks =>
        cases stepped
        have known := hitsFor_hits id numHits serving
        have drafts := disciplined.2 request (by rw [found]; rfl)
        have allocated := KVCacheManager.allocateSlots_ok serving.coherent.sound
          (known.inside serving.coherent.sound) call
        obtain ⟨-, extended⟩ := serving.extended found known disciplined.1 drafts call
        obtain rfl := serving.names found
        exact keyed.update found rfl rfl allocated.config.blockSize
          ((keyed _ ref request found).extended extended)
          fun id' different => ⟨rfl, allocated.otherHashes id' different⟩
  | free id =>
    obtain ⟨⟨ref, request⟩, found, stepped⟩ := Option.bind_eq_some_iff.mp stepped
    obtain ⟨t, freed, stepped⟩ := Option.bind_eq_some_iff.mp stepped
    cases stepped
    obtain ⟨_, call⟩ := next?_eq_some.mp freed
    have freed := KVCacheManager.free_ok serving.coherent.sound call
    have hashes := KVCacheManager.hashesOf_of_reqToBlockHashes freed.reqToBlockHashes
    exact keyed.same rfl freed.config.blockSize rfl fun id _ => ⟨rfl, congrFun hashes id⟩
  | finish id =>
    obtain ⟨⟨ref, request⟩, found, stepped⟩ := Option.bind_eq_some_iff.mp stepped
    obtain ⟨v, freed, stepped⟩ := Option.bind_eq_some_iff.mp stepped
    obtain ⟨t, dropped, stepped⟩ := Option.bind_eq_some_iff.mp stepped
    cases stepped
    obtain ⟨_, call⟩ := next?_eq_some.mp freed
    obtain ⟨_, call'⟩ := next?_eq_some.mp dropped
    have freed := KVCacheManager.free_ok serving.coherent.sound call
    have hashes := KVCacheManager.hashesOf_of_reqToBlockHashes freed.reqToBlockHashes
    obtain ⟨unchanged, hashesT⟩ := KVCacheManager.freeBlockHashes_ok call'
    obtain rfl := serving.names found
    apply keyed.same
    · rfl
    · show t.blockSize = _
      rw [unchanged]
      exact freed.config.blockSize
    · rfl
    · intro id some
      have used : Function.update c.live request.requestId none id ≠ none := some
      have different : id ≠ request.requestId := by
        rintro rfl
        exact used (Function.update_self _ _ _)
      refine ⟨Function.update_of_ne different _ _, ?_⟩
      show t.hashesOf id = _
      rw [hashesT, Function.update_of_ne different, hashes]
  | resetPrefixCache =>
    obtain ⟨t, done, stepped⟩ := Option.bind_eq_some_iff.mp stepped
    cases stepped
    obtain ⟨_, call⟩ := next?_eq_some.mp done
    have reset := KVCacheManager.resetPrefixCache_ok serving.coherent.sound call
    have hashes := KVCacheManager.hashesOf_of_reqToBlockHashes reset.reqToBlockHashes
    exact keyed.same rfl reset.config.blockSize rfl fun id _ => ⟨rfl, congrFun hashes id⟩

/-! ### Follow-up prompts -/

/-- A request whose prompt is all tokens of another one, with the same inputs. -/
structure FollowUp (request followUp : Request) : Prop where
  tokens : followUp.allTokenIds = request.allTokenIds
  mmPositions : followUp.mmPositions = request.mmPositions
  mmHashes : followUp.mmHashes = request.mmHashes
  loraRequest : followUp.loraRequest = request.loraRequest

/-- A follow-up prompt looks for the hashes that the blocks of a request have. -/
def FoundBy (c : Cache) (id : RequestId) (followUp : Request) : Prop :=
  match hashRequestTokens c.manager.blockSize followUp with
  | .ok hashes => c.manager.hashesOf id <+: hashes ∧ ∀ (i : ℕ) b h,
      (c.manager.blocksOf id)[i]? = some b → c.manager.blockPool.hashOf b = some h → hashes[i]? = some h
  | .error _ => False

/-- Equal hashes mean equal tokens and equal inputs. -/
def Separates (c : Cache) (id : RequestId) (request : Request) (id' : RequestId) (request' : Request) :
    Prop := ∀ (i j : ℕ) h, (c.manager.hashesOf id)[i]? = some h → (c.manager.hashesOf id')[j]? = some h →
  blockTokens c.manager.blockSize request.allTokenIds i =
    blockTokens c.manager.blockSize request'.allTokenIds j ∧
  blockKeys request c.manager.blockSize i = blockKeys request' c.manager.blockSize j

/-- No block that generated tokens completed depends on an input other than the last one, or starts
where that one ends. -/
def GeneratedAfterInputs (c : Cache) (id : RequestId) (request : Request) : Prop :=
  ∀ i, c.fromPrompt id ≤ i → i < (c.manager.hashesOf id).length →
    OnlyLast request.mmPositions.ranges (i * c.manager.blockSize) ((i + 1) * c.manager.blockSize)

variable {followUp : Request}

theorem hashRequestTokens_followUp (positive : 0 < blockSize)
    (inputs : HashesInputs request) (follows : FollowUp request followUp) :
    hashRequestTokens blockSize followUp = .ok (chain (blockKeys request blockSize) blockSize
      request.allTokenIds (request.numTokens / blockSize)) := by
  have inputs' : HashesInputs followUp := by
    unfold HashesInputs at inputs ⊢
    rw [follows.mmPositions, follows.mmHashes]
    exact inputs
  have keys : blockKeys followUp blockSize = blockKeys request blockSize := by
    funext i
    unfold blockKeys overlapKeys mmItems genLoraExtraHashKeys
    rw [follows.mmPositions, follows.mmHashes, follows.loraRequest]
  rw [hashRequestTokens_eq positive inputs', keys, Request.numTokens, follows.tokens]
  rfl

omit [TupleHash] in
theorem generatedKeys_eq_iff (inputs : HashesInputs request) (i : ℕ) :
    generatedKeys request blockSize i = blockKeys request blockSize i ↔
      OnlyLast request.mmPositions.ranges (i * blockSize) ((i + 1) * blockSize) :=
  lastKeys_eq_iff inputs (Nat.mul_le_mul_right blockSize (Nat.le_succ i))

/-- The recorded hashes are those of the prompt chain exactly when the keys of the generated blocks are. -/
theorem RecordedFor.eq_prompt_iff (recorded : RecordedFor request blockSize k hashes)
    (inputs : HashesInputs request) :
    hashes = chain (blockKeys request blockSize) blockSize request.allTokenIds hashes.length ↔
      ∀ i, k ≤ i → i < hashes.length →
        OnlyLast request.mmPositions.ranges (i * blockSize) ((i + 1) * blockSize) := by
  have keys := recorded.keys inputs
  have agree : hashes = chain (blockKeys request blockSize) blockSize request.allTokenIds hashes.length ↔
      ∀ i < hashes.length, recordedKeys request blockSize k i = blockKeys request blockSize i := by
    rw [← chain_eq_iff, ← keys]
  rw [agree]
  constructor
  · intro same i generated inside
    have here := same i inside
    unfold recordedKeys at here
    rw [if_neg (by omega)] at here
    exact (generatedKeys_eq_iff inputs i).mp here
  · intro only i inside
    unfold recordedKeys
    split
    · rfl
    · exact (generatedKeys_eq_iff inputs i).mpr (only i (by omega) inside)

theorem chain_prefix_iff {tokens : List TokenId} {n : ℕ} (le : hashes.length ≤ n) :
    hashes <+: chain keys blockSize tokens n ↔ hashes = chain keys blockSize tokens hashes.length := by
  have taken : (chain keys blockSize tokens n).take hashes.length = chain keys blockSize tokens hashes.length := by
    unfold chain
    rw [← List.map_take, List.take_range, Nat.min_eq_left le]
  rw [List.prefix_iff_eq_take, taken]

theorem foundBy_iff (serving : c.Serving) (keyed : c.Keyed)
    (found : c.request? id = some (ref, request)) (inputs : HashesInputs request)
    (follows : FollowUp request followUp) : c.FoundBy id followUp ↔ c.GeneratedAfterInputs id request := by
  have recorded := keyed id ref request found
  obtain ⟨-, -, inside⟩ := serving.chained id ref request found
  have le : (c.manager.hashesOf id).length ≤ request.numTokens / c.manager.blockSize :=
    (Nat.le_div_iff_mul_le serving.positive).mpr inside
  unfold FoundBy GeneratedAfterInputs
  rw [hashRequestTokens_followUp serving.positive inputs follows]
  dsimp only
  rw [chain_prefix_iff le, ← recorded.eq_prompt_iff inputs]
  constructor
  · exact fun both => both.1
  · intro same
    refine ⟨same, fun i b h at_ hash => ?_⟩
    have whole := (chain_prefix_iff le).mpr same
    exact getElem?_of_prefix whole (serving.coherent.aligned id i b h at_ hash)

theorem separates {id' : RequestId}
    (one : c.manager.hashesOf id = chain (blockKeys request c.manager.blockSize) c.manager.blockSize
      request.allTokenIds (c.manager.hashesOf id).length)
    (two : c.manager.hashesOf id' = chain (blockKeys request' c.manager.blockSize) c.manager.blockSize
      request'.allTokenIds (c.manager.hashesOf id').length) : c.Separates id request id' request' := by
  intro i j h here there
  rw [one, getElem?_chain] at here
  rw [two, getElem?_chain] at there
  split at here
  · split at there
    · cases here
      rw [Option.some.injEq] at there
      have tokens := congrArg BlockHash.tokenIds there
      have keys := congrArg BlockHash.extraKeys there
      rw [chainHash_tokenIds, chainHash_tokenIds] at tokens
      rw [chainHash_extraKeys, chainHash_extraKeys] at keys
      exact ⟨tokens.symm, keys.symm⟩
    · cases there
  · cases here

/-- Two requests of a run are found by follow-up prompts, and told apart, exactly when the blocks that
generated tokens completed depend on no input but the last. -/
theorem generated_hashes_iff {config : CacheConfig} {history : List CacheEvent} {id' : RequestId}
    {ref' : RequestRef} {request' followUp followUp' : Request}
    (run : Run (fun c e d => c.Disciplined e ∧ c.step e = some d) (start config) history c)
    (found : c.request? id = some (ref, request)) (found' : c.request? id' = some (ref', request'))
    (inputs : HashesInputs request) (inputs' : HashesInputs request')
    (follows : FollowUp request followUp) (follows' : FollowUp request' followUp') :
    (c.FoundBy id followUp ∧ c.FoundBy id' followUp' ∧ c.Separates id request id' request') ↔
      c.GeneratedAfterInputs id request ∧ c.GeneratedAfterInputs id' request' := by
  have both : c.Serving ∧ c.Keyed := run.invariant (I := fun _ c => c.Serving ∧ c.Keyed)
    ⟨serving_start config, fun _ _ _ none => by
      obtain ⟨unused, -⟩ := request?_eq_some.mp none
      cases unused⟩
    fun _ c _ d held stepped => ⟨held.1.step stepped.1 stepped.2, held.2.step held.1 stepped.1 stepped.2⟩
  obtain ⟨serving, keyed⟩ := both
  rw [foundBy_iff serving keyed found inputs follows, foundBy_iff serving keyed found' inputs' follows']
  constructor
  · exact fun all => ⟨all.1, all.2.1⟩
  · rintro ⟨one, two⟩
    have here := ((keyed id ref request found).eq_prompt_iff inputs).mpr one
    have there := ((keyed id' ref' request' found').eq_prompt_iff inputs').mpr two
    exact ⟨one, two, separates here there⟩

/-- The part of `FoundBy` that can be tested. -/
theorem FoundBy.prefixed (found : c.FoundBy id followUp) :
    (hashRequestTokens c.manager.blockSize followUp).toOption.any
      (fun hashes => decide (c.manager.hashesOf id <+: hashes)) = true := by
  unfold FoundBy at found
  split at found
  · rename_i hashes computed
    rw [computed]
    exact decide_eq_true found.1
  · exact found.elim

end Cache
end

section
local instance : TupleHash := ⟨1, fun parent tokens extraKeys =>
  31 * parent + tokens.sum + 7 * (extraKeys.getD []).length + 1⟩

namespace Cache

def blocksOfFour : CacheConfig where
  blockSize := 4
  numGpuBlocks := 4
  maxModelLen := 16
  enableCaching := true
  blocksHaveSlots := CacheConfig.four_pos
  someBlocks := CacheConfig.four_pos

/-- An input inside the first block, which the prompt fills. -/
def inputInPrompt (requestId : RequestId) (mmHash : MmHash) : Request where
  requestId
  samplingParams := { maxTokens := 4 }
  promptTokenIds := [1, 2, 3, 4, 5, 6]
  mmPositions := { ranges := [⟨1, 2⟩] }
  mmInputs := [0]
  mmHashes := [mmHash]
  sameHashes := Or.inr rfl

theorem generated_hashes_of_two : ∃ (c : Cache) (r r' : RequestRef × Request),
    c.request? 0 = some r ∧ c.request? 1 = some r' ∧ (c.manager.hashesOf 0).length = 2 ∧
    ((c.FoundBy 0 r.2 ∧ c.FoundBy 1 r'.2 ∧ c.Separates 0 r.2 1 r'.2) ↔
      c.GeneratedAfterInputs 0 r.2 ∧ c.GeneratedAfterInputs 1 r'.2) := by
  have found : (Run.execute (fun (c : Cache) e => if c.Disciplined e then c.step e else none)
      (start blocksOfFour) [.allocateSlots 1 6 0, .getComputedBlocks 1, .add (inputInPrompt 1 12),
        .allocateSlots 0 2 0, .advance 0 [7, 8] [] 6, .allocateSlots 0 6 0, .getComputedBlocks 0,
        .add (inputInPrompt 0 11)]).any
      (fun c => decide ((c.manager.hashesOf 0).length = 2 ∧
        (c.request? 0).any (fun r => decide (HashesInputs r.2)) = true ∧
        (c.request? 1).any (fun r => decide (HashesInputs r.2)) = true)) = true := by
    decide +kernel
  obtain ⟨c, done, two, one, other⟩ := Run.exists_of_execute found
  have run : Run (fun c e d => c.Disciplined e ∧ c.step e = some d) (start blocksOfFour) _ c :=
    done.mono fun c e d stepped => by
      split at stepped
      · rename_i disciplined
        exact ⟨disciplined, stepped⟩
      · cases stepped
  obtain ⟨r, here, inputs⟩ := (Option.any_eq_true _ _).mp one
  obtain ⟨r', there, inputs'⟩ := (Option.any_eq_true _ _).mp other
  exact ⟨c, r, r', here, there, two, generated_hashes_iff run here there (of_decide_eq_true inputs)
    (of_decide_eq_true inputs') ⟨rfl, rfl, rfl, rfl⟩ ⟨rfl, rfl, rfl, rfl⟩⟩

/-- Two inputs in the block that the first generated tokens complete. -/
def twoInputs : Request where
  requestId := 0
  samplingParams := { maxTokens := 4 }
  promptTokenIds := [1, 2, 3, 4, 5, 6]
  mmPositions := { ranges := [⟨4, 1⟩, ⟨5, 1⟩] }
  mmInputs := [0, 1]
  mmHashes := [13, 14]

/-- An input that ends where that block starts. -/
def inputBefore : Request where
  requestId := 0
  samplingParams := { maxTokens := 4 }
  promptTokenIds := [1, 2, 3, 4, 5, 6]
  mmPositions := { ranges := [⟨2, 2⟩] }
  mmInputs := [0]
  mmHashes := [13]

/-- Two hashes are recorded for the request and its first two generated tokens, and a prompt with these tokens
does not find them. -/
def GeneratedMissed (request : Request) : Prop :=
  ∃ c : Cache, Run (fun c e d => c.step e = some d) (start blocksOfFour)
    [.allocateSlots 0 2 0, .advance 0 [7, 8] [] 6, .allocateSlots 0 6 0, .getComputedBlocks 0,
      .add request] c ∧
    (c.manager.hashesOf 0).length = 2 ∧
    ¬c.FoundBy 0 { request with promptTokenIds := [1, 2, 3, 4, 5, 6, 7, 8] }

theorem generatedMissed_of_execute {request : Request}
    (tested : (Run.execute (fun (c : Cache) e => c.step e) (start blocksOfFour)
      [.allocateSlots 0 2 0, .advance 0 [7, 8] [] 6, .allocateSlots 0 6 0, .getComputedBlocks 0,
        .add request]).any
      (fun c => decide ((c.manager.hashesOf 0).length = 2 ∧
        (hashRequestTokens c.manager.blockSize
          { request with promptTokenIds := [1, 2, 3, 4, 5, 6, 7, 8] }).toOption.any
            (fun hashes => decide (c.manager.hashesOf 0 <+: hashes)) = false)) = true) :
    GeneratedMissed request := by
  obtain ⟨c, run, two, missed⟩ := Run.exists_of_execute tested
  refine ⟨c, run, two, fun found => ?_⟩
  rw [found.prefixed] at missed
  cases missed

/-- A prompt with the generated tokens looks for other hashes than were recorded: one lacks the first of
two inputs, one has an input too many. -/
theorem generated_hashes_missed : GeneratedMissed twoInputs ∧ GeneratedMissed inputBefore :=
  ⟨generatedMissed_of_execute (by decide +kernel), generatedMissed_of_execute (by decide +kernel)⟩

end Cache
end
end Vllm.V1
