import VllmProofs.V1.Request

/-!
Block hashes of the V1 prefix cache, `vllm/v1/core/kv_cache_utils.py`: each covers the tokens of a
block, the multi-modal inputs and the adapter it depends on, and the hash of the block before it.
-/

namespace Vllm.V1

inductive ExtraKey where
  | lora (id : ℕ)
  | mm (hash : MmHash)
  deriving DecidableEq, Repr

structure BlockHash where
  hashValue : ℤ
  tokenIds : List TokenId
  extraKeys : Option (List ExtraKey)
  deriving DecidableEq, Repr

/-- Python's `hash`, as the block hashes call it. -/
class TupleHash where
  /-- `hash('None')` -/
  noneHash : ℤ
  /-- `hash((parent_block_hash, curr_block_token_ids_tuple, extra_keys))` -/
  tuple : ℤ → List TokenId → Option (List ExtraKey) → ℤ

def cdiv (a b : ℕ) : ℕ := (a + b - 1) / b

def needExtraKeys (request : Request) : Bool :=
  request.mmPositions.ranges ≠ [] || request.loraRequest.isSome

/-- The loop of `_gen_mm_extra_hash_keys` over the inputs from `currMmIdx` on. -/
def mmKeysLoop (start stop : ℤ) : ℕ → List (PlaceholderRange × MmHash) → List ExtraKey × ℕ
  | currMmIdx, [] => ([], currMmIdx)
  | currMmIdx, (p, mmHash) :: rest =>
    if p.offset < stop then
      if p.stop < start then mmKeysLoop start stop (currMmIdx + 1) rest
      else if p.stop ≤ stop then
        let (extraKeys, next) := mmKeysLoop start stop (currMmIdx + 1) rest
        (.mm mmHash :: extraKeys, next)
      else ([.mm mmHash], currMmIdx)
    else ([], currMmIdx)

def genMmExtraHashKeys (request : Request) (start stop startMmIdx : ℤ) :
    Except Raised (List ExtraKey × ℤ) :=
  let mmPositions := request.mmPositions.ranges
  match mmPositions.getLast? with
  | none => .ok ([], startMmIdx)
  | some last =>
    if mmPositions.length ≠ request.mmHashes.length then
      .error (.valueError "The number of multi-modal positions and hashes must match.")
    else if last.stop < start then .ok ([], startMmIdx)
    else if mmPositions.length < -startMmIdx then .error (.assertionError .startMmIdxInRange)
    else
      -- -1 stands for the last input
      let index := if startMmIdx < 0 then (mmPositions.length + startMmIdx).toNat else startMmIdx.toNat
      let (extraKeys, next) := mmKeysLoop start stop index ((mmPositions.zip request.mmHashes).drop index)
      .ok (extraKeys, next)

def genLoraExtraHashKeys (request : Request) : List ExtraKey :=
  match request.loraRequest with
  | none => []
  | some id => [.lora id]

/-- `tuple(extra_keys)`, or `None` without any. -/
def extraTuple (extraKeys : List ExtraKey) : Option (List ExtraKey) :=
  if extraKeys = [] then none else some extraKeys

def generateBlockHashExtraKeys (request : Request) (start stop startMmIdx : ℤ) :
    Except Raised (Option (List ExtraKey) × ℤ) := do
  let (mmExtraKeys, newStartMmIdx) ← genMmExtraHashKeys request start stop startMmIdx
  return (extraTuple (genLoraExtraHashKeys request ++ mmExtraKeys), newStartMmIdx)

def extraKeysFrom (blockSize : ℕ) (request : Request) (start : ℕ) (currMmIdx : ℤ) :
    Except Raised (Option (List ExtraKey) × ℤ) :=
  if needExtraKeys request then generateBlockHashExtraKeys request start (start + blockSize : ℕ) currMmIdx
  else .ok (none, currMmIdx)

variable [TupleHash]

/-- A hash value of 0 counts as none, as `not parent_block_hash` does. -/
def hashBlockTokens (parentBlockHash : Option ℤ) (currBlockTokenIds : List TokenId)
    (extraKeys : Option (List ExtraKey)) : BlockHash :=
  let parent := match parentBlockHash with
    | none => TupleHash.noneHash
    | some value => if value = 0 then TupleHash.noneHash else value
  ⟨TupleHash.tuple parent currBlockTokenIds extraKeys, currBlockTokenIds, extraKeys⟩

/-- The loop of `hash_request_tokens` over the start indices that are left. -/
def hashBlocks (blockSize : ℕ) (request : Request) :
    List ℕ → ℤ → Option ℤ → Except Raised (List BlockHash)
  | [], _, _ => .ok []
  | start :: rest, currMmIdx, parentBlockHashValue => do
    let stop := start + blockSize
    let blockTokenIds := PySlice.slice request.allTokenIds start stop
    if blockTokenIds.length < blockSize then return []
    else
      let (reqExtraKeys, currMmIdx) ← extraKeysFrom blockSize request start currMmIdx
      let blockHash := hashBlockTokens parentBlockHashValue blockTokenIds reqExtraKeys
      let others ← hashBlocks blockSize request rest currMmIdx (some blockHash.hashValue)
      return blockHash :: others

def hashRequestTokens (blockSize : ℕ) (request : Request) : Except Raised (List BlockHash) :=
  let starts := (List.range (cdiv request.numTokens blockSize)).map (· * blockSize)
  hashBlocks blockSize request starts 0 none

theorem hashBlocks_cons {blockSize : ℕ} {request : Request} {start : ℕ} {rest : List ℕ} {currMmIdx : ℤ}
    {parent : Option ℤ} {hashes : List BlockHash}
    (computed : hashBlocks blockSize request (start :: rest) currMmIdx parent = .ok hashes) :
    let tokens := (request.allTokenIds.drop start).take blockSize
    (tokens.length < blockSize ∧ hashes = []) ∨
      (blockSize ≤ tokens.length ∧ ∃ extraKeys next others,
        extraKeysFrom blockSize request start currMmIdx = .ok (extraKeys, next) ∧
        hashes = hashBlockTokens parent tokens extraKeys :: others ∧
        hashBlocks blockSize request rest next (some (hashBlockTokens parent tokens extraKeys).hashValue) =
          .ok others) := by
  dsimp only
  rw [hashBlocks] at computed
  dsimp only at computed
  rw [PySlice.slice_add] at computed
  split at computed
  · rename_i short
    cases computed
    exact Or.inl ⟨short, rfl⟩
  · rename_i full
    right
    refine ⟨Nat.le_of_not_lt full, ?_⟩
    cases keys : extraKeysFrom blockSize request start currMmIdx with
    | error raised =>
      rw [keys] at computed
      cases computed
    | ok found =>
      rw [keys] at computed
      obtain ⟨extraKeys, next⟩ := found
      dsimp only [bind, Except.bind] at computed
      split at computed
      · cases computed
      · rename_i others later
        cases computed
        exact ⟨extraKeys, next, others, rfl, rfl, later⟩

/-! ### Chains of block hashes -/

def blockTokens (blockSize : ℕ) (tokens : List TokenId) (i : ℕ) : List TokenId :=
  (tokens.drop (i * blockSize)).take blockSize

/-- The hash of block `i` of a sequence whose blocks have the given extra keys. -/
def chainHash (keys : ℕ → Option (List ExtraKey)) (blockSize : ℕ) (tokens : List TokenId) :
    ℕ → BlockHash
  | 0 => hashBlockTokens none (blockTokens blockSize tokens 0) (keys 0)
  | i + 1 => hashBlockTokens (some (chainHash keys blockSize tokens i).hashValue)
      (blockTokens blockSize tokens (i + 1)) (keys (i + 1))

def chain (keys : ℕ → Option (List ExtraKey)) (blockSize : ℕ) (tokens : List TokenId) (n : ℕ) :
    List BlockHash := (List.range n).map (chainHash keys blockSize tokens)

/-- The hashes of leading full blocks of `tokens`, with some extra keys or other. -/
def IsChain (blockSize : ℕ) (tokens : List TokenId) (hashes : List BlockHash) : Prop :=
  ∃ keys, hashes = chain keys blockSize tokens hashes.length ∧
    hashes.length * blockSize ≤ tokens.length

variable {keys keys' : ℕ → Option (List ExtraKey)} {blockSize n i : ℕ} {tokens more : List TokenId}
  {hashes : List BlockHash} {request : Request}

@[simp] theorem length_chain : (chain keys blockSize tokens n).length = n := by simp [chain]

theorem getElem?_chain : (chain keys blockSize tokens n)[i]? =
    if i < n then some (chainHash keys blockSize tokens i) else none := by
  unfold chain
  rw [List.getElem?_map]
  split
  · rename_i inside
    rw [List.getElem?_range inside]
    rfl
  · rename_i outside
    rw [List.getElem?_eq_none (by simpa using outside)]
    rfl

theorem chain_succ : chain keys blockSize tokens (n + 1) =
    chain keys blockSize tokens n ++ [chainHash keys blockSize tokens n] := by
  simp [chain, List.range_succ]

theorem chainHash_tokenIds : (chainHash keys blockSize tokens i).tokenIds =
    blockTokens blockSize tokens i := by
  cases i <;> rfl

theorem chainHash_extraKeys : (chainHash keys blockSize tokens i).extraKeys = keys i := by
  cases i <;> rfl

omit [TupleHash] in
theorem blockTokens_append (inside : (i + 1) * blockSize ≤ tokens.length) :
    blockTokens blockSize (tokens ++ more) i = blockTokens blockSize tokens i := by
  rw [Nat.succ_mul] at inside
  unfold blockTokens
  rw [List.drop_append_of_le_length (by omega), List.take_append_of_le_length]
  rw [List.length_drop]
  omega

theorem chainHash_append (inside : (i + 1) * blockSize ≤ tokens.length) :
    chainHash keys blockSize (tokens ++ more) i = chainHash keys blockSize tokens i := by
  induction i with
  | zero => rw [chainHash, chainHash, blockTokens_append inside]
  | succ i ih =>
    have before : (i + 1) * blockSize ≤ tokens.length := by
      rw [Nat.succ_mul] at inside
      omega
    rw [chainHash, chainHash, ih before, blockTokens_append inside]

theorem chainHash_congr (same : ∀ j ≤ i, keys j = keys' j) :
    chainHash keys blockSize tokens i = chainHash keys' blockSize tokens i := by
  induction i with
  | zero => rw [chainHash, chainHash, same 0 le_rfl]
  | succ i ih => rw [chainHash, chainHash, ih fun j le => same j (by omega), same (i + 1) le_rfl]

theorem chain_append (inside : n * blockSize ≤ tokens.length) :
    chain keys blockSize (tokens ++ more) n = chain keys blockSize tokens n := by
  unfold chain
  apply List.map_congr_left
  intro i member
  have lt := List.mem_range.mp member
  apply chainHash_append
  calc (i + 1) * blockSize ≤ n * blockSize := Nat.mul_le_mul_right _ lt
    _ ≤ tokens.length := inside

/-- Two chains over the same tokens agree exactly when their extra keys do. -/
theorem chain_eq_iff : chain keys blockSize tokens n = chain keys' blockSize tokens n ↔
    ∀ i < n, keys i = keys' i := by
  constructor
  · intro same i inside
    have here : (chain keys blockSize tokens n)[i]? = (chain keys' blockSize tokens n)[i]? := by rw [same]
    rw [getElem?_chain, getElem?_chain, if_pos inside, if_pos inside, Option.some.injEq] at here
    calc keys i = (chainHash keys blockSize tokens i).extraKeys := chainHash_extraKeys.symm
      _ = keys' i := by rw [here, chainHash_extraKeys]
  · intro same
    unfold chain
    apply List.map_congr_left
    intro i member
    have lt := List.mem_range.mp member
    exact chainHash_congr fun j le => same j (by omega)

theorem IsChain.nil : IsChain blockSize tokens [] := ⟨fun _ => none, rfl, by simp⟩

theorem IsChain.append (h : IsChain blockSize tokens hashes) :
    IsChain blockSize (tokens ++ more) hashes := by
  obtain ⟨keys, same, inside⟩ := h
  refine ⟨keys, ?_, ?_⟩
  · rw [chain_append inside]
    exact same
  · rw [List.length_append]
    omega

theorem IsChain.getElem? {h : BlockHash} (chained : IsChain blockSize tokens hashes)
    (at_ : hashes[i]? = some h) :
    (i + 1) * blockSize ≤ tokens.length ∧ ∃ keys, h = chainHash keys blockSize tokens i := by
  obtain ⟨keys, same, inside⟩ := chained
  have lt := (List.getElem?_eq_some_iff.mp at_).1
  constructor
  · calc (i + 1) * blockSize ≤ hashes.length * blockSize := Nat.mul_le_mul_right _ lt
      _ ≤ tokens.length := inside
  · rw [same, getElem?_chain, if_pos lt, Option.some.injEq] at at_
    exact ⟨keys, at_.symm⟩

def lastValue (hashes : List BlockHash) : Option ℤ := hashes.getLast?.map BlockHash.hashValue

theorem chain_extend (extraKeys : Option (List ExtraKey)) (same : hashes = chain keys blockSize tokens n) :
    hashes ++ [hashBlockTokens (lastValue hashes) (blockTokens blockSize tokens n) extraKeys] =
      chain (Function.update keys n extraKeys) blockSize tokens (n + 1) := by
  have older : chain (Function.update keys n extraKeys) blockSize tokens n = hashes := by
    rw [same, chain_eq_iff]
    intro i inside
    exact Function.update_of_ne (by omega) _ _
  rw [chain_succ, older]
  congr 2
  cases n with
  | zero =>
    have none : hashes = [] := same
    simp [none, lastValue, chainHash]
  | succ n =>
    have last : lastValue hashes =
        some (chainHash (Function.update keys (n + 1) extraKeys) blockSize tokens n).hashValue := by
      rw [← older, chain_succ, lastValue, List.getLast?_append]
      rfl
    rw [last, chainHash, Function.update_self]

theorem IsChain.snoc (extraKeys : Option (List ExtraKey)) (h : IsChain blockSize tokens hashes)
    (inside : (hashes.length + 1) * blockSize ≤ tokens.length) :
    IsChain blockSize tokens (hashes ++
      [hashBlockTokens (lastValue hashes) (blockTokens blockSize tokens hashes.length) extraKeys]) := by
  obtain ⟨keys, same, -⟩ := h
  refine ⟨Function.update keys hashes.length extraKeys, ?_, ?_⟩
  · rw [chain_extend extraKeys same]
    simp
  · simpa using inside

/-- The blocks hashed from the `k`-th on continue the chain before them, up to the last full block. -/
theorem hashBlocks_isChain {k m : ℕ} {currMmIdx : ℤ} {prior : List BlockHash}
    (chained : IsChain blockSize request.allTokenIds prior) (length : prior.length = k)
    (computed : hashBlocks blockSize request ((List.range' k m).map (· * blockSize)) currMmIdx
      (lastValue prior) = .ok hashes) :
    IsChain blockSize request.allTokenIds (prior ++ hashes) ∧
      (request.numTokens < (prior.length + hashes.length + 1) * blockSize ∨ hashes.length = m) := by
  induction m generalizing k currMmIdx prior hashes with
  | zero =>
    cases computed
    rw [List.append_nil]
    exact ⟨chained, Or.inr rfl⟩
  | succ m ih =>
    rw [List.range'_succ, List.map_cons] at computed
    rcases hashBlocks_cons computed with ⟨short, rfl⟩ | ⟨full, extraKeys, next, others, -, rfl, later⟩
    · rw [List.append_nil]
      refine ⟨chained, Or.inl ?_⟩
      rw [List.length_take, List.length_drop] at short
      unfold Request.numTokens
      rw [length, List.length_nil, Nat.add_zero, Nat.succ_mul]
      omega
    · have inside : (prior.length + 1) * blockSize ≤ request.allTokenIds.length := by
        rw [List.length_take, List.length_drop] at full
        rw [length, Nat.succ_mul]
        rcases Nat.eq_zero_or_pos blockSize with none | positive
        · simp [none]
        · omega
      have here := chained.snoc extraKeys inside
      rw [blockTokens, length] at here
      have value : lastValue (prior ++ [hashBlockTokens (lastValue prior)
          ((request.allTokenIds.drop (k * blockSize)).take blockSize) extraKeys]) =
          some (hashBlockTokens (lastValue prior)
            ((request.allTokenIds.drop (k * blockSize)).take blockSize) extraKeys).hashValue := by
        rw [lastValue, List.getLast?_append]
        rfl
      rw [← value] at later
      obtain ⟨whole, upTo⟩ := ih here (by rw [List.length_append, List.length_singleton, length]) later
      rw [List.append_assoc, List.singleton_append] at whole
      refine ⟨whole, ?_⟩
      rw [List.length_append, List.length_singleton] at upTo
      rw [List.length_cons]
      rcases upTo with short | all
      · left
        rw [show prior.length + (others.length + 1) + 1 = prior.length + 1 + others.length + 1 by omega]
        exact short
      · right
        omega

theorem hashRequestTokens_isChain (computed : hashRequestTokens blockSize request = .ok hashes) :
    IsChain blockSize request.allTokenIds hashes := by
  unfold hashRequestTokens at computed
  dsimp only at computed
  rw [List.range_eq_range'] at computed
  exact (hashBlocks_isChain IsChain.nil rfl computed).1

theorem length_hashRequestTokens (positive : 0 < blockSize)
    (computed : hashRequestTokens blockSize request = .ok hashes) :
    hashes.length = request.numTokens / blockSize := by
  have chained := hashRequestTokens_isChain computed
  unfold hashRequestTokens at computed
  dsimp only at computed
  rw [List.range_eq_range'] at computed
  have upTo := (hashBlocks_isChain IsChain.nil rfl computed).2
  have enough : request.numTokens < (hashes.length + 1) * blockSize := by
    rcases upTo with short | all
    · simpa using short
    · rw [all]
      have rounded := Nat.div_add_mod (request.numTokens + blockSize - 1) blockSize
      have less := Nat.mod_lt (request.numTokens + blockSize - 1) positive
      unfold cdiv
      rw [Nat.succ_mul, Nat.mul_comm]
      omega
  obtain ⟨-, -, inside⟩ := chained
  exact (Nat.div_eq_of_lt_le inside enough).symm

end Vllm.V1
