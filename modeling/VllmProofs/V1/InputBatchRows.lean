import VllmProofs.V1.InputBatch

/-!
What the methods of `InputBatch` do to the rows: each writes or clears one row, or carries a row to
another place as it is.
-/

namespace Vllm.V1
open Exec

section
variable {σ α : Type} {s t : σ} {u : Unit}

theorem checkSlice_ok {width start n : ℕ} (call : checkSlice width start n s = .ok u t) : t = s := by
  unfold checkSlice at call
  split at call
  · cases call
    rfl
  · cases call

variable {width start j : ℕ} {row : ℕ → α} {xs : List α}

theorem overwrite_inside (from_ : start ≤ j) (inside : j < width) (listed : j - start < xs.length) :
    overwrite width row start xs j = xs[j - start] := by
  unfold overwrite
  rw [if_pos ⟨from_, inside⟩, List.getElem?_eq_getElem listed, Option.getD_some]

theorem overwrite_before (before : j < start) : overwrite width row start xs j = row j := by
  unfold overwrite
  rw [if_neg]
  omega

theorem overwrite_after (after : start + xs.length ≤ j) : overwrite width row start xs j = row j := by
  unfold overwrite
  split
  · rw [List.getElem?_eq_none (by omega), Option.getD_none]
  · rfl

end

section
variable {α : Type} {xs : ℕ → α} {i j k : ℕ}

theorem swapAt_left : swapAt xs i j i = xs j := by
  unfold swapAt
  rw [Function.update_apply, Function.update_self]
  split
  · rename_i same
    rw [same]
  · rfl

theorem swapAt_right : swapAt xs i j j = xs i := Function.update_self _ _ _

theorem swapAt_other (left : k ≠ i) (right : k ≠ j) : swapAt xs i j k = xs k := by
  unfold swapAt
  rw [Function.update_of_ne right, Function.update_of_ne left]

end

section
variable {K V : Type} [DecidableEq K] {d : Dict ℕ V} {i j k : ℕ}

theorem get?_swapDictValues_left : (swapDictValues d i j).get? i = d.get? j := by
  unfold swapDictValues
  dsimp only
  cases d.get? j with
  | none => rw [Dict.get?_erase_self]
  | some v => rw [Dict.get?_insert_self]

theorem get?_swapDictValues_other (left : k ≠ i) (right : k ≠ j) : (swapDictValues d i j).get? k = d.get? k := by
  unfold swapDictValues
  dsimp only
  cases d.get? j with
  | none =>
    rw [Dict.get?_erase_ne left]
    cases d.get? i with
    | none => rw [Dict.get?_erase_ne right]
    | some v => rw [Dict.get?_insert_ne right]
  | some w =>
    rw [Dict.get?_insert_ne left]
    cases d.get? i with
    | none => rw [Dict.get?_erase_ne right]
    | some v => rw [Dict.get?_insert_ne right]

theorem get?_swapDictValues_right : (swapDictValues d i j).get? j = d.get? i := by
  by_cases same : i = j
  · subst same
    exact get?_swapDictValues_left
  · unfold swapDictValues
    dsimp only
    have apart : j ≠ i := fun equal => same equal.symm
    cases d.get? j with
    | none =>
      rw [Dict.get?_erase_ne apart]
      cases d.get? i with
      | none => rw [Dict.get?_erase_self]
      | some v => rw [Dict.get?_insert_self]
    | some w =>
      rw [Dict.get?_insert_ne apart]
      cases d.get? i with
      | none => rw [Dict.get?_erase_self]
      | some v => rw [Dict.get?_insert_self]

theorem get?_insertSome (d : Dict K V) (o : Option V) (i j : K) :
    (insertSome d i o).get? j = if j = i then o <|> d.get? i else d.get? j := by
  by_cases here : j = i
  · rw [if_pos here, here]
    cases o with
    | none => rfl
    | some v => exact Dict.get?_insert_self _ _ _
  · rw [if_neg here]
    cases o with
    | none => rfl
    | some v => exact Dict.get?_insert_ne here

namespace InputBatch

theorem get?_moveKey_target (fresh : d.get? j = none) : (moveKey d i j).get? j = d.get? i := by
  unfold moveKey
  cases found : d.get? i with
  | none => exact fresh
  | some v => rw [Dict.get?_insert_self]

theorem get?_moveKey_source (apart : i ≠ j) : (moveKey d i j).get? i = none := by
  unfold moveKey
  cases found : d.get? i with
  | none => exact found
  | some v => rw [Dict.get?_insert_ne apart, Dict.get?_erase_self]

theorem get?_moveKey_other (left : k ≠ i) (right : k ≠ j) : (moveKey d i j).get? k = d.get? k := by
  unfold moveKey
  cases found : d.get? i with
  | none => rfl
  | some v => rw [Dict.get?_insert_ne right, Dict.get?_erase_ne left]

end InputBatch
end

@[ext] structure RowFields where
  numTokens : ℕ
  numTokensNoSpec : ℕ
  numPromptTokens : ℕ
  numComputedTokens : ℕ
  temperature : ℚ
  topP : ℚ
  topK : ℤ
  minP : ℚ
  frequencyPenalty : ℚ
  presencePenalty : ℚ
  repetitionPenalty : ℚ
  generator : Option Generator
  minTokens : Option (ℕ × List TokenId)
  badWordsTokenIds : Option (List (List TokenId))
  loraId : ℕ

namespace InputBatch

variable {s t u : InputBatch} {i j k : ℕ} {id : RequestId} {request : CachedRequestState}

def fields (s : InputBatch) (i : ℕ) : RowFields where
  numTokens := s.numTokens i
  numTokensNoSpec := s.numTokensNoSpec i
  numPromptTokens := s.numPromptTokens i
  numComputedTokens := s.numComputedTokensCpu i
  temperature := s.temperatureCpu i
  topP := s.topPCpu i
  topK := s.topKCpu i
  minP := s.minPCpu i
  frequencyPenalty := s.frequencyPenaltiesCpu i
  presencePenalty := s.presencePenaltiesCpu i
  repetitionPenalty := s.repetitionPenaltiesCpu i
  generator := s.generators.get? i
  minTokens := s.minTokens.get? i
  badWordsTokenIds := s.badWordsTokenIds.get? i
  loraId := s.requestLoraMapping i

structure SameRow (s : InputBatch) (i : ℕ) (t : InputBatch) (j : ℕ) : Prop where
  fields : t.fields j = s.fields i
  tokenIds : t.tokenIdsCpu j = s.tokenIdsCpu i
  numBlocks : t.blockTable.numBlocksPerRow j = s.blockTable.numBlocksPerRow i
  blocks : t.blockTable.blockTableNp j = s.blockTable.blockTableNp i

structure MovedRow (s : InputBatch) (i : ℕ) (t : InputBatch) (j : ℕ) : Prop where
  fields : t.fields j = s.fields i
  tokenIds : ∀ k < s.numTokens i, t.tokenIdsCpu j k = s.tokenIdsCpu i k
  numBlocks : t.blockTable.numBlocksPerRow j = s.blockTable.numBlocksPerRow i
  blocks : ∀ k < s.blockTable.numBlocksPerRow i, t.blockTable.blockTableNp j k = s.blockTable.blockTableNp i k

structure SameSizes (s t : InputBatch) : Prop where
  maxNumReqs : t.maxNumReqs = s.maxNumReqs
  maxModelLen : t.maxModelLen = s.maxModelLen
  vocabSize : t.vocabSize = s.vocabSize
  maxNumBlocksPerReq : t.blockTable.maxNumBlocksPerReq = s.blockTable.maxNumBlocksPerReq

theorem SameSizes.refl (s : InputBatch) : SameSizes s s := ⟨rfl, rfl, rfl, rfl⟩

theorem SameSizes.trans (first : SameSizes s t) (second : SameSizes t u) : SameSizes s u :=
  ⟨second.maxNumReqs.trans first.maxNumReqs, second.maxModelLen.trans first.maxModelLen,
    second.vocabSize.trans first.vocabSize, second.maxNumBlocksPerReq.trans first.maxNumBlocksPerReq⟩

/-! ### `remove_request` -/

def removed (i : ℕ) (id : RequestId) (loras : Dict ℕ (Finset RequestId)) (s : InputBatch) : InputBatch :=
  { clearConstraints i id (clearRow i id s) with
    loraIdToRequestIds := loras
    requestLoraMapping := Function.update s.requestLoraMapping i 0 }

theorem removeRequest_ok {result : Option ℕ} (call : removeRequest id s = .ok result t) :
    (s.reqIdToIndex.get? id = none ∧ result = none ∧ t = s) ∨
      ∃ i loras, s.reqIdToIndex.get? id = some i ∧ result = some i ∧ t = s.removed i id loras := by
  unfold removeRequest at call
  rw [get_bind] at call
  cases found : s.reqIdToIndex.get? id with
  | none =>
    rw [found] at call
    cases call
    exact Or.inl ⟨rfl, rfl, rfl⟩
  | some i =>
    rw [found] at call
    dsimp only at call
    rw [modify_bind] at call
    obtain ⟨_, v, lora, call⟩ := bind_ok call
    rw [modify_bind] at call
    cases call
    right
    unfold clearLora at lora
    rw [get_bind] at lora
    dsimp only at lora
    split at lora
    · obtain ⟨reqIds, w, got, lora⟩ := bind_ok lora
      obtain ⟨-, rfl⟩ := getItem_ok got
      cases lora
      exact ⟨i, _, rfl, rfl, rfl⟩
    · rename_i none
      cases lora
      refine ⟨i, s.loraIdToRequestIds, rfl, rfl, ?_⟩
      have zero : s.requestLoraMapping i = 0 := not_not.mp none
      have same : Function.update s.requestLoraMapping i 0 = s.requestLoraMapping := by
        rw [← zero, Function.update_eq_self]
      unfold removed
      rw [same]
      rfl

theorem sameRow_removed {loras : Dict ℕ (Finset RequestId)} (other : j ≠ i) : SameRow s j (s.removed i id loras) j := by
  constructor
  · show RowFields.mk _ _ _ _ _ _ _ _ _ _ _ ((s.generators.erase i).get? j) ((s.minTokens.erase i).get? j)
      ((s.badWordsTokenIds.erase i).get? j) (Function.update s.requestLoraMapping i 0 j) = _
    rw [Dict.get?_erase_ne other, Dict.get?_erase_ne other, Dict.get?_erase_ne other, Function.update_of_ne other]
    rfl
  · rfl
  · rfl
  · rfl

/-! ### `add_request` -/

end InputBatch

namespace BlockTable

/-- A row of the block table with more blocks. -/
def appended (blockIds : List BlockId) (i : ℕ) (s : BlockTable) : BlockTable :=
  { s with
    numBlocksPerRow := Function.update s.numBlocksPerRow i (s.numBlocksPerRow i + blockIds.length)
    blockTableNp := Function.update s.blockTableNp i
      (overwrite s.maxNumBlocksPerReq (s.blockTableNp i) (s.numBlocksPerRow i) blockIds) }

theorem overwrite_nil {α : Type} (width start : ℕ) (row : ℕ → α) : overwrite width row start [] = row := by
  funext j
  unfold overwrite
  split <;> rfl

theorem appendRow_ok {blockIds : List BlockId} {i : ℕ} {s t : BlockTable} {u : Unit}
    (call : appendRow blockIds i s = .ok u t) : t = s.appended blockIds i := by
  unfold appendRow at call
  split at call
  · rename_i none
    cases call
    unfold appended
    rw [none, overwrite_nil, List.length_nil, Nat.add_zero, Function.update_eq_self, Function.update_eq_self]
  · rw [get_bind] at call
    dsimp only at call
    rw [modify_bind] at call
    obtain ⟨_, v, checked, call⟩ := bind_ok call
    rw [checkSlice_ok checked] at call
    cases call
    rfl

theorem addRow_ok {blockIds : List BlockId} {i : ℕ} {s t : BlockTable} {u : Unit}
    (call : addRow blockIds i s = .ok u t) :
    t = { s with
      numBlocksPerRow := Function.update s.numBlocksPerRow i blockIds.length
      blockTableNp := Function.update s.blockTableNp i
        (overwrite s.maxNumBlocksPerReq (s.blockTableNp i) 0 blockIds) } := by
  unfold addRow at call
  rw [modify_bind] at call
  rw [appendRow_ok call]
  unfold appended
  dsimp only
  rw [Function.update_self, Function.update_idem, Nat.zero_add]

end BlockTable

namespace InputBatch

variable {s t u : InputBatch} {i j k : ℕ} {id : RequestId} {request : CachedRequestState}

def placed (i : ℕ) (id : RequestId) (reqIds : List (Option RequestId)) : List (Option RequestId) :=
  if i = reqIds.length then reqIds ++ [some id] else reqIds.set i (some id)

def added (i : ℕ) (request : CachedRequestState) (s : InputBatch) : InputBatch :=
  let prompted := overwrite s.maxModelLen (s.tokenIdsCpu i) 0 request.promptTokenIds
  let base : InputBatch := { setNumTokens i request (setPrompt i request s) with
    reqIds := placed i request.reqId s.reqIds
    tokenIdsCpu := Function.update s.tokenIdsCpu i
      (overwrite s.maxModelLen prompted request.promptTokenIds.length request.outputTokenIds)
    blockTable := { s.blockTable with
      numBlocksPerRow := Function.update s.blockTable.numBlocksPerRow i request.blockIds.length
      blockTableNp := Function.update s.blockTable.blockTableNp i
        (overwrite s.blockTable.maxNumBlocksPerReq (s.blockTable.blockTableNp i) 0 request.blockIds) } }
  setLora i request (setConstraints i request (setSampling i request base))

variable {v : Unit}

theorem writeTokenIds_ok {start : ℕ} {tokenIds : List TokenId}
    (call : writeTokenIds i start tokenIds s = .ok v t) :
    t = { s with
      tokenIdsCpu := Function.update s.tokenIdsCpu i
        (overwrite s.maxModelLen (s.tokenIdsCpu i) start tokenIds) } := by
  unfold writeTokenIds at call
  rw [get_bind] at call
  obtain ⟨_, w, checked, call⟩ := bind_ok call
  rw [checkSlice_ok checked] at call
  cases call
  rfl

theorem placeReqId_ok (call : placeReqId i id s = .ok v t) :
    i ≤ s.reqIds.length ∧ t = { s with reqIds := placed i id s.reqIds } := by
  unfold placeReqId at call
  rw [get_bind] at call
  unfold placed
  split at call
  · rename_i last
    cases call
    rw [if_pos last]
    exact ⟨last.le, rfl⟩
  · rename_i other
    split at call
    · rename_i inside
      cases call
      rw [if_neg other]
      exact ⟨inside.le, rfl⟩
    · cases call

theorem addRequest_ok {reqIndex : Option ℕ} (call : addRequest request reqIndex s = .ok v t) :
    reqIndex.getD s.numReqs < s.maxNumReqs ∧ reqIndex.getD s.numReqs ≤ s.reqIds.length ∧
      t = s.added (reqIndex.getD s.numReqs) request := by
  unfold addRequest at call
  rw [get_bind] at call
  generalize reqIndex.getD s.numReqs = i at call ⊢
  obtain ⟨_, _, checked, call⟩ := bind_ok call
  obtain ⟨room, rfl⟩ := check_ok checked
  obtain ⟨_, _, listed, call⟩ := bind_ok call
  obtain ⟨inside, rfl⟩ := placeReqId_ok listed
  rw [modify_bind] at call
  obtain ⟨_, _, prompt, call⟩ := bind_ok call
  rw [writeTokenIds_ok prompt] at call
  obtain ⟨_, _, output, call⟩ := bind_ok call
  rw [writeTokenIds_ok output, modify_bind] at call
  obtain ⟨_, _, blocks, call⟩ := bind_ok call
  obtain ⟨table, tabled, rfl⟩ := zoom_ok blocks
  rw [BlockTable.addRow_ok tabled, modify_bind, modify_bind] at call
  cases call
  refine ⟨room, inside, ?_⟩
  unfold added
  dsimp only [setNumTokens, setPrompt]
  rw [Function.update_self, Function.update_idem]

theorem setLora_eq (i : ℕ) (request : CachedRequestState) (s : InputBatch) : setLora i request s = { s with
    requestLoraMapping := Function.update s.requestLoraMapping i (request.loraRequest.getD 0)
    loraIdToRequestIds := (setLora i request s).loraIdToRequestIds } := by
  unfold setLora
  cases request.loraRequest <;> rfl

/-- The requests that restrict their tokens, after one more. -/
def nowRestricted (request : CachedRequestState) (ids : Finset RequestId) : Finset RequestId :=
  match request.samplingParams.allowedTokenIds.getD [] with
  | [] => ids
  | _ => insert request.reqId ids

/-- The mask, after one more request in row `i`. -/
def nowMasked (i : ℕ) (request : CachedRequestState) (mask : Option (ℕ → TokenId → Bool)) :
    Option (ℕ → TokenId → Bool) :=
  match request.samplingParams.allowedTokenIds.getD [] with
  | [] => mask
  | allowed => some (Function.update (mask.getD fun _ _ => false) i (maskRow allowed))

/-- The biases, after one more request in row `i`. -/
def nowBiased (i : ℕ) (request : CachedRequestState) (logitBias : ℕ → Option (List (TokenId × ℚ))) :
    ℕ → Option (List (TokenId × ℚ)) :=
  match request.samplingParams.logitBias with
  | some bias => Function.update logitBias i (some bias)
  | none => logitBias

theorem setConstraints_eq (i : ℕ) (request : CachedRequestState) (s : InputBatch) : setConstraints i request s = { s with
    logitBias := nowBiased i request s.logitBias
    hasAllowedTokenIds := nowRestricted request s.hasAllowedTokenIds
    allowedTokenIdsMaskCpuTensor := nowMasked i request s.allowedTokenIdsMaskCpuTensor
    badWordsTokenIds := s.badWordsTokenIds.insert i request.samplingParams.badWordsTokenIds } := by
  unfold setConstraints nowBiased nowRestricted nowMasked
  dsimp only
  cases request.samplingParams.logitBias with
  | none => cases request.samplingParams.allowedTokenIds.getD [] <;> rfl
  | some bias => cases request.samplingParams.allowedTokenIds.getD [] <;> rfl

@[simp] theorem added_reqIds : (s.added i request).reqIds = placed i request.reqId s.reqIds := by
  unfold added
  rw [setLora_eq, setConstraints_eq]
  rfl

@[simp] theorem added_reqIdToIndex : (s.added i request).reqIdToIndex = s.reqIdToIndex.insert request.reqId i := by
  unfold added
  rw [setLora_eq, setConstraints_eq]
  rfl

@[simp] theorem added_logitBias : (s.added i request).logitBias = nowBiased i request s.logitBias := by
  unfold added
  rw [setLora_eq, setConstraints_eq]
  rfl

@[simp] theorem added_mask :
    (s.added i request).allowedTokenIdsMaskCpuTensor = nowMasked i request s.allowedTokenIdsMaskCpuTensor := by
  unfold added
  rw [setLora_eq, setConstraints_eq]
  rfl

theorem sameSizes_added (i : ℕ) (request : CachedRequestState) (s : InputBatch) : SameSizes s (s.added i request) := by
  unfold added
  rw [setLora_eq, setConstraints_eq]
  exact ⟨rfl, rfl, rfl, rfl⟩

theorem get?_addedGenerators : (s.added i request).generators.get? j =
    if j = i then request.generator <|> s.generators.get? i else s.generators.get? j := by
  unfold added
  rw [setLora_eq, setConstraints_eq]
  exact get?_insertSome s.generators request.generator i j

theorem get?_addedMinTokens : (s.added i request).minTokens.get? j =
    if j = i then rowMinTokens request.samplingParams <|> s.minTokens.get? i else s.minTokens.get? j := by
  unfold added
  rw [setLora_eq, setConstraints_eq]
  exact get?_insertSome s.minTokens (rowMinTokens request.samplingParams) i j

theorem get?_addedBadWords : (s.added i request).badWordsTokenIds.get? j =
    if j = i then some request.samplingParams.badWordsTokenIds else s.badWordsTokenIds.get? j := by
  unfold added
  rw [setLora_eq, setConstraints_eq]
  exact Dict.get?_insert _ _ _ _

def rowOf (vocabSize : ℕ) (request : CachedRequestState) : RowFields where
  numTokens := request.numTokens
  numTokensNoSpec := request.numTokens
  numPromptTokens := request.promptTokenIds.length
  numComputedTokens := request.numComputedTokens
  temperature := rowTemperature request.samplingParams
  topP := request.samplingParams.topP
  topK := rowTopK vocabSize request.samplingParams
  minP := request.samplingParams.minP
  frequencyPenalty := request.samplingParams.frequencyPenalty
  presencePenalty := request.samplingParams.presencePenalty
  repetitionPenalty := request.samplingParams.repetitionPenalty
  generator := request.generator
  minTokens := rowMinTokens request.samplingParams
  badWordsTokenIds := some request.samplingParams.badWordsTokenIds
  loraId := request.loraRequest.getD 0

theorem fields_added (generator : s.generators.get? i = none) (minTokens : s.minTokens.get? i = none) :
    (s.added i request).fields i = rowOf s.vocabSize request := by
  have generators := @get?_addedGenerators s i i request
  have minTokenses := @get?_addedMinTokens s i i request
  have badWords := @get?_addedBadWords s i i request
  rw [if_pos rfl, generator, Option.orElse_eq_orElse, Option.orElse_eq_or, Option.or_none] at generators
  rw [if_pos rfl, minTokens, Option.orElse_eq_orElse, Option.orElse_eq_or, Option.or_none] at minTokenses
  rw [if_pos rfl] at badWords
  apply RowFields.ext
  case generator => exact generators
  case minTokens => exact minTokenses
  case badWordsTokenIds => exact badWords
  all_goals
    unfold fields added
    rw [setLora_eq, setConstraints_eq]
    exact Function.update_self _ _ _

theorem sameRow_added (other : j ≠ i) : SameRow s j (s.added i request) j := by
  have generators := @get?_addedGenerators s i j request
  have minTokenses := @get?_addedMinTokens s i j request
  have badWords := @get?_addedBadWords s i j request
  rw [if_neg other] at generators minTokenses badWords
  constructor
  · apply RowFields.ext
    case generator => exact generators
    case minTokens => exact minTokenses
    case badWordsTokenIds => exact badWords
    all_goals
      unfold fields added
      rw [setLora_eq, setConstraints_eq]
      exact Function.update_of_ne other _ _
  all_goals
    unfold added
    rw [setLora_eq, setConstraints_eq]
    exact Function.update_of_ne other _ _

/-! ### `swap_states` -/

/-- The batch with the requests of two rows exchanged. -/
def swapped (i1 i2 : ℕ) (id1 id2 : RequestId) (s : InputBatch) : InputBatch :=
  swapRows i1 i2 { s with
    reqIds := (s.reqIds.set i1 (some id2)).set i2 (some id1)
    reqIdToIndex := (s.reqIdToIndex.insert id1 i2).insert id2 i1 }

theorem swapStates_ok {i1 i2 : ℕ} (call : swapStates i1 i2 s = .ok v t) :
    ∃ id1 id2, s.reqIds[i1]? = some (some id1) ∧ s.reqIds[i2]? = some (some id2) ∧ t = s.swapped i1 i2 id1 id2 := by
  unfold swapStates at call
  rw [get_bind] at call
  obtain ⟨id1, _, first, call⟩ := bind_ok call
  obtain ⟨found1, rfl⟩ := getItem_ok first
  obtain ⟨id2, _, second, call⟩ := bind_ok call
  obtain ⟨found2, rfl⟩ := getItem_ok second
  rw [set_bind] at call
  cases id1 with
  | none => cases call
  | some id1 =>
    cases id2 with
    | none => cases call
    | some id2 =>
      dsimp only at call
      rw [modify_bind] at call
      cases call
      exact ⟨id1, id2, found1, found2, rfl⟩

theorem sameRow_swap_left (i1 i2 : ℕ) (id1 id2 : RequestId) (s : InputBatch) :
    SameRow s i2 (s.swapped i1 i2 id1 id2) i1 := by
  constructor
  · apply RowFields.ext
    case generator | minTokens | badWordsTokenIds => exact get?_swapDictValues_left
    all_goals exact swapAt_left
  · exact swapAt_left
  · exact swapAt_left
  · exact swapAt_left

theorem sameRow_swap_right (i1 i2 : ℕ) (id1 id2 : RequestId) (s : InputBatch) :
    SameRow s i1 (s.swapped i1 i2 id1 id2) i2 := by
  constructor
  · apply RowFields.ext
    case generator | minTokens | badWordsTokenIds => exact get?_swapDictValues_right
    all_goals exact swapAt_right
  · exact swapAt_right
  · exact swapAt_right
  · exact swapAt_right

theorem sameRow_swap_other {i1 i2 : ℕ} {id1 id2 : RequestId} (left : j ≠ i1) (right : j ≠ i2) :
    SameRow s j (s.swapped i1 i2 id1 id2) j := by
  constructor
  · apply RowFields.ext
    case generator | minTokens | badWordsTokenIds => exact get?_swapDictValues_other left right
    all_goals exact swapAt_other left right
  · exact swapAt_other left right
  · exact swapAt_other left right
  · exact swapAt_other left right

/-! ### `condense` -/

def moved (last empty : ℕ) (id : RequestId) (s : InputBatch) : InputBatch :=
  moveRow last empty { s with
    reqIds := (s.reqIds.set empty (some id)).set last none
    reqIdToIndex := s.reqIdToIndex.insert id empty }

theorem moveLast_ok {last empty : ℕ} (call : moveLast last empty s = .ok v t) :
    ∃ id, s.reqIds[last]? = some (some id) ∧ t = s.moved last empty id := by
  unfold moveLast at call
  rw [get_bind] at call
  obtain ⟨id, _, at_, call⟩ := bind_ok call
  obtain ⟨found, rfl⟩ := getItem_ok at_
  cases id with
  | none => cases call
  | some id =>
    dsimp only at call
    rw [set_bind] at call
    cases call
    exact ⟨id, found, rfl⟩

/-- Nothing is kept under a row that has no request. -/
def Clean (s : InputBatch) (i : ℕ) : Prop :=
  s.generators.get? i = none ∧ s.minTokens.get? i = none ∧ s.badWordsTokenIds.get? i = none

theorem movedRow_move {last empty : ℕ} (clean : s.Clean empty) :
    MovedRow s last (s.moved last empty id) empty := by
  obtain ⟨generators, minTokens, badWords⟩ := clean
  constructor
  · apply RowFields.ext
    case generator => exact get?_moveKey_target generators
    case minTokens => exact get?_moveKey_target minTokens
    case badWordsTokenIds => exact get?_moveKey_target badWords
    all_goals exact Function.update_self _ _ _
  · intro k less
    have copied : (s.moved last empty id).tokenIdsCpu empty k =
        if k < s.numTokens last then s.tokenIdsCpu last k else s.tokenIdsCpu empty k := by
      show Function.update s.tokenIdsCpu empty _ empty k = _
      rw [Function.update_self]
    rw [copied, if_pos less]
  · exact Function.update_self _ _ _
  · intro k less
    have copied : (s.moved last empty id).blockTable.blockTableNp empty k =
        if k < s.blockTable.numBlocksPerRow last then s.blockTable.blockTableNp last k
        else s.blockTable.blockTableNp empty k := by
      show Function.update s.blockTable.blockTableNp empty _ empty k = _
      rw [Function.update_self]
    rw [copied, if_pos less]

theorem sameRow_move_other {last empty : ℕ} (left : j ≠ last) (right : j ≠ empty) :
    SameRow s j (s.moved last empty id) j := by
  constructor
  · apply RowFields.ext
    case generator | minTokens | badWordsTokenIds => exact get?_moveKey_other left right
    all_goals exact Function.update_of_ne right _ _
  · exact Function.update_of_ne right _ _
  · exact Function.update_of_ne right _ _
  · exact Function.update_of_ne right _ _

end InputBatch

end Vllm.V1
