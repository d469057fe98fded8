import VllmProofs.Data.FlatArrays
import VllmProofs.V1.InputBatchRows

/-!
`GPUModelRunner._prepare_inputs` and `_calc_mrope_positions`: the scheduled tokens of all rows in flat arrays,
row by row. Rows are found by multiplying 32-bit row indices with the widths of two matrices, so this needs matrices
that are not too large. The attention metadata is left out.
-/

namespace Vllm.V1
open FlatArrays

/-- A number stored in 32 bits. -/
def int32 (x : ℤ) : ℤ := x.bmod (2 ^ 32)

/-- The three coordinates of a token under M-RoPE. -/
abbrev MropePosition := ℤ × ℤ × ℤ

structure MropeRequest where
  numPromptTokens : ℕ
  mropePositions : List MropePosition
  mropePositionDelta : ℤ
  filled : mropePositions.length = numPromptTokens

structure InputPreparation where
  inputBatch : InputBatch
  requests : Dict RequestId MropeRequest := ∅
  blockSize : ℕ
  maxNumTokens : ℕ
  usesMrope : Bool := false
  mropePositionsCpu : ℕ → MropePosition := fun _ => (0, 0, 0)
  blockSize_pos : 0 < blockSize
  blocksPerReq : inputBatch.blockTable.maxNumBlocksPerReq = cdiv inputBatch.maxModelLen blockSize
  /-- The numbers of tokens in a row are 32-bit integers. -/
  lenFits : inputBatch.maxModelLen < 2 ^ 31

structure PreparedInputs where
  positions : List ℕ
  inputIds : List TokenId
  slotMapping : List ℤ
  mropePositions : List MropePosition

namespace InputPreparation

/-- `scheduler_output.num_scheduled_tokens[req_id]` for the rows of the batch. -/
def scheduledCounts (numScheduledTokens : Dict RequestId ℕ) : List (Option RequestId) → Except PyError (List ℕ)
  | [] => .ok []
  | reqId :: rest =>
    match reqId.bind numScheduledTokens.get? with
    | some numTokens => do
      let others ← scheduledCounts numScheduledTokens rest
      .ok (numTokens :: others)
    | none => .error .keyError

def mropeParts (numComputedTokens numScheduledTokens numPromptTokens : ℕ) : ℕ × ℕ :=
  if numPromptTokens < numComputedTokens + numScheduledTokens then
    let promptPartLen := numPromptTokens - numComputedTokens
    (promptPartLen, numScheduledTokens - promptPartLen)
  else (numScheduledTokens, 0)

/-- `MRotaryEmbedding.get_next_input_positions_tensor` -/
def nextInputPositions (mropePositionDelta : ℤ) (contextLen seqLen : ℕ) : List MropePosition :=
  (List.range (seqLen - contextLen)).map fun (i : ℕ) =>
    let position := mropePositionDelta + contextLen + i
    (position, position, position)

/-- The loop of `_calc_mrope_positions`, from row `index` and column `ptr` on. -/
def calcMropePositions (s : InputPreparation) (numScheduledTokens : Dict RequestId ℕ) :
    ℕ → List (Option RequestId) → ℕ → (ℕ → MropePosition) → Except PyError (ℕ → MropePosition)
  | _, [], _, positions => .ok positions
  | index, reqId :: rest, ptr, positions =>
    match reqId.bind s.requests.get?, reqId.bind numScheduledTokens.get? with
    | some req, some numTokens =>
      let numComputedTokens := s.inputBatch.numComputedTokensCpu index
      let parts := mropeParts numComputedTokens numTokens req.numPromptTokens
      if numTokens = parts.1 + parts.2 then
        let width := s.maxNumTokens + 1
        let positions := overwrite width positions ptr
          (PySlice.slice req.mropePositions numComputedTokens (numComputedTokens + parts.1 : ℕ))
        let positions := overwrite width positions (ptr + parts.1)
          (nextInputPositions req.mropePositionDelta (numComputedTokens + parts.1)
            (numComputedTokens + parts.1 + parts.2))
        calcMropePositions s numScheduledTokens (index + 1) rest (ptr + parts.1 + parts.2) positions
      else .error .assertionError
    | _, _ => .error .keyError

/-- `torch.index_select`, which takes no index from the end. -/
def selectTokens (s : InputPreparation) (indices : List ℤ) : Except PyError (List TokenId) :=
  match gather (flatAt s.inputBatch.maxNumReqs s.inputBatch.maxModelLen s.inputBatch.tokenIdsCpu) indices with
  | some tokenIds => .ok tokenIds
  | none => .error .indexError

/-- `block_table_cpu.flatten()[indices]`, where negative indices count from the end. -/
def selectBlocks (s : InputPreparation) (indices : List ℤ) : Except PyError (List BlockId) :=
  let size : ℤ := s.inputBatch.maxNumReqs * s.inputBatch.blockTable.maxNumBlocksPerReq
  match gather (fun i => flatAt s.inputBatch.maxNumReqs s.inputBatch.blockTable.maxNumBlocksPerReq
    s.inputBatch.blockTable.blockTableNp (if i < 0 then i + size else i)) indices with
  | some blockNumbers => .ok blockNumbers
  | none => .error .indexError

/-- The M-RoPE positions, where the model has them. -/
def mropeColumns (s : InputPreparation) (numScheduledTokens : Dict RequestId ℕ) : Except PyError (ℕ → MropePosition) :=
  if s.usesMrope then calcMropePositions s numScheduledTokens 0 s.inputBatch.reqIds 0 s.mropePositionsCpu
  else .ok s.mropePositionsCpu

def prepareInputs (s : InputPreparation) (numScheduledTokens : Dict RequestId ℕ) (totalNumScheduledTokens : ℕ) :
    Except PyError PreparedInputs :=
  if 0 < totalNumScheduledTokens ∧ 0 < s.inputBatch.numReqs then do
    let counts ← scheduledCounts numScheduledTokens s.inputBatch.reqIds
    let reqIndices := repeatEach (List.range s.inputBatch.numReqs) counts
    let cumsumsOffsets := repeatEach (List.zipWith (· - ·) (cumsum counts) counts) counts
    let arange := List.zipWith (· - ·) (List.range totalNumScheduledTokens) cumsumsOffsets
    let positions := List.zipWith (fun i offset => s.inputBatch.numComputedTokensCpu i + offset) reqIndices arange
    let mrope ← mropeColumns s numScheduledTokens
    let inputIds ← selectTokens s (List.zipWith
      (fun (position i : ℕ) => position + int32 (i * s.inputBatch.maxModelLen)) positions reqIndices)
    let blockNumbers ← selectBlocks s (List.zipWith
      (fun (i position : ℕ) => int32 (i * s.inputBatch.blockTable.maxNumBlocksPerReq) + (position / s.blockSize : ℕ))
      reqIndices positions)
    let slotMapping := List.zipWith (fun (block position : ℕ) =>
      int32 (int32 (block * s.blockSize) + (position % s.blockSize : ℕ))) blockNumbers positions
    .ok { positions, inputIds, slotMapping, mropePositions := (List.range totalNumScheduledTokens).map mrope }
  else .error .assertionError

end InputPreparation
end Vllm.V1

namespace Vllm.V1.InputPreparation
open FlatArrays

/-- The request in a row, to M-RoPE. -/
def requestAt (s : InputPreparation) (i : ℕ) : Option MropeRequest :=
  (s.inputBatch.reqIds[i]?.join).bind s.requests.get?

/-- The coordinates of the token at a position: from the table within the prompt, computed after it. -/
def MropeRequest.positionAt (request : MropeRequest) (position : ℕ) : MropePosition :=
  if position < request.numPromptTokens then request.mropePositions.getD position (0, 0, 0)
  else
    let later := position + request.mropePositionDelta
    (later, later, later)

def positionOf (s : InputPreparation) (item : ℕ × ℕ) : ℕ := s.inputBatch.numComputedTokensCpu item.1 + item.2

def tokenOf (s : InputPreparation) (item : ℕ × ℕ) : TokenId := s.inputBatch.tokenIdsCpu item.1 (s.positionOf item)

def slotOf (s : InputPreparation) (item : ℕ × ℕ) : ℕ :=
  s.inputBatch.blockTable.blockTableNp item.1 (s.positionOf item / s.blockSize) * s.blockSize +
    s.positionOf item % s.blockSize

/-- The step of a scheduler output that fits the batch. -/
structure Scheduled (s : InputPreparation) (numScheduledTokens : Dict RequestId ℕ) (total : ℕ) (counts : List ℕ) :
    Prop where
  looked : scheduledCounts numScheduledTokens s.inputBatch.reqIds = .ok counts
  rows : s.inputBatch.numReqs = s.inputBatch.reqIds.length
  within : s.inputBatch.numReqs ≤ s.inputBatch.maxNumReqs
  whole : total = counts.sum
  positive : 0 < total
  room : total ≤ s.maxNumTokens
  known : s.usesMrope = true → ∀ i < s.inputBatch.numReqs, ∃ request, s.requestAt i = some request

/-- The arrays list the scheduled tokens row by row, each cell of the matrices where its row and position say. -/
structure LaidOut (s : InputPreparation) (counts : List ℕ) (prepared : PreparedInputs) : Prop where
  positions : prepared.positions = (items counts).map s.positionOf
  inside : ∀ item ∈ items counts, s.positionOf item < s.inputBatch.maxModelLen
  inputIds : prepared.inputIds = (items counts).map s.tokenOf
  slotMapping : prepared.slotMapping = (items counts).map fun item => (s.slotOf item : ℤ)
  mrope : s.usesMrope = true → prepared.mropePositions.map some = (items counts).map fun item =>
    (s.requestAt item.1).map fun request => MropeRequest.positionAt request (s.positionOf item)

/-- The scheduled tokens lie in their rows, and the indices and the slots fit 32 bits. -/
def Fits (s : InputPreparation) (counts : List ℕ) : Prop :=
  ∀ item ∈ items counts, s.positionOf item < s.inputBatch.maxModelLen ∧
    item.1 * s.inputBatch.maxModelLen < 2 ^ 31 ∧ s.slotOf item < 2 ^ 31

/-- The same step with other tokens in the rows. -/
def withTokens (s : InputPreparation) (tokenIdsCpu : ℕ → ℕ → TokenId) : InputPreparation :=
  { s with inputBatch := { s.inputBatch with tokenIdsCpu } }

variable {s : InputPreparation} {numScheduledTokens : Dict RequestId ℕ} {total i n ptr index : ℕ} {counts : List ℕ}

theorem int32_of_lt {x : ℤ} (nonneg : 0 ≤ x) (fits : x < 2 ^ 31) : int32 x = x := by
  unfold int32
  apply Int.bmod_eq_of_le_mul_two <;> omega

theorem int32_lt (x : ℤ) : int32 x < 2 ^ 31 := by
  unfold int32
  have := @Int.bmod_lt x (2 ^ 32) (by decide)
  omega

/-! ### The scheduled tokens of the rows -/

variable {reqIds : List (Option RequestId)}

theorem scheduledCounts_ok (looked : scheduledCounts numScheduledTokens reqIds = .ok counts) :
    counts.length = reqIds.length ∧
      ∀ i : ℕ, counts[i]? = (reqIds[i]?.join).bind numScheduledTokens.get? := by
  induction reqIds generalizing counts with
  | nil =>
    cases looked
    exact ⟨rfl, fun i => by simp⟩
  | cons reqId rest ih =>
    unfold scheduledCounts at looked
    split at looked
    · rename_i numTokens found
      cases others : scheduledCounts numScheduledTokens rest with
      | error e =>
        rw [others] at looked
        cases looked
      | ok more =>
        rw [others] at looked
        cases looked
        obtain ⟨length, lookups⟩ := ih others
        refine ⟨by rw [List.length_cons, List.length_cons, length], ?_⟩
        intro i
        cases i with
        | zero => simpa using found.symm
        | succ i => simpa using lookups i
    · cases looked

/-! ### M-RoPE -/

theorem mropeParts_sum (computed scheduled prompt : ℕ) :
    scheduled = (mropeParts computed scheduled prompt).1 + (mropeParts computed scheduled prompt).2 := by
  unfold mropeParts
  split
  · dsimp only
    omega
  · rfl

variable {computed : ℕ}

theorem mropeParts_within {j scheduled prompt : ℕ} (less : j < scheduled) :
    j < (mropeParts computed scheduled prompt).1 ↔ computed + j < prompt := by
  unfold mropeParts
  split
  · dsimp only
    omega
  · dsimp only
    omega

/-- The columns of one row: those of the prompt from the table, the others computed. -/
theorem row_columns (request : MropeRequest) {width j : ℕ} (positions : ℕ → MropePosition)
    (less : j < n) (inside : ptr + n ≤ width) :
    overwrite width
      (overwrite width positions ptr (PySlice.slice request.mropePositions computed
        (computed + (mropeParts computed n request.numPromptTokens).1 : ℕ)))
      (ptr + (mropeParts computed n request.numPromptTokens).1)
      (nextInputPositions request.mropePositionDelta
        (computed + (mropeParts computed n request.numPromptTokens).1)
        (computed + (mropeParts computed n request.numPromptTokens).1 +
          (mropeParts computed n request.numPromptTokens).2)) (ptr + j) =
      MropeRequest.positionAt request (computed + j) := by
  have sum := mropeParts_sum computed n request.numPromptTokens
  have prompt := @mropeParts_within computed j n request.numPromptTokens less
  have last := fun k => @mropeParts_within computed k n request.numPromptTokens
  generalize (mropeParts computed n request.numPromptTokens).1 = p at *
  generalize (mropeParts computed n request.numPromptTokens).2 = q at *
  unfold MropeRequest.positionAt
  by_cases early : j < p
  · have long : computed + p ≤ request.mropePositions.length := by
      have := (last (p - 1) (by omega)).mp (by omega)
      rw [request.filled]
      omega
    rw [overwrite_before (by omega), PySlice.slice_add, if_pos (prompt.mp early)]
    have listed : ptr + j - ptr < ((request.mropePositions.drop computed).take p).length := by
      rw [List.length_take, List.length_drop]
      omega
    rw [overwrite_inside (by omega) (by omega) listed, List.getElem_take, List.getElem_drop,
      List.getD_eq_getElem _ _ (by omega)]
    congr 1
    omega
  · have listed : ptr + j - (ptr + p) < (nextInputPositions request.mropePositionDelta (computed + p)
        (computed + p + q)).length := by
      rw [nextInputPositions, List.length_map, List.length_range]
      omega
    rw [if_neg fun within => early (prompt.mpr within), overwrite_inside (by omega) (by omega) listed]
    simp only [nextInputPositions, List.getElem_map, List.getElem_range]
    have same : request.mropePositionDelta + ((computed + p : ℕ) : ℤ) + ((ptr + j - (ptr + p) : ℕ) : ℤ) =
        ((computed + j : ℕ) : ℤ) + request.mropePositionDelta := by
      omega
    rw [same]

theorem row_others (request : MropeRequest) {width c : ℕ} (positions : ℕ → MropePosition) (before : c < ptr)
    (p q : ℕ) :
    overwrite width
      (overwrite width positions ptr (PySlice.slice request.mropePositions computed (computed + p : ℕ)))
      (ptr + p) (nextInputPositions request.mropePositionDelta (computed + p) (computed + p + q)) c = positions c := by
  rw [overwrite_before (by omega), overwrite_before before]

/-- The loop writes the columns of all rows in order, and none before. -/
theorem calcMropePositions_ok (positions : ℕ → MropePosition)
    (looked : scheduledCounts numScheduledTokens reqIds = .ok counts)
    (requests : ∀ k < reqIds.length, ∃ request, (reqIds[k]?.join).bind s.requests.get? = some request ∧
      s.requestAt (index + k) = some request)
    (room : ptr + counts.sum ≤ s.maxNumTokens) :
    ∃ columns, calcMropePositions s numScheduledTokens index reqIds ptr positions = .ok columns ∧
      (∀ c < ptr, columns c = positions c) ∧
      (List.range' ptr counts.sum).map (fun c => some (columns c)) = (itemsFrom index counts).map fun item =>
        (s.requestAt item.1).map fun request => MropeRequest.positionAt request (s.positionOf item) := by
  induction reqIds generalizing counts index ptr positions with
  | nil =>
    cases looked
    exact ⟨positions, rfl, fun _ _ => rfl, rfl⟩
  | cons reqId rest ih =>
    obtain ⟨request, known, here⟩ := requests 0 (by simp)
    unfold scheduledCounts at looked
    split at looked
    · rename_i numTokens found
      cases others : scheduledCounts numScheduledTokens rest with
      | error e =>
        rw [others] at looked
        cases looked
      | ok more =>
        rw [others] at looked
        cases looked
        have sum := mropeParts_sum (s.inputBatch.numComputedTokensCpu index) numTokens request.numPromptTokens
        rw [List.sum_cons] at room
        have later : ∀ k < rest.length, ∃ request, (rest[k]?.join).bind s.requests.get? = some request ∧
            s.requestAt (index + 1 + k) = some request := by
          intro k less
          obtain ⟨request, known, there⟩ := requests (k + 1) (by simpa using less)
          refine ⟨request, by simpa using known, ?_⟩
          rw [← there]
          congr 1
          omega
        obtain ⟨columns, call, kept, written⟩ := ih (overwrite (s.maxNumTokens + 1) (overwrite (s.maxNumTokens + 1)
          positions ptr (PySlice.slice request.mropePositions (s.inputBatch.numComputedTokensCpu index)
            (s.inputBatch.numComputedTokensCpu index + (mropeParts (s.inputBatch.numComputedTokensCpu index)
              numTokens request.numPromptTokens).1 : ℕ))) (ptr + (mropeParts (s.inputBatch.numComputedTokensCpu index)
              numTokens request.numPromptTokens).1) (nextInputPositions request.mropePositionDelta
            (s.inputBatch.numComputedTokensCpu index + (mropeParts (s.inputBatch.numComputedTokensCpu index)
              numTokens request.numPromptTokens).1) (s.inputBatch.numComputedTokensCpu index +
              (mropeParts (s.inputBatch.numComputedTokensCpu index) numTokens request.numPromptTokens).1 +
              (mropeParts (s.inputBatch.numComputedTokensCpu index) numTokens request.numPromptTokens).2)))
          others later (show ptr + numTokens + more.sum ≤ s.maxNumTokens by omega)
        refine ⟨columns, ?_, ?_, ?_⟩
        · unfold calcMropePositions
          have known' : reqId.bind s.requests.get? = some request := by simpa using known
          simp only [known', found]
          rw [if_pos sum, Nat.add_assoc ptr, ← sum]
          exact call
        · intro c before
          rw [kept c (by omega)]
          exact row_others request positions before _ _
        · rw [List.sum_cons, ← List.range'_append_1, List.map_append, itemsFrom, List.map_append, written]
          congr 1
          rw [List.map_map, List.range'_eq_map_range, List.map_map]
          apply List.map_congr_left
          intro j less
          have less := List.mem_range.mp less
          simp only [Function.comp_apply]
          rw [kept (ptr + j) (by omega), row_columns request positions less (by omega)]
          have here' : s.requestAt index = some request := here
          rw [here']
          rfl
    · cases looked

/-! ### The flat arrays -/

def tokenIndex (s : InputPreparation) (item : ℕ × ℕ) : ℤ :=
  s.positionOf item + int32 (item.1 * s.inputBatch.maxModelLen)

def blockIndex (s : InputPreparation) (item : ℕ × ℕ) : ℤ :=
  int32 (item.1 * s.inputBatch.blockTable.maxNumBlocksPerReq) + (s.positionOf item / s.blockSize : ℕ)

def blockOf (s : InputPreparation) (item : ℕ × ℕ) : BlockId :=
  s.inputBatch.blockTable.blockTableNp item.1 (s.positionOf item / s.blockSize)

section
variable (h : Scheduled s numScheduledTokens total counts)
include h

theorem Scheduled.length : counts.length = s.inputBatch.numReqs := by
  rw [h.rows, (scheduledCounts_ok h.looked).1]

theorem Scheduled.row {item : ℕ × ℕ} (member : item ∈ items counts) :
    item.1 < s.inputBatch.maxNumReqs := by
  obtain ⟨n, found, -⟩ := mem_items.mp member
  have inside := (List.getElem?_eq_some_iff.mp found).1
  have length := h.length
  have within := h.within
  omega

theorem Scheduled.mrope (uses : s.usesMrope = true) :
    ∃ columns, calcMropePositions s numScheduledTokens 0 s.inputBatch.reqIds 0 s.mropePositionsCpu = .ok columns ∧
      ((List.range total).map columns).map some = (items counts).map fun item =>
        (s.requestAt item.1).map fun request => MropeRequest.positionAt request (s.positionOf item) := by
  have room := h.room
  rw [h.whole] at room
  have requests : ∀ k < s.inputBatch.reqIds.length, ∃ request,
      (s.inputBatch.reqIds[k]?.join).bind s.requests.get? = some request ∧ s.requestAt (0 + k) = some request := by
    intro k less
    rw [← h.rows] at less
    obtain ⟨request, known⟩ := h.known uses k less
    refine ⟨request, known, ?_⟩
    rw [Nat.zero_add]
    exact known
  obtain ⟨columns, call, -, written⟩ := calcMropePositions_ok s.mropePositionsCpu h.looked requests
    (show 0 + counts.sum ≤ s.maxNumTokens by omega)
  refine ⟨columns, call, ?_⟩
  rw [List.map_map, h.whole, List.range_eq_range']
  exact written

/-- The step in terms of the scheduled tokens: what is left are the two gathers. -/
theorem prepareInputs_eq :
    ∃ columns, (s.usesMrope = true → (columns.map some) = (items counts).map fun item =>
        (s.requestAt item.1).map fun request => MropeRequest.positionAt request (s.positionOf item)) ∧
      prepareInputs s numScheduledTokens total = (do
        let inputIds ← selectTokens s ((items counts).map s.tokenIndex)
        let blockNumbers ← selectBlocks s ((items counts).map s.blockIndex)
        .ok { positions := (items counts).map s.positionOf, inputIds
              slotMapping := List.zipWith (fun (block position : ℕ) =>
                int32 (int32 (block * s.blockSize) + (position % s.blockSize : ℕ))) blockNumbers
                ((items counts).map s.positionOf)
              mropePositions := columns }) := by
  have rows : 0 < s.inputBatch.numReqs := by
    rw [← h.length]
    apply List.length_pos_iff.mpr
    rintro rfl
    have positive := h.positive
    rw [h.whole] at positive
    exact absurd positive (by simp)
  have reqIndices : repeatEach (List.range s.inputBatch.numReqs) counts = (items counts).map Prod.fst := by
    rw [← h.length, List.range_eq_range', repeatEach_range]
    rfl
  have arange : List.zipWith (· - ·) (List.range total)
      (repeatEach (List.zipWith (· - ·) (cumsum counts) counts) counts) = (items counts).map Prod.snd := by
    rw [h.whole, List.range_eq_range', cumsum, arange_sub_offsets 0 0]
    rfl
  obtain ⟨mrope, columns, run⟩ : ∃ mrope, (s.usesMrope = true → ((List.range total).map mrope).map some =
      (items counts).map fun item => (s.requestAt item.1).map fun request =>
        MropeRequest.positionAt request (s.positionOf item)) ∧
      mropeColumns s numScheduledTokens = .ok mrope := by
    unfold mropeColumns
    by_cases uses : s.usesMrope = true
    · obtain ⟨mrope, call, columns⟩ := h.mrope uses
      exact ⟨mrope, fun _ => columns, by rw [if_pos uses, call]⟩
    · exact ⟨s.mropePositionsCpu, fun used => absurd used uses, if_neg uses⟩
  refine ⟨(List.range total).map mrope, columns, ?_⟩
  unfold prepareInputs
  rw [if_pos ⟨h.positive, rows⟩, h.looked]
  show mropeColumns s numScheduledTokens >>= _ = _
  rw [run]
  dsimp only [Bind.bind, Except.bind]
  rw [reqIndices, arange]
  simp only [List.zipWith_map, List.zipWith_self]
  rfl

theorem selectTokens_ok (fits : s.Fits counts) :
    selectTokens s ((items counts).map s.tokenIndex) = .ok ((items counts).map s.tokenOf) := by
  have read : gather (flatAt s.inputBatch.maxNumReqs s.inputBatch.maxModelLen s.inputBatch.tokenIdsCpu)
      ((items counts).map s.tokenIndex) = some ((items counts).map s.tokenOf) := by
    apply gather_map
    intro item member
    obtain ⟨inside, small, -⟩ := fits item member
    have index : s.tokenIndex item = (item.1 * s.inputBatch.maxModelLen + s.positionOf item : ℕ) := by
      unfold tokenIndex
      rw [int32_of_lt (by positivity) (by exact_mod_cast small)]
      push_cast
      ring
    rw [index]
    exact flatAt_cell _ (h.row member) inside
  unfold selectTokens
  rw [read]

end

theorem div_lt_cdiv {a b c : ℕ} (positive : 0 < c) (less : a < b) : a / c < cdiv b c := by
  unfold cdiv
  rw [Nat.div_lt_iff_lt_mul positive]
  have := Nat.lt_mul_div_succ (b + c - 1) positive
  rw [Nat.mul_add, Nat.mul_one, Nat.mul_comm] at this
  omega

theorem cdiv_le {b c : ℕ} (positive : 0 < c) (some_ : 0 < b) : cdiv b c ≤ b := by
  obtain ⟨c, rfl⟩ : ∃ d, c = d + 1 := ⟨c - 1, by omega⟩
  obtain ⟨b, rfl⟩ : ∃ d, b = d + 1 := ⟨b - 1, by omega⟩
  unfold cdiv
  apply Nat.div_le_of_le_mul
  have whole : (c + 1) * (b + 1) = c * b + c + b + 1 := by ring
  omega

theorem selectBlocks_ok (h : Scheduled s numScheduledTokens total counts) (fits : s.Fits counts) :
    selectBlocks s ((items counts).map s.blockIndex) = .ok ((items counts).map s.blockOf) := by
  have read : gather (fun i => flatAt s.inputBatch.maxNumReqs s.inputBatch.blockTable.maxNumBlocksPerReq
      s.inputBatch.blockTable.blockTableNp (if i < 0 then i + (s.inputBatch.maxNumReqs *
        s.inputBatch.blockTable.maxNumBlocksPerReq : ℤ) else i))
      ((items counts).map s.blockIndex) = some ((items counts).map s.blockOf) := by
    apply gather_map
    intro item member
    obtain ⟨inside, small, -⟩ := fits item member
    have column : s.positionOf item / s.blockSize < s.inputBatch.blockTable.maxNumBlocksPerReq := by
      rw [s.blocksPerReq]
      exact div_lt_cdiv s.blockSize_pos inside
    have narrow : s.inputBatch.blockTable.maxNumBlocksPerReq ≤ s.inputBatch.maxModelLen := by
      rw [s.blocksPerReq]
      exact cdiv_le s.blockSize_pos (by omega)
    have small' : item.1 * s.inputBatch.blockTable.maxNumBlocksPerReq < 2 ^ 31 :=
      (Nat.mul_le_mul_left _ narrow).trans_lt small
    have index : s.blockIndex item =
        (item.1 * s.inputBatch.blockTable.maxNumBlocksPerReq + s.positionOf item / s.blockSize : ℕ) := by
      unfold blockIndex
      rw [int32_of_lt (by positivity) (by exact_mod_cast small')]
      push_cast
      rfl
    have nonneg : 0 ≤ s.blockIndex item := by
      rw [index]
      exact Int.natCast_nonneg _
    show flatAt _ _ _ (if s.blockIndex item < 0 then _ else s.blockIndex item) = _
    rw [if_neg (not_lt.mpr nonneg), index]
    exact flatAt_cell _ (h.row member) column
  unfold selectBlocks
  dsimp only
  rw [read]

theorem slot_eq {item : ℕ × ℕ} (small : s.slotOf item < 2 ^ 31) :
    int32 (int32 (s.blockOf item * s.blockSize) + (s.positionOf item % s.blockSize : ℕ)) = s.slotOf item := by
  have whole : (s.slotOf item : ℤ) = s.blockOf item * s.blockSize + (s.positionOf item % s.blockSize : ℕ) := by
    unfold slotOf blockOf
    push_cast
    rfl
  have first : (s.blockOf item * s.blockSize : ℤ) < 2 ^ 31 := by omega
  rw [int32_of_lt (by positivity) first, ← whole]
  exact int32_of_lt (by omega) (by exact_mod_cast small)

theorem laidOut_of_fits (h : Scheduled s numScheduledTokens total counts) (fits : s.Fits counts) :
    ∃ prepared, prepareInputs s numScheduledTokens total = .ok prepared ∧ LaidOut s counts prepared := by
  obtain ⟨columns, mrope, equation⟩ := prepareInputs_eq h
  rw [selectTokens_ok h fits, selectBlocks_ok h fits] at equation
  refine ⟨_, equation, rfl, fun item member => (fits item member).1, rfl, ?_, mrope⟩
  show List.zipWith _ ((items counts).map s.blockOf) ((items counts).map s.positionOf) = _
  rw [List.zipWith_map, List.zipWith_self]
  apply List.map_congr_left
  intro item member
  exact slot_eq (fits item member).2.2

/-! ### What the arrays need -/

theorem Scheduled.withTokens (h : Scheduled s numScheduledTokens total counts) (tokenIdsCpu : ℕ → ℕ → TokenId) :
    Scheduled (s.withTokens tokenIdsCpu) numScheduledTokens total counts :=
  ⟨h.looked, h.rows, h.within, h.whole, h.positive, h.room, h.known⟩

theorem reads_of_laidOut {prepared : PreparedInputs} (h : Scheduled s numScheduledTokens total counts)
    (call : prepareInputs s numScheduledTokens total = .ok prepared) (laid : LaidOut s counts prepared) :
    ∀ item ∈ items counts, flatAt s.inputBatch.maxNumReqs s.inputBatch.maxModelLen s.inputBatch.tokenIdsCpu
      (s.tokenIndex item) = some (s.tokenOf item) ∧ s.slotOf item < 2 ^ 31 := by
  obtain ⟨columns, -, equation⟩ := prepareInputs_eq h
  rw [call] at equation
  unfold selectTokens at equation
  split at equation
  · rename_i tokenIds gathered
    cases blocks : selectBlocks s ((items counts).map s.blockIndex) with
    | error e =>
      rw [blocks] at equation
      cases equation
    | ok blockNumbers =>
      rw [blocks] at equation
      cases equation
      have ids : tokenIds = (items counts).map s.tokenOf := laid.inputIds
      have slots : List.zipWith _ blockNumbers ((items counts).map s.positionOf) = _ := laid.slotMapping
      subst ids
      intro item member
      refine ⟨read_of_gather gathered item member, ?_⟩
      have listed : (s.slotOf item : ℤ) ∈ (items counts).map fun item => (s.slotOf item : ℤ) :=
        List.mem_map_of_mem member
      rw [← slots] at listed
      obtain ⟨block, position, same⟩ := mem_zipWith listed
      have := int32_lt (int32 (block * s.blockSize) + (position % s.blockSize : ℕ))
      omega
  · cases equation

/-- Whatever tokens the rows hold, the step lays them out exactly if the scheduled positions lie in the rows and
the flat indices and the slots are 32-bit integers. -/
theorem laidOut_iff_fits (h : Scheduled s numScheduledTokens total counts) :
    (∀ tokenIdsCpu, ∃ prepared, prepareInputs (s.withTokens tokenIdsCpu) numScheduledTokens total = .ok prepared ∧
      LaidOut (s.withTokens tokenIdsCpu) counts prepared) ↔ s.Fits counts := by
  constructor
  · intro always item member
    -- a matrix that marks the one cell the token should come from
    obtain ⟨prepared, call, laid⟩ := always fun r c => if r = item.1 ∧ c = s.positionOf item then 1 else 0
    obtain ⟨read, slot⟩ := reads_of_laidOut (h.withTokens _) call laid item member
    have marked : (s.withTokens fun r c => if r = item.1 ∧ c = s.positionOf item then 1 else 0).tokenOf item = 1 := by
      show (if item.1 = item.1 ∧ s.positionOf item = s.positionOf item then (1 : TokenId) else 0) = 1
      simp
    rw [marked] at read
    have index := eq_of_flatAt (by decide) read
    have same : s.positionOf item + int32 (item.1 * s.inputBatch.maxModelLen) =
      (item.1 * s.inputBatch.maxModelLen + s.positionOf item : ℕ) := index
    have small := int32_lt (item.1 * s.inputBatch.maxModelLen)
    refine ⟨laid.inside item member, ?_, slot⟩
    omega
  · intro fits tokenIdsCpu
    exact laidOut_of_fits (h.withTokens tokenIdsCpu) fits

/-- Two rows of a model with M-RoPE; the first goes past its prompt. -/
def twoRows : InputPreparation where
  inputBatch := {
    maxNumReqs := 4, maxModelLen := 10, vocabSize := 100
    reqIds := [some 4, some 9]
    reqIdToIndex := (Dict.insert ∅ 4 0).insert 9 1
    numComputedTokensCpu := fun i => 2 + i
    blockTable := { maxNumBlocksPerReq := 3, blockTableNp := fun i k => 5 * i + k } }
  requests := (Dict.insert ∅ 4 ⟨3, [(0, 0, 0), (1, 1, 1), (1, 2, 1)], -1, rfl⟩).insert 9
    ⟨5, [(0, 0, 0), (1, 1, 1), (2, 2, 2), (3, 3, 3), (4, 4, 4)], 0, rfl⟩
  blockSize := 4
  maxNumTokens := 8
  usesMrope := true
  blockSize_pos := CacheConfig.four_pos
  blocksPerReq := rfl
  lenFits := by decide

theorem laidOut_iff_fits_twoRows : ∃ prepared,
    prepareInputs (twoRows.withTokens fun r c => 10 * r + c) ((Dict.insert ∅ 9 2).insert 4 3) 5 = .ok prepared ∧
      LaidOut (twoRows.withTokens fun r c => 10 * r + c) [3, 2] prepared := by
  have scheduled : Scheduled twoRows ((Dict.insert ∅ 9 2).insert 4 3) 5 [3, 2] := by
    refine ⟨rfl, rfl, by decide, rfl, by decide, by decide, fun _ i row => ?_⟩
    have cases_ : i = 0 ∨ i = 1 := by
      have : i < 2 := row
      omega
    rcases cases_ with rfl | rfl
    · exact ⟨_, rfl⟩
    · exact ⟨_, rfl⟩
  refine (laidOut_iff_fits scheduled).mpr ?_ _
  unfold Fits
  decide

/-- Three rows of a model with a context of 2^30 tokens. -/
def wideRows : InputPreparation where
  inputBatch := {
    maxNumReqs := 3, maxModelLen := 2 ^ 30, vocabSize := 100
    reqIds := [some 0, some 1, some 2]
    reqIdToIndex := ((Dict.insert ∅ 0 0).insert 1 1).insert 2 2
    blockTable := { maxNumBlocksPerReq := cdiv (2 ^ 30) 16 } }
  blockSize := 16
  maxNumTokens := 8
  blockSize_pos := Nat.succ_pos 15
  blocksPerReq := rfl
  lenFits := by decide

/-- The third row begins at an index that 32 bits hold as a negative number. -/
theorem wideRows_not_laidOut : ¬∃ prepared,
    prepareInputs wideRows (((Dict.insert ∅ 0 1).insert 1 1).insert 2 1) 3 = .ok prepared ∧
      LaidOut wideRows [1, 1, 1] prepared := by
  rintro ⟨prepared, call, -⟩
  have raised : prepareInputs wideRows (((Dict.insert ∅ 0 1).insert 1 1).insert 2 1) 3 = .error .indexError := by
    rfl
  rw [raised] at call
  cases call

end Vllm.V1.InputPreparation
