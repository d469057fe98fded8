import VllmProofs.V1.BatchCondense
import VllmProofs.V1.ModelRunner

/-!
What was last set for each request in the batch, kept apart from the rows, and that the row of the
request says it.
-/

namespace Vllm.V1
open Exec

structure Entry where
  tokenIds : ℕ → Option TokenId
  blockIds : List BlockId
  fields : RowFields

namespace Entry

/-- A request has just been added. -/
def ofState (vocabSize : ℕ) (state : CachedRequestState) : Entry where
  tokenIds j := (state.promptTokenIds ++ state.outputTokenIds)[j]?
  blockIds := state.blockIds
  fields := InputBatch.rowOf vocabSize state

def write (entry : Entry) (start : ℕ) (tokenIds : List TokenId) : Entry :=
  { entry with
    tokenIds := fun j => if start ≤ j ∧ j < start + tokenIds.length then tokenIds[j - start]? else entry.tokenIds j }

/-- The scheduler has said more about the request. -/
def update (entry : Entry) (data : CachedRequestData) (specTokenIds : List TokenId) : Entry :=
  let endTokenIndex := data.numComputedTokens + data.newTokenIds.length
  let written := (entry.write data.numComputedTokens data.newTokenIds).write endTokenIndex specTokenIds
  { tokenIds := written.tokenIds
    blockIds := entry.blockIds ++ data.newBlockIds
    fields := { entry.fields with
      numComputedTokens := data.numComputedTokens
      numTokensNoSpec := endTokenIndex
      numTokens := endTokenIndex + specTokenIds.length } }

/-- The row has as many token ids as `num_tokens` says. -/
def settle (entry : Entry) : Entry :=
  { entry with tokenIds := fun j => if j < entry.fields.numTokens then entry.tokenIds j else none }

end Entry

abbrev Ledger := RequestId → Option Entry

def Ledger.settle (ledger : Ledger) : Ledger := fun id => (ledger id).map Entry.settle

namespace InputBatch

variable {s t : InputBatch} {i j : ℕ} {id : RequestId} {request : CachedRequestState} {entry : Entry} {ledger : Ledger}

structure Shows (s : InputBatch) (i : ℕ) (entry : Entry) : Prop where
  fields : s.fields i = entry.fields
  tokenIds : ∀ j < s.maxModelLen, ∀ tokenId, entry.tokenIds j = some tokenId → s.tokenIdsCpu i j = tokenId
  numBlocks : s.blockTable.numBlocksPerRow i = entry.blockIds.length
  blocks : ∀ k < s.blockTable.maxNumBlocksPerReq, ∀ b, entry.blockIds[k]? = some b →
    s.blockTable.blockTableNp i k = b

theorem Shows.carry (shows : Shows s i entry) (sizes : SameSizes s t) (same : SameRow s i t j) : Shows t j entry := by
  constructor
  · exact same.fields.trans shows.fields
  · rw [sizes.maxModelLen, same.tokenIds]
    exact shows.tokenIds
  · exact same.numBlocks.trans shows.numBlocks
  · rw [sizes.maxNumBlocksPerReq, same.blocks]
    exact shows.blocks

/-- Token ids beyond `num_tokens` are not carried. -/
theorem Shows.move (shows : Shows s i entry.settle) (sizes : SameSizes s t) (same : MovedRow s i t j) :
    Shows t j entry.settle := by
  have numTokens : s.numTokens i = entry.fields.numTokens := congrArg RowFields.numTokens shows.fields
  constructor
  · exact same.fields.trans shows.fields
  · intro k inside tokenId set
    rw [sizes.maxModelLen] at inside
    rw [same.tokenIds k]
    · exact shows.tokenIds k inside tokenId set
    · by_contra high
      unfold Entry.settle at set
      rw [numTokens] at high
      dsimp only at set
      rw [if_neg high] at set
      cases set
  · exact same.numBlocks.trans shows.numBlocks
  · intro k inside b set
    rw [sizes.maxNumBlocksPerReq] at inside
    rw [same.blocks k]
    · exact shows.blocks k inside b set
    · rw [shows.numBlocks]
      exact (List.getElem?_eq_some_iff.mp set).1

theorem Shows.settle (shows : Shows s i entry) : Shows s i entry.settle := by
  refine ⟨shows.fields, ?_, shows.numBlocks, shows.blocks⟩
  intro j inside tokenId set
  unfold Entry.settle at set
  dsimp only at set
  split at set
  · exact shows.tokenIds j inside tokenId set
  · cases set

theorem shows_added (clean : s.Clean i) : Shows (s.added i request) i (Entry.ofState s.vocabSize request) := by
  have sizes := sameSizes_added i request s
  obtain ⟨generator, minTokens, -⟩ := clean
  have tokens : (s.added i request).tokenIdsCpu i = overwrite s.maxModelLen
      (overwrite s.maxModelLen (s.tokenIdsCpu i) 0 request.promptTokenIds) request.promptTokenIds.length
      request.outputTokenIds := by
    unfold added
    rw [setLora_eq, setConstraints_eq]
    exact Function.update_self _ _ _
  constructor
  · exact fields_added generator minTokens
  · intro j inside tokenId set
    rw [sizes.maxModelLen] at inside
    have listed : (request.promptTokenIds ++ request.outputTokenIds)[j]? = some tokenId := set
    rw [tokens]
    rcases Nat.lt_or_ge j request.promptTokenIds.length with prompt | output
    · rw [List.getElem?_append_left prompt] at listed
      rw [overwrite_before prompt, overwrite_inside (Nat.zero_le _) inside (by omega)]
      exact (List.getElem?_eq_some_iff.mp listed).2
    · rw [List.getElem?_append_right output] at listed
      obtain ⟨less, same⟩ := List.getElem?_eq_some_iff.mp listed
      rw [overwrite_inside output inside less]
      exact same
  · unfold added
    rw [setLora_eq, setConstraints_eq]
    exact Function.update_self _ _ _
  · intro k inside b set
    rw [sizes.maxNumBlocksPerReq] at inside
    have blocks : (s.added i request).blockTable.blockTableNp i =
        overwrite s.blockTable.maxNumBlocksPerReq (s.blockTable.blockTableNp i) 0 request.blockIds := by
      unfold added
      rw [setLora_eq, setConstraints_eq]
      exact Function.update_self _ _ _
    have listed : request.blockIds[k]? = some b := set
    obtain ⟨less, same⟩ := List.getElem?_eq_some_iff.mp listed
    rw [blocks, overwrite_inside (Nat.zero_le _) inside less]
    exact same

theorem agrees_write {width start : ℕ} {row : ℕ → TokenId} {tokenIds : ℕ → Option TokenId} {xs : List TokenId}
    (agrees : ∀ j < width, ∀ tokenId, tokenIds j = some tokenId → row j = tokenId) :
    ∀ j < width, ∀ tokenId, (if start ≤ j ∧ j < start + xs.length then xs[j - start]? else tokenIds j) = some tokenId →
      overwrite width row start xs j = tokenId := by
  intro j inside tokenId set
  split at set
  · rename_i written
    obtain ⟨less, same⟩ := List.getElem?_eq_some_iff.mp set
    rw [overwrite_inside written.1 inside less]
    exact same
  · rename_i other
    rw [← agrees j inside tokenId set]
    rcases Nat.lt_or_ge j start with before | from_
    · exact overwrite_before before
    · exact overwrite_after (by omega)

def rowUpdated (i : ℕ) (data : CachedRequestData) (specTokenIds : List TokenId) (s : InputBatch) : InputBatch :=
  let endTokenIndex := data.numComputedTokens + data.newTokenIds.length
  { s with
    numComputedTokensCpu := Function.update s.numComputedTokensCpu i data.numComputedTokens
    blockTable := s.blockTable.appended data.newBlockIds i
    tokenIdsCpu := Function.update s.tokenIdsCpu i
      (overwrite s.maxModelLen (overwrite s.maxModelLen (s.tokenIdsCpu i) data.numComputedTokens data.newTokenIds)
        endTokenIndex specTokenIds)
    numTokensNoSpec := Function.update s.numTokensNoSpec i endTokenIndex
    numTokens := Function.update s.numTokens i (endTokenIndex + specTokenIds.length) }

variable {data : CachedRequestData} {specTokenIds : List TokenId}

theorem updateRow_ok {u : Unit}
    (call : updateRow i data specTokenIds s = .ok u t) : t = s.rowUpdated i data specTokenIds := by
  unfold updateRow at call
  rw [modify_bind] at call
  obtain ⟨_, _, blocks, call⟩ := bind_ok call
  obtain ⟨table, tabled, rfl⟩ := zoom_ok blocks
  rw [BlockTable.appendRow_ok tabled] at call
  dsimp only at call
  obtain ⟨_, _, new, call⟩ := bind_ok call
  rw [writeTokenIds_ok new, modify_bind] at call
  obtain ⟨_, _, drafts, call⟩ := bind_ok call
  rw [writeTokenIds_ok drafts] at call
  cases call
  unfold rowUpdated
  dsimp only
  rw [Function.update_self, Function.update_idem]

theorem shows_rowUpdated (shows : Shows s i entry) :
    Shows (s.rowUpdated i data specTokenIds) i (entry.update data specTokenIds) := by
  obtain ⟨fields, tokenIds, numBlocks, blocks⟩ := shows
  constructor
  · have others := fields.symm
    unfold Entry.update
    dsimp only
    rw [others]
    apply RowFields.ext
    case numComputedTokens | numTokensNoSpec | numTokens => exact Function.update_self _ _ _
    all_goals rfl
  · have row : (s.rowUpdated i data specTokenIds).tokenIdsCpu i = overwrite s.maxModelLen
        (overwrite s.maxModelLen (s.tokenIdsCpu i) data.numComputedTokens data.newTokenIds)
        (data.numComputedTokens + data.newTokenIds.length) specTokenIds := Function.update_self _ _ _
    rw [row]
    exact agrees_write (agrees_write tokenIds)
  · show Function.update s.blockTable.numBlocksPerRow i _ i = (entry.blockIds ++ data.newBlockIds).length
    rw [Function.update_self, numBlocks, List.length_append]
  · intro k inside b set
    have row : (s.rowUpdated i data specTokenIds).blockTable.blockTableNp i = overwrite
        s.blockTable.maxNumBlocksPerReq (s.blockTable.blockTableNp i) (s.blockTable.numBlocksPerRow i)
        data.newBlockIds := Function.update_self _ _ _
    have listed : (entry.blockIds ++ data.newBlockIds)[k]? = some b := set
    change k < s.blockTable.maxNumBlocksPerReq at inside
    rw [row, numBlocks]
    rcases Nat.lt_or_ge k entry.blockIds.length with old | new
    · rw [List.getElem?_append_left old] at listed
      rw [overwrite_before old]
      exact blocks k inside b listed
    · rw [List.getElem?_append_right new] at listed
      obtain ⟨less, same⟩ := List.getElem?_eq_some_iff.mp listed
      rw [overwrite_inside new inside less]
      exact same

theorem sameRow_rowUpdated (other : j ≠ i) : SameRow s j (s.rowUpdated i data specTokenIds) j := by
  constructor
  · apply RowFields.ext
    case numComputedTokens | numTokensNoSpec | numTokens => exact Function.update_of_ne other _ _
    all_goals rfl
  all_goals exact Function.update_of_ne other _ _

/-- The ledger has what was last set for each live request, and the row of the request says it. -/
def Tracks (s : InputBatch) (ledger : Ledger) : Prop :=
  ∀ id i, s.reqIdToIndex.get? id = some i → ∃ entry, ledger id = some entry ∧ Shows s i entry

theorem rows_apart {id' : RequestId} (index : ∀ id i, s.reqIdToIndex.get? id = some i ↔ s.reqIds[i]? = some (some id))
    (found : s.reqIdToIndex.get? id = some i) (found' : s.reqIdToIndex.get? id' = some j) (other : id' ≠ id) : j ≠ i := by
  rintro rfl
  rw [index] at found found'
  rw [found, Option.some.injEq, Option.some.injEq] at found'
  exact other found'.symm

variable {holes : List ℕ}

section
variable (tracks : Tracks s ledger)
include tracks

theorem Tracks.remove {loras : Dict ℕ (Finset RequestId)} (occupied : Occupied s holes)
    (found : s.reqIdToIndex.get? id = some i) : Tracks (s.removed i id loras) ledger := by
  intro id' j found'
  have index : (s.removed i id loras).reqIdToIndex = s.reqIdToIndex.erase id := rfl
  rw [index, Dict.get?_erase] at found'
  split at found'
  · cases found'
  · rename_i other
    obtain ⟨entry, listed, shows⟩ := tracks id' j found'
    have apart := rows_apart occupied.index found found' other
    exact ⟨entry, listed, shows.carry ⟨rfl, rfl, rfl, rfl⟩ (sameRow_removed apart)⟩

theorem Tracks.add (occupied : Occupied s holes)
    (vacant : ∀ id, s.reqIds[i]? ≠ some (some id)) : Tracks (s.added i request)
      (Function.update ledger request.reqId (some (Entry.ofState s.vocabSize request))) := by
  intro id' j found'
  rw [added_reqIdToIndex, Dict.get?_insert] at found'
  rw [Function.update_apply]
  split at found'
  · rename_i mine
    cases found'
    rw [if_pos mine]
    exact ⟨_, rfl, shows_added (occupied.clean i vacant)⟩
  · rename_i other
    rw [if_neg other]
    obtain ⟨entry, listed, shows⟩ := tracks id' j found'
    refine ⟨entry, listed, shows.carry (sameSizes_added i request s) (sameRow_added ?_)⟩
    rintro rfl
    exact vacant id' ((occupied.index id' j).mp found')

theorem Tracks.updateRow (occupied : Occupied s holes) (found : s.reqIdToIndex.get? id = some i) :
    Tracks (s.rowUpdated i data specTokenIds)
      (Function.update ledger id ((ledger id).map fun entry => entry.update data specTokenIds)) := by
  intro id' j found'
  change s.reqIdToIndex.get? id' = some j at found'
  obtain ⟨entry, listed, shows⟩ := tracks id' j found'
  by_cases mine : id' = id
  · rw [mine, found, Option.some.injEq] at found'
    rw [mine] at listed
    rw [mine, Function.update_self, listed, ← found']
    rw [← found'] at shows
    exact ⟨_, rfl, shows_rowUpdated shows⟩
  · rw [Function.update_of_ne mine]
    have apart := rows_apart occupied.index found found' mine
    exact ⟨entry, listed, shows.carry ⟨rfl, rfl, rfl, rfl⟩ (sameRow_rowUpdated apart)⟩

theorem Tracks.swap {i1 i2 : ℕ} {id1 id2 : RequestId} (occupied : Occupied s [])
    (first : s.reqIds[i1]? = some (some id1)) (second : s.reqIds[i2]? = some (some id2)) :
    Tracks (s.swapped i1 i2 id1 id2) ledger := by
  have found1 := (occupied.index id1 i1).mpr first
  have found2 := (occupied.index id2 i2).mpr second
  have index : (s.swapped i1 i2 id1 id2).reqIdToIndex = (s.reqIdToIndex.insert id1 i2).insert id2 i1 := rfl
  have sizes : SameSizes s (s.swapped i1 i2 id1 id2) := ⟨rfl, rfl, rfl, rfl⟩
  intro id j found
  rw [index, Dict.get?_insert, Dict.get?_insert] at found
  split at found
  · rename_i mine
    cases found
    obtain ⟨entry, listed, shows⟩ := tracks id2 i2 found2
    rw [mine]
    exact ⟨entry, listed, shows.carry sizes (sameRow_swap_left i1 i2 id1 id2 s)⟩
  · split at found
    · rename_i mine
      cases found
      obtain ⟨entry, listed, shows⟩ := tracks id1 i1 found1
      rw [mine]
      exact ⟨entry, listed, shows.carry sizes (sameRow_swap_right i1 i2 id1 id2 s)⟩
    · rename_i other2 other1
      obtain ⟨entry, listed, shows⟩ := tracks id j found
      have apart1 := rows_apart occupied.index found1 found other1
      have apart2 := rows_apart occupied.index found2 found other2
      exact ⟨entry, listed, shows.carry sizes (sameRow_swap_other apart1 apart2)⟩

theorem Tracks.settle : Tracks s ledger.settle := by
  intro id i found
  obtain ⟨entry, listed, shows⟩ := tracks id i found
  exact ⟨entry.settle, congrArg (Option.map Entry.settle) listed, shows.settle⟩

end

theorem Tracks.move {last empty : ℕ} (tracks : Tracks s ledger.settle)
    (movable : Movable s last empty id) : Tracks (s.moved last empty id) ledger.settle := by
  obtain ⟨index, clean, -, wasEmpty, at_, -⟩ := movable
  have found := (index id last).mpr at_
  have same : (s.moved last empty id).reqIdToIndex = s.reqIdToIndex.insert id empty := rfl
  have sizes : SameSizes s (s.moved last empty id) := ⟨rfl, rfl, rfl, rfl⟩
  intro id' j found'
  rw [same, Dict.get?_insert] at found'
  split at found'
  · rename_i mine
    cases found'
    obtain ⟨entry, listed, shows⟩ := tracks id last found
    obtain ⟨entry, was, rfl⟩ := Option.map_eq_some_iff.mp listed
    rw [mine]
    have row : MovedRow s last (s.moved last empty id) empty := movedRow_move clean
    exact ⟨_, listed, shows.move sizes row⟩
  · rename_i other
    obtain ⟨entry, listed, shows⟩ := tracks id' j found'
    have apart := rows_apart index found found' other
    have filled : j ≠ empty := by
      rintro rfl
      rw [index, wasEmpty] at found'
      cases found'
    have row : SameRow s j (s.moved last empty id) j := sameRow_move_other apart filled
    exact ⟨entry, listed, shows.carry sizes row⟩

end InputBatch
end Vllm.V1
