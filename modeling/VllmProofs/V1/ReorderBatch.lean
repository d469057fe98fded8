import VllmProofs.V1.RowConstraints

/-!
`MLACommonMetadataBuilder.reorder_batch`, `vllm/v1/attention/backends/mla/common.py`: the rows of requests that
are scheduled for one token are brought to the front of the batch, and what that leaves of each request.
-/

namespace Vllm.V1
open Exec

structure MLACommonMetadataBuilder where
  numDecodes : ℕ
  numPrefills : ℕ
  numDecodeTokens : ℕ
  numPrefillTokens : ℕ

structure DividedRows where
  decodes : List ℕ := []
  prefills : List ℕ := []
  numDecodeTokens : ℕ := 0
  numPrefillTokens : ℕ := 0

structure ReorderedBatch where
  builder : MLACommonMetadataBuilder
  modifiedBatch : Bool
  /-- The calls of `swap_states`. -/
  swaps : List (ℕ × ℕ)

namespace InputBatch

/-- `for i, req_id in enumerate(input_batch.req_ids)`, from row `i` on; there may be a `KeyError`. -/
def divideRows (out : SchedulerOutput) : ℕ → List (Option RequestId) → DividedRows → Option DividedRows
  | _, [], rows => some rows
  | i, reqId :: rest, rows => do
    let numTokens ← reqId.bind out.numScheduledTokens.get?
    if numTokens = 1 then
      divideRows out (i + 1) rest
        { rows with decodes := rows.decodes ++ [i], numDecodeTokens := rows.numDecodeTokens + numTokens }
    else
      divideRows out (i + 1) rest
        { rows with prefills := rows.prefills ++ [i], numPrefillTokens := rows.numPrefillTokens + numTokens }

/-- The second loop, for the prefills from the front and the decodes from the back. -/
def swapLoop (numDecodes : ℕ) : List (ℕ × ℕ) → Call InputBatch (List (ℕ × ℕ))
  | [] => pure []
  | (prefill, decode) :: rest =>
    if numDecodes ≤ decode then do
      swapStates prefill decode
      let swaps ← swapLoop numDecodes rest
      return (prefill, decode) :: swaps
    else pure []

def reorderBatch (out : SchedulerOutput) : Call InputBatch ReorderedBatch := do
  let s ← get
  let rows ← getItem .keyError (divideRows out 0 s.reqIds {})
  let swaps ← swapLoop rows.decodes.length (rows.prefills.zip rows.decodes.reverse)
  return {
    builder := {
      numDecodes := rows.decodes.length
      numPrefills := rows.prefills.length
      numDecodeTokens := rows.numDecodeTokens
      numPrefillTokens := rows.numPrefillTokens }
    modifiedBatch := !swaps.isEmpty
    swaps }

/-! ### The rows that are swapped -/

section
variable {p : ℕ → Bool} {n k : ℕ}

theorem range_split (within : k ≤ n) : List.range n = List.range k ++ List.range' k (n - k) := by
  have whole := @List.range'_append_1 0 k (n - k)
  rw [Nat.zero_add, Nat.add_sub_cancel' within] at whole
  rw [List.range_eq_range', List.range_eq_range', whole]

/-- When `k` of the first `n` are marked, as many of the first `k` are not as are marked after them. -/
theorem early_eq_late (count : ((List.range n).filter p).length = k) :
    ((List.range k).filter fun i => !p i).length = ((List.range' k (n - k)).filter p).length := by
  have within : k ≤ n := by
    rw [← count]
    exact (List.length_filter_le _ _).trans_eq List.length_range
  rw [range_split within, List.filter_append, List.length_append] at count
  have all := List.length_eq_length_filter_add (l := List.range k) p
  rw [List.length_range] at all
  omega

/-- The pairs that are swapped: those of the first rows that are not marked, and those behind that are. -/
theorem takeWhile_swaps (count : ((List.range n).filter p).length = k) :
    ((((List.range n).filter fun i => !p i).zip ((List.range n).filter p).reverse).takeWhile fun x => k ≤ x.2) =
      ((List.range k).filter fun i => !p i).zip ((List.range' k (n - k)).filter p).reverse := by
  have within : k ≤ n := by
    rw [← count]
    exact (List.length_filter_le _ _).trans_eq List.length_range
  have same := early_eq_late count
  rw [range_split within, List.filter_append, List.filter_append, List.reverse_append,
    List.zip_append (by rw [List.length_reverse, same])]
  rw [List.takeWhile_append_of_pos]
  · have none : (((List.range' k (n - k)).filter fun i => !p i).zip ((List.range k).filter p).reverse).takeWhile
        (fun x => k ≤ x.2) = [] := by
      cases rest : ((List.range' k (n - k)).filter fun i => !p i).zip ((List.range k).filter p).reverse with
      | nil => rfl
      | cons x rest_ =>
        have member : x ∈ ((List.range' k (n - k)).filter fun i => !p i).zip ((List.range k).filter p).reverse := by
          rw [rest]
          exact List.mem_cons_self
        have early := List.mem_filter.mp (List.mem_reverse.mp (List.of_mem_zip member).2)
        have less := List.mem_range.mp early.1
        rw [List.takeWhile_cons_of_neg]
        simpa using less
    rw [none, List.append_nil]
  · intro x member
    have late := List.mem_filter.mp (List.mem_reverse.mp (List.of_mem_zip member).2)
    exact decide_eq_true (List.mem_range'_1.mp late.1).1

theorem exists_partner {xs ys : List ℕ} (same : xs.length = ys.length) :
    (∀ x ∈ xs, ∃ y, (x, y) ∈ xs.zip ys) ∧ ∀ y ∈ ys, ∃ x, (x, y) ∈ xs.zip ys := by
  constructor
  · intro x member
    rw [← @List.map_fst_zip _ _ xs ys same.le] at member
    obtain ⟨⟨x', y⟩, both, rfl⟩ := List.mem_map.mp member
    exact ⟨y, both⟩
  · intro y member
    rw [← @List.map_snd_zip _ _ xs ys same.ge] at member
    obtain ⟨⟨x, y'⟩, both, rfl⟩ := List.mem_map.mp member
    exact ⟨x, both⟩

end

/-! ### Swaps, one after the other -/

structure RequestMarks where
  greedy : Prop
  random : Prop
  topP : Prop
  topK : Prop
  minP : Prop
  frequencyPenalties : Prop
  presencePenalties : Prop
  repetitionPenalties : Prop
  allowedTokenIds : Prop
  numLogprobs : Option ℕ
  numPromptLogprobs : Option ℕ
  loras : ℕ → Prop

variable {s t u : InputBatch} {i j k : ℕ} {pairs : List (ℕ × ℕ)} {out : SchedulerOutput}

def marks (s : InputBatch) (id : RequestId) : RequestMarks where
  greedy := id ∈ s.greedyReqs
  random := id ∈ s.randomReqs
  topP := id ∈ s.topPReqs
  topK := id ∈ s.topKReqs
  minP := id ∈ s.minPReqs
  frequencyPenalties := id ∈ s.frequencyPenaltiesReqs
  presencePenalties := id ∈ s.presencePenaltiesReqs
  repetitionPenalties := id ∈ s.repetitionPenaltiesReqs
  allowedTokenIds := id ∈ s.hasAllowedTokenIds
  numLogprobs := s.numLogprobs.get? id
  numPromptLogprobs := s.numPromptLogprobs.get? id
  loras loraId := id ∈ (s.loraIdToRequestIds.get? loraId).getD ∅

structure Carried (s : InputBatch) (i : ℕ) (t : InputBatch) (j : ℕ) : Prop where
  reqId : t.reqIds[j]? = s.reqIds[i]?
  row : SameRow s i t j
  logitBias : t.logitBias j = s.logitBias i

theorem Carried.trans (first : Carried s i t j) (second : Carried t j u k) : Carried s i u k where
  reqId := second.reqId.trans first.reqId
  row := {
    fields := second.row.fields.trans first.row.fields
    tokenIds := second.row.tokenIds.trans first.row.tokenIds
    numBlocks := second.row.numBlocks.trans first.row.numBlocks
    blocks := second.row.blocks.trans first.row.blocks }
  logitBias := second.logitBias.trans first.logitBias

structure Swapped (s t : InputBatch) (pairs : List (ℕ × ℕ)) : Prop where
  occupied : Occupied t []
  perm : t.reqIds.Perm s.reqIds
  front : ∀ x ∈ pairs, Carried s x.2 t x.1 ∧ t.maskAt x.1 = s.maskAt x.2
  back : ∀ x ∈ pairs, Carried s x.1 t x.2 ∧ t.maskAt x.2 = s.maskAt x.2
  other : ∀ i, (∀ x ∈ pairs, i ≠ x.1 ∧ i ≠ x.2) → Carried s i t i ∧ t.maskAt i = s.maskAt i
  marks : t.marks = s.marks

theorem carried_refl (s : InputBatch) (i : ℕ) : Carried s i s i := ⟨rfl, ⟨rfl, rfl, rfl, rfl⟩, rfl⟩

theorem swapped_nil (occupied : Occupied s []) : Swapped s s [] :=
  ⟨occupied, List.Perm.refl _, nofun, nofun, fun i _ => ⟨carried_refl s i, rfl⟩, rfl⟩

variable {i1 i2 : ℕ} {id1 id2 : RequestId}

theorem maskAt_swapped (j : ℕ) :
    (s.swapped i1 i2 id1 id2).maskAt j = if j = i1 then s.maskAt i2 else s.maskAt j := by
  unfold maskAt
  show (s.allowedTokenIdsMaskCpuTensor.map fun mask =>
    Function.update (Function.update mask i1 (mask i2)) i2 (mask i2)).getD (fun _ _ => false) j = _
  cases s.allowedTokenIdsMaskCpuTensor with
  | none =>
    split
    · rfl
    · rfl
  | some mask =>
    rw [Option.map_some, Option.getD_some, Option.getD_some, Function.update_apply, Function.update_apply]
    split
    · rename_i last
      rw [last, ite_self]
    · rfl

theorem reqIds_swapped (first : s.reqIds[i1]? = some (some id1))
    (second : s.reqIds[i2]? = some (some id2)) (j : ℕ) : (s.swapped i1 i2 id1 id2).reqIds[j]? =
      if j = i2 then s.reqIds[i1]? else if j = i1 then s.reqIds[i2]? else s.reqIds[j]? := by
  have inside1 := (List.getElem?_eq_some_iff.mp first).1
  have inside2 := (List.getElem?_eq_some_iff.mp second).1
  show ((s.reqIds.set i1 (some id2)).set i2 (some id1))[j]? = _
  rw [List.getElem?_set, List.getElem?_set, List.length_set, if_pos inside2, if_pos inside1, first, second]
  simp only [eq_comm]

theorem swapped_one (occupied : Occupied s []) (apart : i1 ≠ i2)
    (first : s.reqIds[i1]? = some (some id1)) (second : s.reqIds[i2]? = some (some id2)) :
    Swapped s (s.swapped i1 i2 id1 id2) [(i1, i2)] := by
  constructor
  · exact occupied.swap first second
  · obtain ⟨inside1, row1⟩ := List.getElem?_eq_some_iff.mp first
    obtain ⟨inside2, row2⟩ := List.getElem?_eq_some_iff.mp second
    show ((s.reqIds.set i1 (some id2)).set i2 (some id1)).Perm s.reqIds
    rw [← row1, ← row2]
    exact List.set_set_perm inside1 inside2
  · intro x member
    rw [List.mem_singleton.mp member]
    refine ⟨⟨?_, sameRow_swap_left i1 i2 id1 id2 s, swapAt_left⟩, ?_⟩
    · rw [reqIds_swapped first second, if_neg apart, if_pos rfl]
    · rw [maskAt_swapped, if_pos rfl]
  · intro x member
    rw [List.mem_singleton.mp member]
    refine ⟨⟨?_, sameRow_swap_right i1 i2 id1 id2 s, swapAt_right⟩, ?_⟩
    · rw [reqIds_swapped first second, if_pos rfl]
    · rw [maskAt_swapped, if_neg apart.symm]
  · intro i outside
    obtain ⟨left, right⟩ := outside (i1, i2) List.mem_cons_self
    refine ⟨⟨?_, sameRow_swap_other left right, swapAt_other left right⟩, ?_⟩
    · rw [reqIds_swapped first second, if_neg right, if_neg left]
    · rw [maskAt_swapped, if_neg left]
  · rfl

theorem Swapped.cons {x : ℕ × ℕ} (one : Swapped s t [x]) (rest : Swapped t u pairs)
    (apart : ∀ y ∈ pairs, (x.1 ≠ y.1 ∧ x.1 ≠ y.2) ∧ x.2 ≠ y.1 ∧ x.2 ≠ y.2) : Swapped s u (x :: pairs) := by
  obtain ⟨front, frontMask⟩ := one.front x List.mem_cons_self
  obtain ⟨back, backMask⟩ := one.back x List.mem_cons_self
  have keeps : ∀ i, i ≠ x.1 → i ≠ x.2 → Carried s i t i ∧ t.maskAt i = s.maskAt i := by
    intro i left right
    apply one.other i
    intro y member
    rw [List.mem_singleton.mp member]
    exact ⟨left, right⟩
  have early := rest.other x.1 fun y member => (apart y member).1
  have late := rest.other x.2 fun y member => (apart y member).2
  constructor
  · exact rest.occupied
  · exact rest.perm.trans one.perm
  · intro y member
    rcases List.mem_cons.mp member with rfl | member
    · exact ⟨front.trans early.1, early.2.trans frontMask⟩
    · obtain ⟨carried, mask⟩ := rest.front y member
      obtain ⟨before, maskBefore⟩ := keeps y.2 (apart y member).1.2.symm (apart y member).2.2.symm
      exact ⟨before.trans carried, mask.trans maskBefore⟩
  · intro y member
    rcases List.mem_cons.mp member with rfl | member
    · exact ⟨back.trans late.1, late.2.trans backMask⟩
    · obtain ⟨carried, mask⟩ := rest.back y member
      have before := (keeps y.1 (apart y member).1.1.symm (apart y member).2.1.symm).1
      have maskBefore := (keeps y.2 (apart y member).1.2.symm (apart y member).2.2.symm).2
      exact ⟨before.trans carried, mask.trans maskBefore⟩
  · intro i outside
    obtain ⟨before, maskBefore⟩ := keeps i (outside x List.mem_cons_self).1 (outside x List.mem_cons_self).2
    obtain ⟨after, maskAfter⟩ := rest.other i fun y member => outside y (List.mem_cons_of_mem _ member)
    exact ⟨before.trans after, maskAfter.trans maskBefore⟩
  · exact rest.marks.trans one.marks

theorem swapStates_of_rows (first : s.reqIds[i1]? = some (some id1))
    (second : s.reqIds[i2]? = some (some id2)) : swapStates i1 i2 s = .ok () (s.swapped i1 i2 id1 id2) := by
  unfold swapStates
  rw [get_bind, first, second]
  rfl

/-- The loop swaps the pairs up to the first that needs no swap. -/
theorem swapLoop_swapped {numDecodes : ℕ} (occupied : Occupied s [])
    (rows : ∀ x ∈ pairs.takeWhile (fun x => numDecodes ≤ x.2), x.1 < numDecodes ∧ x.2 < s.reqIds.length)
    (distinct : (pairs.takeWhile fun x => numDecodes ≤ x.2).Pairwise fun x y => x.1 ≠ y.1 ∧ x.2 ≠ y.2) :
    ∃ t, swapLoop numDecodes pairs s = .ok (pairs.takeWhile fun x => numDecodes ≤ x.2) t ∧
      Swapped s t (pairs.takeWhile fun x => numDecodes ≤ x.2) := by
  induction pairs generalizing s with
  | nil => exact ⟨s, rfl, swapped_nil occupied⟩
  | cons x rest ih =>
    obtain ⟨prefill, decode⟩ := x
    unfold swapLoop
    rcases Nat.lt_or_ge decode numDecodes with less | late
    · have stops : ((prefill, decode) :: rest).takeWhile (fun x => numDecodes ≤ x.2) = [] :=
        List.takeWhile_cons_of_neg (by simpa using less)
      rw [if_neg (Nat.not_le.mpr less), stops]
      exact ⟨s, rfl, swapped_nil occupied⟩
    · have goesOn : ((prefill, decode) :: rest).takeWhile (fun x => numDecodes ≤ x.2) =
          (prefill, decode) :: rest.takeWhile fun x => numDecodes ≤ x.2 :=
        List.takeWhile_cons_of_pos (by simpa using late)
      rw [goesOn] at rows distinct ⊢
      obtain ⟨early, inside⟩ := rows _ List.mem_cons_self
      obtain ⟨first, later⟩ := List.pairwise_cons.mp distinct
      obtain ⟨id1, row1⟩ := isLive_iff.mp ((occupied.live_or_empty (by omega)).mpr (List.not_mem_nil (a := prefill)))
      obtain ⟨id2, row2⟩ := isLive_iff.mp ((occupied.live_or_empty inside).mpr (List.not_mem_nil (a := decode)))
      have one := swapped_one occupied (by omega) row1 row2
      obtain ⟨t, call, swapped⟩ := ih one.occupied (fun x member => by
        rw [one.perm.length_eq]
        exact rows x (List.mem_cons_of_mem _ member)) later
      refine ⟨t, ?_, one.cons swapped ?_⟩
      · rw [if_pos late, bind_of_ok (swapStates_of_rows row1 row2), bind_of_ok call]
        rfl
      · intro y member
        have behind : numDecodes ≤ y.2 := by simpa using List.mem_takeWhile_imp member
        have before := (rows y (List.mem_cons_of_mem _ member)).1
        have apart := first y member
        refine ⟨⟨apart.1, ?_⟩, ?_, apart.2⟩
        · dsimp only
          omega
        · dsimp only
          omega

/-! ### The order -/

def tokensAt (out : SchedulerOutput) (s : InputBatch) (i : ℕ) : ℕ :=
  (s.reqIds[i]?.join.bind out.numScheduledTokens.get?).getD 0

/-- The rows of requests that are scheduled for one token. -/
def isDecode (out : SchedulerOutput) (s : InputBatch) (i : ℕ) : Bool := tokensAt out s i = 1

def Scheduled (out : SchedulerOutput) (s : InputBatch) : Prop :=
  ∀ id i, s.reqIdToIndex.get? id = some i → (out.numScheduledTokens.get? id).isSome

theorem divideRows_drop (occupied : Occupied s []) (scheduled : Scheduled out s) {m : ℕ}
    (length : i + m = s.reqIds.length) (rows : DividedRows) :
    divideRows out i (s.reqIds.drop i) rows = some {
      decodes := rows.decodes ++ (List.range' i m).filter (isDecode out s)
      prefills := rows.prefills ++ (List.range' i m).filter fun i => !isDecode out s i
      numDecodeTokens := rows.numDecodeTokens + (((List.range' i m).filter (isDecode out s)).map (tokensAt out s)).sum
      numPrefillTokens := rows.numPrefillTokens +
        (((List.range' i m).filter fun i => !isDecode out s i).map (tokensAt out s)).sum } := by
  induction m generalizing i rows with
  | zero =>
    rw [List.drop_eq_nil_of_le (by omega)]
    simp [divideRows]
  | succ m ih =>
    have inside : i < s.reqIds.length := by omega
    obtain ⟨id, row⟩ := isLive_iff.mp ((occupied.live_or_empty inside).mpr (List.not_mem_nil (a := i)))
    obtain ⟨numTokens, known⟩ := Option.isSome_iff_exists.mp (scheduled id i ((occupied.index id i).mpr row))
    have here : tokensAt out s i = numTokens := by
      unfold tokensAt
      rw [row, Option.join_some, Option.bind_some, known]
      rfl
    have cons : s.reqIds.drop i = some id :: s.reqIds.drop (i + 1) := by
      rw [List.drop_eq_getElem_cons inside]
      rw [List.getElem?_eq_getElem inside, Option.some.injEq] at row
      rw [row]
    rw [cons, List.range'_succ]
    unfold divideRows
    rw [Option.bind_some, known]
    dsimp only [Option.bind_eq_bind, Option.bind_some]
    by_cases single : numTokens = 1
    · have decode : isDecode out s i = true := decide_eq_true (here.trans single)
      rw [if_pos single, ih (by omega), List.filter_cons_of_pos decode, List.filter_cons_of_neg (by simp [decode]),
        List.map_cons, List.sum_cons, here]
      simp only [List.append_assoc, List.singleton_append, Nat.add_assoc]
    · have prefill : isDecode out s i = false := decide_eq_false fun same => single (here.symm.trans same)
      rw [if_neg single, ih (by omega), List.filter_cons_of_neg (by simp [prefill]),
        List.filter_cons_of_pos (by simp [prefill]), List.map_cons, List.sum_cons, here]
      simp only [List.append_assoc, List.singleton_append, Nat.add_assoc]

/-- How many rows are of requests that are scheduled for one token. -/
def numDecodes (out : SchedulerOutput) (s : InputBatch) : ℕ :=
  ((List.range s.reqIds.length).filter (isDecode out s)).length

/-- The rows of such requests that are not among the first. -/
def lateDecodes (out : SchedulerOutput) (s : InputBatch) : List ℕ :=
  (List.range' (numDecodes out s) (s.reqIds.length - numDecodes out s)).filter (isDecode out s)

/-- The other rows that are among the first. -/
def earlyPrefills (out : SchedulerOutput) (s : InputBatch) : List ℕ :=
  (List.range (numDecodes out s)).filter fun i => !isDecode out s i

/-- The order of the batch, as few swaps as it takes, and the counts that are saved. -/
structure FrontLoaded (out : SchedulerOutput) (s t : InputBatch) (r : ReorderedBatch) : Prop where
  decodesFirst : ∀ i < t.reqIds.length, isDecode out t i = true ↔ i < r.builder.numDecodes
  perm : t.reqIds.Perm s.reqIds
  swaps : r.swaps.length = (lateDecodes out s).length
  modified : r.modifiedBatch = true ↔ r.swaps ≠ []
  total : r.builder.numDecodes + r.builder.numPrefills = t.reqIds.length
  numDecodeTokens : r.builder.numDecodeTokens = ((List.range r.builder.numDecodes).map (tokensAt out t)).sum
  numPrefillTokens : r.builder.numPrefillTokens =
    ((List.range' r.builder.numDecodes r.builder.numPrefills).map (tokensAt out t)).sum

/-- Every request has the same data as before, wherever its row is now. -/
def Keeps (s t : InputBatch) : Prop :=
  ∀ id i, s.reqIdToIndex.get? id = some i → ∃ j, t.reqIdToIndex.get? id = some j ∧ SameRow s i t j ∧
    t.logitBias j = s.logitBias i ∧ t.maskAt j = s.maskAt i ∧ t.marks id = s.marks id

/-- Where an early row changes places with a late one, both have the same mask of allowed tokens. -/
def MasksAgree (out : SchedulerOutput) (s : InputBatch) : Prop :=
  ∀ x ∈ (earlyPrefills out s).zip (lateDecodes out s).reverse, s.maskAt x.1 = s.maskAt x.2

theorem numDecodes_le (out : SchedulerOutput) (s : InputBatch) : numDecodes out s ≤ s.reqIds.length :=
  (List.length_filter_le _ _).trans_eq List.length_range

theorem length_earlyPrefills (out : SchedulerOutput) (s : InputBatch) :
    (earlyPrefills out s).length = (lateDecodes out s).length := early_eq_late rfl

theorem mem_earlyPrefills : i ∈ earlyPrefills out s ↔ i < numDecodes out s ∧ isDecode out s i = false := by
  unfold earlyPrefills
  rw [List.mem_filter, List.mem_range, Bool.not_eq_true']

theorem mem_lateDecodes : i ∈ lateDecodes out s ↔
    numDecodes out s ≤ i ∧ i < s.reqIds.length ∧ isDecode out s i = true := by
  unfold lateDecodes
  have within := numDecodes_le out s
  rw [List.mem_filter, List.mem_range'_1, Nat.add_sub_cancel' within, and_assoc]

theorem mem_pairs {x : ℕ × ℕ} (member : x ∈ (earlyPrefills out s).zip (lateDecodes out s).reverse) :
    x.1 ∈ earlyPrefills out s ∧ x.2 ∈ lateDecodes out s := by
  have both := List.of_mem_zip (a := x.1) (b := x.2) member
  exact ⟨both.1, List.mem_reverse.mp both.2⟩

theorem pairwise_zip {xs ys : List ℕ} (left : xs.Nodup) (right : ys.Nodup) :
    (xs.zip ys).Pairwise fun x y => x.1 ≠ y.1 ∧ x.2 ≠ y.2 := by
  induction xs generalizing ys with
  | nil => exact List.Pairwise.nil
  | cons x xs ih =>
    cases ys with
    | nil => exact List.Pairwise.nil
    | cons y ys =>
      obtain ⟨newLeft, left⟩ := List.nodup_cons.mp left
      obtain ⟨newRight, right⟩ := List.nodup_cons.mp right
      rw [List.zip_cons_cons, List.pairwise_cons]
      refine ⟨?_, ih left right⟩
      rintro ⟨x', y'⟩ member
      have both := List.of_mem_zip member
      constructor
      · rintro rfl
        exact newLeft both.1
      · rintro rfl
        exact newRight both.2

theorem tokensAt_carried (carried : Carried s i t j) : tokensAt out t j = tokensAt out s i := by
  unfold tokensAt
  rw [carried.reqId]

/-- After the swaps the first rows are those of the requests that are scheduled for one token. -/
theorem isDecode_swapped (swapped : Swapped s t ((earlyPrefills out s).zip (lateDecodes out s).reverse))
    (inside : i < s.reqIds.length) : isDecode out t i = true ↔ i < numDecodes out s := by
  obtain ⟨early, late⟩ := @exists_partner (earlyPrefills out s) (lateDecodes out s).reverse
    (by rw [List.length_reverse, length_earlyPrefills])
  have same : ∀ {i j}, Carried s i t j → isDecode out t j = isDecode out s i := by
    intro i j carried
    unfold isDecode
    rw [tokensAt_carried carried]
  by_cases front : i ∈ earlyPrefills out s
  · obtain ⟨j, pair⟩ := early i front
    rw [same (swapped.front _ pair).1]
    exact ⟨fun _ => (mem_earlyPrefills.mp front).1, fun _ => (mem_lateDecodes.mp (mem_pairs pair).2).2.2⟩
  · by_cases back : i ∈ lateDecodes out s
    · obtain ⟨j, pair⟩ := late i (List.mem_reverse.mpr back)
      rw [same (swapped.back _ pair).1, (mem_earlyPrefills.mp (mem_pairs pair).1).2]
      exact ⟨nofun, fun less => absurd (mem_lateDecodes.mp back).1 (Nat.not_le.mpr less)⟩
    · have other := swapped.other i fun x member => by
        constructor
        · rintro rfl
          exact front (mem_pairs member).1
        · rintro rfl
          exact back (mem_pairs member).2
      rw [same other.1]
      constructor
      · intro decode
        by_contra late
        exact back (mem_lateDecodes.mpr ⟨Nat.le_of_not_lt late, inside, decode⟩)
      · intro less
        by_contra prefill
        exact front (mem_earlyPrefills.mpr ⟨less, by simpa using prefill⟩)

theorem keeps_swapped_iff (occupied : Occupied s [])
    (swapped : Swapped s t ((earlyPrefills out s).zip (lateDecodes out s).reverse)) :
    Keeps s t ↔ MasksAgree out s := by
  have place : ∀ {id i j}, s.reqIdToIndex.get? id = some i → Carried s i t j → t.reqIdToIndex.get? id = some j := by
    intro id i j found carried
    rw [swapped.occupied.index, carried.reqId]
    exact (occupied.index id i).mp found
  constructor
  · intro keeps x member
    obtain ⟨early, late⟩ := mem_pairs member
    have inside : x.1 < s.reqIds.length := (mem_earlyPrefills.mp early).1.trans_le (numDecodes_le out s)
    obtain ⟨id, row⟩ := isLive_iff.mp ((occupied.live_or_empty inside).mpr (List.not_mem_nil (a := x.1)))
    have found := (occupied.index id x.1).mpr row
    obtain ⟨carried, mask⟩ := swapped.back x member
    obtain ⟨j, there, -, -, same, -⟩ := keeps id x.1 found
    rw [place found carried, Option.some.injEq] at there
    rw [← there, mask] at same
    exact same.symm
  · intro agree id i found
    have marks : t.marks id = s.marks id := congrFun swapped.marks id
    by_cases front : ∃ x ∈ (earlyPrefills out s).zip (lateDecodes out s).reverse, i = x.1
    · obtain ⟨x, member, rfl⟩ := front
      obtain ⟨carried, mask⟩ := swapped.back x member
      exact ⟨x.2, place found carried, carried.row, carried.logitBias, mask.trans (agree x member).symm, marks⟩
    · by_cases back : ∃ x ∈ (earlyPrefills out s).zip (lateDecodes out s).reverse, i = x.2
      · obtain ⟨x, member, rfl⟩ := back
        obtain ⟨carried, mask⟩ := swapped.front x member
        exact ⟨x.1, place found carried, carried.row, carried.logitBias, mask, marks⟩
      · obtain ⟨carried, mask⟩ := swapped.other i fun x member =>
          ⟨fun same => front ⟨x, member, same⟩, fun same => back ⟨x, member, same⟩⟩
        exact ⟨i, place found carried, carried.row, carried.logitBias, mask, marks⟩

/-! ### The tokens -/

theorem map_tokensAt (out : SchedulerOutput) (s : InputBatch) : (List.range s.reqIds.length).map (tokensAt out s) =
    s.reqIds.map fun reqId => (reqId.bind out.numScheduledTokens.get?).getD 0 := by
  apply List.ext_getElem
  · rw [List.length_map, List.length_map, List.length_range]
  · intro i inside _
    rw [List.length_map, List.length_range] at inside
    rw [List.getElem_map, List.getElem_map, List.getElem_range]
    unfold tokensAt
    rw [List.getElem?_eq_getElem inside, Option.join_some]

theorem sum_filter_add (p : ℕ → Bool) (f : ℕ → ℕ) (xs : List ℕ) :
    ((xs.filter p).map f).sum + ((xs.filter fun x => !p x).map f).sum = (xs.map f).sum := by
  have all := List.sum_map_filter_add_sum_map_filter_not (fun x => p x = true) f xs
  simpa using all

theorem divideRows_all (occupied : Occupied s []) (scheduled : Scheduled out s) :
    divideRows out 0 s.reqIds {} = some {
      decodes := (List.range s.reqIds.length).filter (isDecode out s)
      prefills := (List.range s.reqIds.length).filter fun i => !isDecode out s i
      numDecodeTokens := (((List.range s.reqIds.length).filter (isDecode out s)).map (tokensAt out s)).sum
      numPrefillTokens :=
        (((List.range s.reqIds.length).filter fun i => !isDecode out s i).map (tokensAt out s)).sum } := by
  have divided := divideRows_drop occupied scheduled (i := 0) (Nat.zero_add _) {}
  rw [List.drop_zero, ← List.range_eq_range'] at divided
  simpa only [List.nil_append, Nat.zero_add] using divided

theorem sum_tokensAt (perm : t.reqIds.Perm s.reqIds)
    (decodesFirst : ∀ i < t.reqIds.length, isDecode out t i = true ↔ i < numDecodes out s) :
    (((List.range s.reqIds.length).filter (isDecode out s)).map (tokensAt out s)).sum =
        ((List.range (numDecodes out s)).map (tokensAt out t)).sum ∧
      (((List.range s.reqIds.length).filter fun i => !isDecode out s i).map (tokensAt out s)).sum =
        ((List.range' (numDecodes out s) (s.reqIds.length - numDecodes out s)).map (tokensAt out t)).sum := by
  have within := numDecodes_le out s
  have length := perm.length_eq
  have ones : ∀ xs : List ℕ, ∀ u : InputBatch, (∀ i ∈ xs, isDecode out u i = true) →
      (xs.map (tokensAt out u)).sum = xs.length := by
    intro xs u decodes
    rw [List.map_congr_left (g := fun _ => 1) fun i member => of_decide_eq_true (decodes i member), List.map_const',
      List.sum_replicate, smul_eq_mul, mul_one]
  have first : (((List.range s.reqIds.length).filter (isDecode out s)).map (tokensAt out s)).sum =
      ((List.range (numDecodes out s)).map (tokensAt out t)).sum := by
    rw [ones _ s fun i member => (List.mem_filter.mp member).2, ones _ t fun i member => ?_, List.length_range]
    · rfl
    · have less := List.mem_range.mp member
      exact (decodesFirst i (by omega)).mpr less
  refine ⟨first, ?_⟩
  have all : ((List.range s.reqIds.length).map (tokensAt out s)).sum =
      ((List.range s.reqIds.length).map (tokensAt out t)).sum := by
    rw [map_tokensAt, ← length, map_tokensAt]
    exact (perm.map _).sum_eq.symm
  have split_ : ((List.range s.reqIds.length).map (tokensAt out t)).sum =
      ((List.range (numDecodes out s)).map (tokensAt out t)).sum +
        ((List.range' (numDecodes out s) (s.reqIds.length - numDecodes out s)).map (tokensAt out t)).sum := by
    rw [range_split within, List.map_append, List.sum_append]
  rw [← sum_filter_add (isDecode out s), first, split_] at all
  exact Nat.add_left_cancel all

/-- The order and the counts that are saved are right in any case, and so is the number of swaps; the data of the
requests is kept just when no mask is lost. -/
theorem reorderBatch_keeps_iff (occupied : Occupied s []) (scheduled : Scheduled out s) :
    ∃ r t, reorderBatch out s = .ok r t ∧ FrontLoaded out s t r ∧ (Keeps s t ↔ MasksAgree out s) := by
  have pairs := @takeWhile_swaps (isDecode out s) s.reqIds.length (numDecodes out s) rfl
  change _ = (earlyPrefills out s).zip (lateDecodes out s).reverse at pairs
  obtain ⟨t, call, swapped⟩ := @swapLoop_swapped s (((List.range s.reqIds.length).filter fun i => !isDecode out s i).zip
      ((List.range s.reqIds.length).filter (isDecode out s)).reverse) (numDecodes out s) occupied
    (by
      rw [pairs]
      intro x member
      obtain ⟨early, late⟩ := mem_pairs member
      exact ⟨(mem_earlyPrefills.mp early).1, (mem_lateDecodes.mp late).2.1⟩)
    (by
      rw [pairs]
      exact pairwise_zip (List.nodup_range.filter _) (List.nodup_reverse.mpr ((List.nodup_range' 1).filter _)))
  rw [pairs] at call swapped
  have length := swapped.perm.length_eq
  have within := numDecodes_le out s
  have divides := List.length_eq_length_filter_add (l := List.range s.reqIds.length) (isDecode out s)
  rw [List.length_range] at divides
  have others : ((List.range s.reqIds.length).filter fun i => !isDecode out s i).length =
      s.reqIds.length - numDecodes out s := by
    unfold numDecodes
    omega
  have decodesFirst : ∀ i < t.reqIds.length, isDecode out t i = true ↔ i < numDecodes out s := by
    intro i inside
    exact isDecode_swapped swapped (by omega)
  obtain ⟨decodeTokens, prefillTokens⟩ := sum_tokensAt swapped.perm decodesFirst
  let r : ReorderedBatch := {
    builder := {
      numDecodes := numDecodes out s
      numPrefills := ((List.range s.reqIds.length).filter fun i => !isDecode out s i).length
      numDecodeTokens := (((List.range s.reqIds.length).filter (isDecode out s)).map (tokensAt out s)).sum
      numPrefillTokens :=
        (((List.range s.reqIds.length).filter fun i => !isDecode out s i).map (tokensAt out s)).sum }
    modifiedBatch := !((earlyPrefills out s).zip (lateDecodes out s).reverse).isEmpty
    swaps := (earlyPrefills out s).zip (lateDecodes out s).reverse }
  refine ⟨r, t, ?_, ?_, keeps_swapped_iff occupied swapped⟩
  · unfold reorderBatch
    rw [get_bind, divideRows_all occupied scheduled]
    exact (bind_of_ok call).trans rfl
  · constructor
    · exact decodesFirst
    · exact swapped.perm
    · show ((earlyPrefills out s).zip (lateDecodes out s).reverse).length = _
      rw [List.length_zip, List.length_reverse, length_earlyPrefills, Nat.min_self]
    · show (!List.isEmpty _) = true ↔ _
      rw [Bool.not_eq_true', List.isEmpty_eq_false_iff]
    · show numDecodes out s + List.length _ = _
      rw [others, length]
      exact Nat.add_sub_cancel' within
    · exact decodeTokens
    · show _ = ((List.range' (numDecodes out s) (List.length _)).map (tokensAt out t)).sum
      rw [others]
      exact prefillTokens

end InputBatch

/-! ### Batches of two requests, of which the first is a prefill -/

namespace AuditedRunner
open InputBatch GPUModelRunner

theorem occupied_of_fresh {maxNumReqs maxModelLen maxNumBlocksPerReq vocabSize : ℕ} {history : List BatchEvent}
    {a : AuditedRunner} (run : ReachesFresh (start maxNumReqs maxModelLen maxNumBlocksPerReq vocabSize) history a) :
    Occupied a.runner.inputBatch [] := by
  have inStep : InStep a.runner a.ledger := by
    induction run with
    | start => exact inStep_start _ _ _ _
    | call _ step ih => exact inStep_step ih step.1 step.2
  exact inStep.occupied

def restricted (data : NewRequestData) : NewRequestData :=
  { data with samplingParams := { data.samplingParams with allowedTokenIds := some [3] } }

def bothRestricted : SchedulerOutput :=
  { batchOf [restricted (newRequest 0 [5, 6] [1]), restricted (newRequest 1 [7] [2])] [] [] with
    numScheduledTokens := (Dict.empty.insert 0 2).insert 1 1 }

def firstRestricted : SchedulerOutput :=
  { batchOf [restricted (newRequest 0 [5, 6] [1]), newRequest 1 [7] [2]] [] [] with
    numScheduledTokens := (Dict.empty.insert 0 2).insert 1 1 }

theorem reaches_one (out : SchedulerOutput) {P : AuditedRunner → Prop} [DecidablePred P]
    (found : (Run.execute (fun b event => if b.Meets event then b.step event else none) (start 4 16 4 32) [.update out]).any
      (fun a => decide (P a)) = true) : ∃ a, ReachesFresh (start 4 16 4 32) [.update out] a ∧ P a := by
  obtain ⟨a, run, holds⟩ := Run.exists_of_execute found
  refine ⟨a, run.mono ?_, holds⟩
  intro b event b' stepped
  split at stepped
  · rename_i meets
    exact ⟨meets, stepped⟩
  · cases stepped

theorem reorderBatch_keeps_iff_restricted : ∃ a, ReachesFresh (start 4 16 4 32) [.update bothRestricted] a ∧
    (next? (reorderBatch bothRestricted) a.runner.inputBatch).map InputBatch.reqIds = some [some 1, some 0] ∧
      ∃ r t, reorderBatch bothRestricted a.runner.inputBatch = .ok r t ∧
        FrontLoaded bothRestricted a.runner.inputBatch t r ∧
          (Keeps a.runner.inputBatch t ↔ MasksAgree bothRestricted a.runner.inputBatch) := by
  have ran : ∃ a, ReachesFresh (start 4 16 4 32) [.update bothRestricted] a ∧
      ((next? (reorderBatch bothRestricted) a.runner.inputBatch).map InputBatch.reqIds = some [some 1, some 0] ∧
        ∀ id ∈ a.runner.inputBatch.reqIdToIndex.keys, (bothRestricted.numScheduledTokens.get? id).isSome) := by
    apply reaches_one
    decide +kernel
  obtain ⟨a, run, rows, scheduled⟩ := ran
  refine ⟨a, run, rows, reorderBatch_keeps_iff (occupied_of_fresh run) ?_⟩
  intro id i found
  exact scheduled id (Dict.mem_keys_iff.mpr ⟨i, found⟩)

/-- The request that is restricted gets the mask of the other, which allows every token. -/
theorem swap_loses_mask : ∃ a t, ReachesFresh (start 4 16 4 32) [.update firstRestricted] a ∧
    next? (reorderBatch firstRestricted) a.runner.inputBatch = some t ∧
      a.runner.inputBatch.reqIdToIndex.get? 0 = some 0 ∧ a.runner.inputBatch.maskAt 0 4 = true ∧
        t.reqIdToIndex.get? 0 = some 1 ∧ t.maskAt 1 4 = false ∧ ¬Keeps a.runner.inputBatch t := by
  have ran : ∃ a, ReachesFresh (start 4 16 4 32) [.update firstRestricted] a ∧
      (a.runner.inputBatch.reqIdToIndex.get? 0 = some 0 ∧ a.runner.inputBatch.maskAt 0 4 = true ∧
        (next? (reorderBatch firstRestricted) a.runner.inputBatch).any (fun t =>
          t.reqIdToIndex.get? 0 = some 1 ∧ t.maskAt 1 4 = false) = true) := by
    apply reaches_one
    decide +kernel
  obtain ⟨a, run, before, masked, reordered⟩ := ran
  obtain ⟨t, call, after⟩ := (Option.any_eq_true _ _).mp reordered
  obtain ⟨place, open_⟩ := of_decide_eq_true after
  refine ⟨a, t, run, call, before, masked, place, open_, fun keeps => ?_⟩
  obtain ⟨j, there, -, -, same, -⟩ := keeps 0 0 before
  rw [place, Option.some.injEq] at there
  rw [← there] at same
  rw [← same, open_] at masked
  cases masked

end AuditedRunner
end Vllm.V1
