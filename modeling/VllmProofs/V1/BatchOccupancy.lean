import VllmProofs.V1.InputBatchRows

/-!
Which rows of the batch have a request: each live request has one, and between updates there are no
empty rows among them.
-/

namespace Vllm.V1
open Exec

namespace InputBatch

variable {s t u : InputBatch} {i j : ℕ} {id : RequestId} {request : CachedRequestState} {holes : List ℕ}

/-- The rows that are empty are `holes`. -/
structure Occupied (s : InputBatch) (holes : List ℕ) : Prop where
  index : ∀ id i, s.reqIdToIndex.get? id = some i ↔ s.reqIds[i]? = some (some id)
  empty : ∀ i, s.reqIds[i]? = some none ↔ i ∈ holes
  nodup : holes.Nodup
  clean : ∀ i, (∀ id, s.reqIds[i]? ≠ some (some id)) → s.Clean i

def isLive (s : InputBatch) (i : ℕ) : Bool := (s.reqIds[i]?).join.isSome

theorem isLive_iff : s.isLive i = true ↔ ∃ id, s.reqIds[i]? = some (some id) := by
  unfold isLive
  rw [Option.isSome_iff_exists]
  simp only [Option.join_eq_some_iff]

section
variable (index : ∀ id i, s.reqIdToIndex.get? id = some i ↔ s.reqIds[i]? = some (some id))
include index

theorem numReqs_eq : s.numReqs = ((List.range s.reqIds.length).filter s.isLive).length := by
  have rows : (s.reqIdToIndex.keys.map fun id => (s.reqIdToIndex.get? id).getD 0).Perm
      ((List.range s.reqIds.length).filter s.isLive) := by
    apply (List.perm_ext_iff_of_nodup _ _).mpr
    · intro i
      rw [List.mem_map, List.mem_filter, List.mem_range, isLive_iff]
      constructor
      · rintro ⟨id, key, rfl⟩
        obtain ⟨i, found⟩ := Dict.mem_keys_iff.mp key
        have at_ := (index id i).mp found
        rw [found, Option.getD_some]
        exact ⟨(List.getElem?_eq_some_iff.mp at_).1, id, at_⟩
      · rintro ⟨-, id, at_⟩
        have found := (index id i).mpr at_
        refine ⟨id, Dict.mem_keys_iff.mpr ⟨i, found⟩, ?_⟩
        rw [found, Option.getD_some]
    · apply List.Nodup.map_on _ s.reqIdToIndex.nodup
      intro id key id' key' same
      obtain ⟨i, found⟩ := Dict.mem_keys_iff.mp key
      obtain ⟨i', found'⟩ := Dict.mem_keys_iff.mp key'
      rw [found, found', Option.getD_some, Option.getD_some] at same
      have at_ := (index id i).mp found
      rw [same, (index id' i').mp found', Option.some.injEq, Option.some.injEq] at at_
      exact at_.symm
    · exact List.nodup_range.filter _
  have lengths := rows.length_eq
  rw [List.length_map] at lengths
  rw [← lengths]
  exact (List.length_map _).symm

/-- When exactly the first `n` rows are live, there are `n` requests. -/
theorem numReqs_of_live {n : ℕ}
    (inside : n ≤ s.reqIds.length) (live : ∀ i < s.reqIds.length, s.isLive i = true ↔ i < n) : s.numReqs = n := by
  rw [numReqs_eq index]
  have rows : ((List.range s.reqIds.length).filter s.isLive).Perm (List.range n) := by
    apply (List.perm_ext_iff_of_nodup (List.nodup_range.filter _) List.nodup_range).mpr
    intro i
    rw [List.mem_filter, List.mem_range, List.mem_range]
    constructor
    · exact fun found => (live i found.1).mp found.2
    · intro less
      have known := less.trans_le inside
      exact ⟨known, (live i known).mpr less⟩
  rw [rows.length_eq, List.length_range]

theorem le_numReqs
    (inside : i ≤ s.reqIds.length) (first : ∀ j < i, s.reqIds[j]? ≠ some none) : i ≤ s.numReqs := by
  rw [numReqs_eq index]
  apply le_trans List.length_range.ge
  apply (List.subperm_of_subset List.nodup_range _).length_le
  intro j less
  rw [List.mem_range] at less
  rw [List.mem_filter, List.mem_range, isLive_iff]
  have known := less.trans_le inside
  refine ⟨known, ?_⟩
  have full := first j less
  rw [List.getElem?_eq_getElem known] at full ⊢
  cases row : s.reqIds[j] with
  | none => exact absurd (congrArg some row) full
  | some id => exact ⟨id, rfl⟩

theorem numReqs_le {last : ℕ}
    (less : i ≤ last) (empty : s.reqIds[i]? = some none) (beyond : ∀ j > last, ∀ id, s.reqIds[j]? ≠ some (some id)) :
    s.numReqs ≤ last := by
  rw [numReqs_eq index]
  have others : ((List.range (last + 1)).erase i).length = last := by
    rw [List.length_erase_of_mem (List.mem_range.mpr (Nat.lt_succ_of_le less)), List.length_range]
    rfl
  rw [← others]
  apply (List.subperm_of_subset (List.nodup_range.filter _) _).length_le
  intro j live
  rw [List.mem_filter, isLive_iff] at live
  obtain ⟨-, id, there⟩ := live
  rw [List.nodup_range.mem_erase_iff, List.mem_range]
  constructor
  · rintro rfl
    rw [empty] at there
    cases there
  · by_contra high
    exact beyond j (by omega) id there

end

theorem Occupied.live_or_empty (occupied : Occupied s holes) (inside : i < s.reqIds.length) :
    s.isLive i = true ↔ i ∉ holes := by
  rw [isLive_iff, ← occupied.empty i, List.getElem?_eq_getElem inside]
  cases s.reqIds[i] with
  | none => simp
  | some id => simp

theorem Occupied.hole_inside (occupied : Occupied s holes) (hole : i ∈ holes) : i < s.reqIds.length :=
  (List.getElem?_eq_some_iff.mp ((occupied.empty i).mpr hole)).1

theorem Occupied.total (occupied : Occupied s holes) : s.numReqs + holes.length = s.reqIds.length := by
  have rest : ((List.range s.reqIds.length).filter fun i => !s.isLive i).Perm holes := by
    apply (List.perm_ext_iff_of_nodup (List.nodup_range.filter _) occupied.nodup).mpr
    intro i
    rw [List.mem_filter, List.mem_range]
    constructor
    · rintro ⟨inside, dead⟩
      by_contra other
      rw [(occupied.live_or_empty inside).mpr other] at dead
      cases dead
    · intro hole
      have inside := occupied.hole_inside hole
      refine ⟨inside, ?_⟩
      cases live : s.isLive i with
      | false => rfl
      | true => exact absurd hole ((occupied.live_or_empty inside).mp live)
  rw [numReqs_eq occupied.index, ← rest.length_eq]
  have all := List.length_eq_length_filter_add (l := List.range s.reqIds.length) s.isLive
  rw [List.length_range] at all
  exact all.symm

theorem Occupied.remove {loras : Dict ℕ (Finset RequestId)} (occupied : Occupied s holes)
    (found : s.reqIdToIndex.get? id = some i) : Occupied (s.removed i id loras) (i :: holes) := by
  have at_ := (occupied.index id i).mp found
  have inside := (List.getElem?_eq_some_iff.mp at_).1
  have rows : ∀ j, (s.removed i id loras).reqIds[j]? = if j = i then some none else s.reqIds[j]? := by
    intro j
    show (s.reqIds.set i none)[j]? = _
    rw [List.getElem?_set, if_pos inside]
    simp only [eq_comm]
  constructor
  · intro id' j
    show (s.reqIdToIndex.erase id).get? id' = some j ↔ _
    rw [rows, Dict.get?_erase]
    by_cases mine : id' = id
    · rw [if_pos mine]
      constructor
      · exact nofun
      · intro there
        split at there
        · cases there
        · rename_i other
          rw [mine, ← occupied.index, found, Option.some.injEq] at there
          exact absurd there.symm other
    · rw [if_neg mine, occupied.index]
      split
      · rename_i here
        rw [here, at_]
        simp only [Option.some.injEq, reduceCtorEq, iff_false]
        exact fun same => mine same.symm
      · rfl
  · intro j
    rw [rows, List.mem_cons, ← occupied.empty]
    split
    · rename_i here
      simp [here]
    · rename_i other
      simp [other]
  · refine List.nodup_cons.mpr ⟨?_, occupied.nodup⟩
    intro hole
    rw [← occupied.empty, at_] at hole
    cases hole
  · intro j dead
    show (s.generators.erase i).get? j = none ∧ (s.minTokens.erase i).get? j = none ∧
      (s.badWordsTokenIds.erase i).get? j = none
    rw [Dict.get?_erase, Dict.get?_erase, Dict.get?_erase]
    split
    · exact ⟨rfl, rfl, rfl⟩
    · rename_i other
      apply occupied.clean
      intro id' there
      apply dead id'
      rw [rows, if_neg other]
      exact there

theorem get?_placed {reqIds : List (Option RequestId)} (inside : i ≤ reqIds.length) :
    (placed i id reqIds)[j]? = if j = i then some (some id) else reqIds[j]? := by
  unfold placed
  split
  · rename_i last
    rw [last]
    by_cases here : j = reqIds.length
    · rw [if_pos here, here, List.getElem?_concat_length]
    · rw [if_neg here]
      rcases Nat.lt_or_gt_of_ne here with before | after
      · exact List.getElem?_append_left before
      · rw [List.getElem?_eq_none (Nat.le_of_lt after), List.getElem?_eq_none]
        rw [List.length_append, List.length_singleton]
        exact after
  · rename_i other
    rw [List.getElem?_set]
    split
    · rename_i here
      rw [if_pos (Nat.lt_of_le_of_ne inside other), if_pos here.symm]
    · rename_i apart
      rw [if_neg (Ne.symm apart)]

/-- A request comes to a row that is empty, or to the next one. -/
theorem Occupied.place {left : List ℕ} (occupied : Occupied s holes) (inside : i ≤ s.reqIds.length)
    (vacant : ∀ id, s.reqIds[i]? ≠ some (some id)) (unused : s.reqIdToIndex.get? request.reqId = none)
    (nodup : left.Nodup) (rest : ∀ j, j ∈ left ↔ j ∈ holes ∧ j ≠ i) : Occupied (s.added i request) left := by
  have rows : ∀ j, (s.added i request).reqIds[j]? = if j = i then some (some request.reqId) else s.reqIds[j]? := by
    intro j
    rw [added_reqIds]
    exact get?_placed inside
  constructor
  · intro id' j
    rw [added_reqIdToIndex, rows, Dict.get?_insert]
    by_cases mine : id' = request.reqId
    · rw [if_pos mine, mine, Option.some.injEq]
      split
      · rename_i here
        simp [here]
      · rename_i other
        rw [← occupied.index, unused]
        simp [Ne.symm other]
    · rw [if_neg mine, occupied.index]
      split
      · rename_i here
        rw [here]
        constructor
        · exact fun there => absurd there (vacant id')
        · intro same
          cases same
          exact absurd rfl mine
      · rfl
  · intro j
    rw [rows, rest, ← occupied.empty]
    split
    · rename_i here
      simp [here]
    · rename_i other
      simp [other]
  · exact nodup
  · intro j dead
    have other : j ≠ i := by
      rintro rfl
      apply dead request.reqId
      rw [rows, if_pos rfl]
    have before := occupied.clean j fun id' there => dead id' (by rw [rows, if_neg other]; exact there)
    unfold Clean
    rw [get?_addedGenerators, get?_addedMinTokens, get?_addedBadWords, if_neg other, if_neg other, if_neg other]
    exact before

theorem Occupied.fill (occupied : Occupied s (i :: holes)) (unused : s.reqIdToIndex.get? request.reqId = none) :
    Occupied (s.added i request) holes := by
  have empty := (occupied.empty i).mpr List.mem_cons_self
  have nodup := List.nodup_cons.mp occupied.nodup
  apply occupied.place (List.getElem?_eq_some_iff.mp empty).1.le _ unused nodup.2
  · intro j
    rw [List.mem_cons]
    constructor
    · intro there
      refine ⟨Or.inr there, ?_⟩
      rintro rfl
      exact nodup.1 there
    · exact fun there => there.1.resolve_left there.2
  · intro id there
    rw [empty] at there
    cases there

theorem Occupied.append (occupied : Occupied s []) (unused : s.reqIdToIndex.get? request.reqId = none) :
    Occupied (s.added s.numReqs request) [] := by
  have total := occupied.total
  rw [List.length_nil, Nat.add_zero] at total
  apply occupied.place total.le _ unused List.nodup_nil
  · intro j
    simp
  · intro id there
    rw [total, List.getElem?_eq_none (le_refl _)] at there
    cases there

theorem Occupied.swap {i1 i2 : ℕ} {id1 id2 : RequestId} (occupied : Occupied s [])
    (first : s.reqIds[i1]? = some (some id1)) (second : s.reqIds[i2]? = some (some id2)) :
    Occupied (s.swapped i1 i2 id1 id2) [] := by
  have inside1 := (List.getElem?_eq_some_iff.mp first).1
  have inside2 := (List.getElem?_eq_some_iff.mp second).1
  have rows : ∀ j, (s.swapped i1 i2 id1 id2).reqIds[j]? =
      if j = i2 then some (some id1) else if j = i1 then some (some id2) else s.reqIds[j]? := by
    intro j
    show ((s.reqIds.set i1 (some id2)).set i2 (some id1))[j]? = _
    rw [List.getElem?_set, List.getElem?_set, List.length_set, if_pos inside2, if_pos inside1]
    simp only [eq_comm]
  have key : ∀ id j, s.reqIds[j]? = some (some id) → (id = id1 ↔ j = i1) ∧ (id = id2 ↔ j = i2) := by
    intro id j there
    have found := (occupied.index id j).mpr there
    refine ⟨⟨?_, ?_⟩, ⟨?_, ?_⟩⟩
    · rintro rfl
      rw [(occupied.index id i1).mpr first, Option.some.injEq] at found
      exact found.symm
    · rintro rfl
      rw [first, Option.some.injEq, Option.some.injEq] at there
      exact there.symm
    · rintro rfl
      rw [(occupied.index id i2).mpr second, Option.some.injEq] at found
      exact found.symm
    · rintro rfl
      rw [second, Option.some.injEq, Option.some.injEq] at there
      exact there.symm
  constructor
  · intro id j
    show ((s.reqIdToIndex.insert id1 i2).insert id2 i1).get? id = some j ↔ _
    rw [rows, Dict.get?_insert, Dict.get?_insert]
    have kept := occupied.index id j
    have mine := key id j
    have apart : id1 = id2 ↔ i1 = i2 := (key id1 i1 first).2
    by_cases is2 : id = id2
    · rw [if_pos is2, is2, Option.some.injEq]
      by_cases at2 : j = i2
      · rw [if_pos at2, at2, Option.some.injEq, Option.some.injEq]
        exact apart.symm
      · rw [if_neg at2]
        by_cases at1 : j = i1
        · simp [at1]
        · rw [if_neg at1]
          constructor
          · exact fun here => absurd here.symm at1
          · exact fun there => absurd (((key id2 j there).2).mp rfl) at2
    · rw [if_neg is2]
      by_cases is1 : id = id1
      · rw [if_pos is1, is1, Option.some.injEq]
        by_cases at2 : j = i2
        · simp [at2]
        · rw [if_neg at2]
          by_cases at1 : j = i1
          · rw [if_pos at1, Option.some.injEq, Option.some.injEq]
            rw [is1] at is2
            exact ⟨fun here => absurd here.symm at2, fun same => absurd same.symm is2⟩
          · rw [if_neg at1]
            constructor
            · exact fun here => absurd here.symm at2
            · exact fun there => absurd (((key id1 j there).1).mp rfl) at1
      · rw [if_neg is1, kept]
        constructor
        · intro there
          rw [if_neg (fun at2 => is2 ((mine there).2.mpr at2)), if_neg (fun at1 => is1 ((mine there).1.mpr at1))]
          exact there
        · intro there
          split at there
          · rw [Option.some.injEq, Option.some.injEq] at there
            exact absurd there.symm is1
          · split at there
            · rw [Option.some.injEq, Option.some.injEq] at there
              exact absurd there.symm is2
            · exact there
  · intro j
    rw [rows]
    have none := occupied.empty j
    simp only [List.not_mem_nil, iff_false] at none ⊢
    split
    · exact nofun
    · split
      · exact nofun
      · exact none
  · exact List.nodup_nil
  · intro j dead
    have other2 : j ≠ i2 := by
      rintro rfl
      exact dead id1 (by rw [rows, if_pos rfl])
    have other1 : j ≠ i1 := by
      rintro rfl
      exact dead id2 (by rw [rows, if_neg other2, if_pos rfl])
    have before := occupied.clean j fun id there => dead id (by rw [rows, if_neg other2, if_neg other1]; exact there)
    obtain ⟨generators, minTokens, badWords⟩ := before
    refine ⟨?_, ?_, ?_⟩
    · exact (get?_swapDictValues_other other1 other2).trans generators
    · exact (get?_swapDictValues_other other1 other2).trans minTokens
    · exact (get?_swapDictValues_other other1 other2).trans badWords

end InputBatch
end Vllm.V1
