import VllmProofs.V1.BatchOccupancy

/-!
`condense` leaves each request in a row, and no row empty among them.
-/

namespace Vllm.V1
open Exec

namespace InputBatch

variable {s t : InputBatch} {i j last empty stop : ℕ} {id : RequestId} {holes rest : List ℕ}

structure Condensing (s : InputBatch) (holes : List ℕ) (stop : ℕ) : Prop where
  index : ∀ id i, s.reqIdToIndex.get? id = some i ↔ s.reqIds[i]? = some (some id)
  below : ∀ i < stop, s.reqIds[i]? = some none ↔ i ∈ holes
  beyond : ∀ i ≥ stop, ∀ id, s.reqIds[i]? ≠ some (some id)
  inside : stop ≤ s.reqIds.length
  clean : ∀ i, (∀ id, s.reqIds[i]? ≠ some (some id)) → s.Clean i

theorem Occupied.condensing (occupied : Occupied s holes) : Condensing s holes s.reqIds.length where
  index := occupied.index
  below i _ := occupied.empty i
  beyond i outside id there := by
    rw [List.getElem?_eq_none outside] at there
    cases there
  inside := le_refl _
  clean := occupied.clean

theorem Condensing.skip (condensing : Condensing s holes stop) :
    Condensing s holes (skipEmpty holes stop) ∧ ∀ last, skipEmpty holes stop = last + 1 → last ∉ holes := by
  induction stop with
  | zero => exact ⟨condensing, nofun⟩
  | succ last ih =>
    unfold skipEmpty
    split
    · rename_i hole
      have none := (condensing.below last (Nat.lt_succ_self _)).mpr hole
      apply ih
      refine ⟨condensing.index, fun i less => condensing.below i (Nat.lt_succ_of_lt less), ?_,
        Nat.le_of_succ_le condensing.inside, condensing.clean⟩
      intro i outside id there
      rcases Nat.eq_or_lt_of_le outside with here | beyond
      · rw [← here, none] at there
        cases there
      · exact condensing.beyond i beyond id there
    · rename_i live
      refine ⟨condensing, ?_⟩
      intro last' same
      cases same
      exact live

/-- The last request comes to the first empty row. -/
theorem Condensing.move (condensing : Condensing s (empty :: rest) (last + 1)) (less : empty < last)
    (sorted : (empty :: rest).Pairwise (· < ·)) (at_ : s.reqIds[last]? = some (some id)) :
    Condensing (s.moved last empty id) rest last := by
  have inside := condensing.inside
  have rows : ∀ j, (s.moved last empty id).reqIds[j]? =
      if j = last then some none else if j = empty then some (some id) else s.reqIds[j]? := by
    intro j
    show ((s.reqIds.set empty (some id)).set last none)[j]? = _
    rw [List.getElem?_set, List.getElem?_set, List.length_set, if_pos (show last < s.reqIds.length by omega),
      if_pos (show empty < s.reqIds.length by omega)]
    simp only [eq_comm]
  have wasEmpty := (condensing.below empty (Nat.lt_succ_of_lt less)).mpr List.mem_cons_self
  constructor
  · intro id' j
    show (s.reqIdToIndex.insert id empty).get? id' = some j ↔ _
    rw [rows, Dict.get?_insert]
    by_cases mine : id' = id
    · rw [if_pos mine, mine, Option.some.injEq]
      by_cases atLast : j = last
      · simp only [atLast, ↓reduceIte, Option.some.injEq, reduceCtorEq, iff_false]
        exact Nat.ne_of_lt less
      · rw [if_neg atLast]
        by_cases atEmpty : j = empty
        · simp [atEmpty]
        · rw [if_neg atEmpty, ← condensing.index, (condensing.index id last).mpr at_, Option.some.injEq]
          exact ⟨fun here => absurd here.symm atEmpty, fun there => absurd there.symm atLast⟩
    · rw [if_neg mine, condensing.index]
      split
      · rename_i atLast
        rw [atLast, at_]
        simp only [Option.some.injEq, reduceCtorEq, iff_false]
        exact fun same => mine same.symm
      · split
        · rename_i atEmpty
          rw [atEmpty, wasEmpty]
          simp only [Option.some.injEq, reduceCtorEq, false_iff]
          exact fun same => mine same.symm
        · rfl
  · intro j low
    rw [rows, if_neg (Nat.ne_of_lt low)]
    split
    · rename_i atEmpty
      simp only [Option.some.injEq, reduceCtorEq, false_iff]
      intro hole
      rw [atEmpty] at hole
      exact lt_irrefl _ ((List.pairwise_cons.mp sorted).1 empty hole)
    · rename_i other
      rw [condensing.below j (Nat.lt_succ_of_lt low), List.mem_cons]
      simp [other]
  · intro j high id' there
    rw [rows] at there
    split at there
    · cases there
    · rename_i other
      rw [if_neg (by omega)] at there
      exact condensing.beyond j (by omega) id' there
  · show last ≤ ((s.reqIds.set empty (some id)).set last none).length
    rw [List.length_set, List.length_set]
    omega
  · intro j dead
    have other : j ≠ empty := by
      rintro rfl
      apply dead id
      rw [rows, if_neg (Nat.ne_of_lt less), if_pos rfl]
    by_cases atLast : j = last
    · have apart : last ≠ empty := Nat.ne_of_gt less
      rw [atLast]
      exact ⟨get?_moveKey_source apart, get?_moveKey_source apart, get?_moveKey_source apart⟩
    · have before := condensing.clean j fun id' there => dead id' (by rw [rows, if_neg atLast, if_neg other]; exact there)
      obtain ⟨generators, minTokens, badWords⟩ := before
      refine ⟨?_, ?_, ?_⟩
      · exact (get?_moveKey_other atLast other).trans generators
      · exact (get?_moveKey_other atLast other).trans minTokens
      · exact (get?_moveKey_other atLast other).trans badWords

structure Movable (s : InputBatch) (last empty : ℕ) (id : RequestId) : Prop where
  index : ∀ id i, s.reqIdToIndex.get? id = some i ↔ s.reqIds[i]? = some (some id)
  clean : s.Clean empty
  less : empty < last
  wasEmpty : s.reqIds[empty]? = some none
  at_ : s.reqIds[last]? = some (some id)
  beyond : ∀ i > last, ∀ id, s.reqIds[i]? ≠ some (some id)

/-- What every move of the last request to an empty row keeps, the loop keeps; in the end no row among the
requests is empty. -/
theorem condenseLoop_rule {I : InputBatch → Prop} {u : Unit}
    (each : ∀ v last empty id, I v → Movable v last empty id → I (v.moved last empty id))
    (condensing : Condensing s holes stop) (sorted : holes.Pairwise (· < ·)) (holds : I s)
    (call : condenseLoop holes stop s = .ok u t) : I t ∧ ∃ stop, Condensing t [] stop := by
  induction holes generalizing s stop with
  | nil =>
    cases call
    exact ⟨holds, stop, condensing⟩
  | cons empty rest ih =>
    unfold condenseLoop at call
    dsimp only at call
    obtain ⟨condensing, live⟩ := condensing.skip
    generalize skipEmpty (empty :: rest) stop = stop at condensing live call
    split at call
    · rename_i ended
      cases call
      refine ⟨holds, stop, condensing.index, ?_, condensing.beyond, condensing.inside, condensing.clean⟩
      intro i less
      rw [condensing.below i less]
      simp only [List.not_mem_nil, iff_false]
      intro hole
      have least : empty ≤ i := by
        rcases List.mem_cons.mp hole with rfl | later
        · exact le_refl _
        · exact ((List.pairwise_cons.mp sorted).1 i later).le
      exact live i (by omega) hole
    · rename_i goes
      obtain ⟨last, rfl⟩ : ∃ last, stop = last + 1 := ⟨stop - 1, by omega⟩
      rw [Nat.add_sub_cancel] at call
      obtain ⟨_, v, moved, call⟩ := bind_ok call
      obtain ⟨id, at_, rfl⟩ := moveLast_ok moved
      have less : empty < last := by omega
      have wasEmpty := (condensing.below empty (by omega)).mpr List.mem_cons_self
      apply ih (condensing.move less sorted at_) (List.pairwise_cons.mp sorted).2 _ call
      apply each s last empty id holds
      refine ⟨condensing.index, ?_, less, wasEmpty, at_, condensing.beyond⟩
      apply condensing.clean
      intro id' there
      rw [wasEmpty] at there
      cases there

/-- The rows below `stop` are the requests. -/
theorem Condensing.full (condensing : Condensing s [] stop) :
    Occupied { s with reqIds := s.reqIds.take s.numReqs } [] := by
  have live : ∀ i < stop, ∃ id, s.reqIds[i]? = some (some id) := by
    intro i less
    have inside := less.trans_le condensing.inside
    have full := condensing.below i less
    rw [List.getElem?_eq_getElem inside] at full ⊢
    cases row : s.reqIds[i] with
    | none => simp [row] at full
    | some id => exact ⟨id, rfl⟩
  have count : s.numReqs = stop := by
    apply numReqs_of_live condensing.index condensing.inside
    intro i _
    rw [isLive_iff]
    constructor
    · rintro ⟨id, there⟩
      by_contra high
      exact condensing.beyond i (Nat.le_of_not_lt high) id there
    · exact live i
  have rows : ∀ i, (s.reqIds.take s.numReqs)[i]? = if i < stop then s.reqIds[i]? else none := by
    intro i
    rw [count, List.getElem?_take]
  constructor
  · intro id i
    show s.reqIdToIndex.get? id = some i ↔ (s.reqIds.take s.numReqs)[i]? = some (some id)
    rw [rows, condensing.index]
    split
    · rfl
    · rename_i high
      simp only [reduceCtorEq, iff_false]
      exact condensing.beyond i (Nat.le_of_not_lt high) id
  · intro i
    show (s.reqIds.take s.numReqs)[i]? = some none ↔ _
    rw [rows]
    split
    · rename_i less
      exact condensing.below i less
    · simp
  · exact List.nodup_nil
  · intro i dead
    apply condensing.clean
    intro id there
    have low : i < stop := by
      by_contra high
      exact condensing.beyond i (Nat.le_of_not_lt high) id there
    apply dead id
    show (s.reqIds.take s.numReqs)[i]? = some (some id)
    rw [rows, if_pos low]
    exact there

/-- No request is in a row that `reqIds` does not have. -/
def Cuts (s : InputBatch) (reqIds : List (Option RequestId)) : Prop :=
  ∀ (i : ℕ) (id : RequestId), s.reqIds[i]? = some (some id) → reqIds[i]? = some (some id)

theorem Condensing.cuts (condensing : Condensing s [] stop) : Cuts s (s.reqIds.take s.numReqs) := fun i id there =>
  (condensing.full.index id i).mp ((condensing.index id i).mpr there)

/-- What every move keeps, and cutting off rows without requests, `condense` keeps. -/
theorem condense_rule {I : InputBatch → Prop} {u : Unit}
    (each : ∀ v last empty id, I v → Movable v last empty id → I (v.moved last empty id))
    (cut : ∀ v reqIds, Cuts v reqIds → I v → I { v with reqIds }) (occupied : Occupied s holes) (sorted : holes.Pairwise (· > ·))
    (holds : I s) (call : condense holes s = .ok u t) : I t ∧ Occupied t [] := by
  unfold condense at call
  rw [get_bind] at call
  split at call
  · rename_i none
    cases call
    have absent := Dict.size_eq_zero_iff.mp none
    refine ⟨cut s [] ?_ holds, ?_⟩
    · intro i id there
      rw [← occupied.index, absent] at there
      cases there
    constructor
    · intro id i
      show s.reqIdToIndex.get? id = some i ↔ ([] : List (Option RequestId))[i]? = _
      simp [absent]
    · intro i
      simp
    · exact List.nodup_nil
    · intro i _
      apply occupied.clean
      intro id there
      rw [← occupied.index, absent] at there
      cases there
  · obtain ⟨_, v, loop, call⟩ := bind_ok call
    cases call
    have start : Condensing s holes.reverse (s.numReqs + holes.length) := by
      rw [occupied.total]
      have begun := occupied.condensing
      exact ⟨begun.index, fun i less => (begun.below i less).trans List.mem_reverse.symm, begun.beyond, begun.inside,
        begun.clean⟩
    obtain ⟨kept, stop, ended⟩ := condenseLoop_rule each start (List.pairwise_reverse.mpr sorted) holds loop
    exact ⟨cut v _ ended.cuts kept, ended.full⟩

end InputBatch
end Vllm.V1
