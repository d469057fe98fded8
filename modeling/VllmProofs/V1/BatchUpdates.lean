import VllmProofs.V1.BatchLedger

/-!
`_update_states` as a sequence of changes of single rows. What each of them keeps, it keeps, as long as
no request is new to the runner that has a row.
-/

namespace Vllm.V1
open Exec

namespace SchedulerOutput

def NamesOnce (out : SchedulerOutput) : Prop :=
  out.named.Nodup ∧ (∀ id ∈ out.numScheduledTokens.keys, id ∈ out.named) ∧
    ∀ id ∈ out.named, id ∈ out.numScheduledTokens.keys

instance (out : SchedulerOutput) : Decidable out.NamesOnce :=
  inferInstanceAs (Decidable (_ ∧ (∀ id ∈ _, _) ∧ ∀ id ∈ _, _))

end SchedulerOutput

variable {A : InputBatch → Prop} {ids : List RequestId}

namespace InputBatch

variable {s t : InputBatch} {i j : ℕ} {id : RequestId} {holes : List ℕ}

theorem Occupied.perm {holes' : List ℕ} (occupied : Occupied s holes) (perm : holes'.Perm holes) : Occupied s holes' :=
  ⟨occupied.index, fun i => (occupied.empty i).trans perm.mem_iff.symm, perm.nodup_iff.mpr occupied.nodup, occupied.clean⟩

structure NextRow (s : InputBatch) (i : ℕ) : Prop where
  inside : i ≤ s.reqIds.length
  vacant : ∀ id, s.reqIds[i]? ≠ some (some id)
  first : ∀ j < i, s.reqIds[j]? ≠ some none

theorem Occupied.nextRow (occupied : Occupied s holes) (sorted : holes.Pairwise (· < ·)) :
    NextRow s (holes.head?.getD s.numReqs) := by
  cases holes with
  | nil =>
    have total := occupied.total
    rw [List.length_nil, Nat.add_zero] at total
    rw [List.head?_nil, Option.getD_none, total]
    refine ⟨le_refl _, ?_, ?_⟩
    · intro id there
      rw [List.getElem?_eq_none (le_refl _)] at there
      cases there
    · intro j _ empty
      exact List.not_mem_nil ((occupied.empty j).mp empty)
  | cons hole others =>
    rw [List.head?_cons, Option.getD_some]
    refine ⟨(occupied.hole_inside List.mem_cons_self).le, ?_, ?_⟩
    · intro id there
      rw [(occupied.empty hole).mpr List.mem_cons_self] at there
      cases there
    · intro j before empty
      rcases List.mem_cons.mp ((occupied.empty j).mp empty) with here | later
      · omega
      · have := (List.pairwise_cons.mp sorted).1 j later
        omega

/-- What the removal of one request keeps, the removal of many keeps. -/
theorem removeEach_rule {gone : List ℕ}
    (remove : ∀ v holes i id loras, Occupied v holes → v.reqIdToIndex.get? id = some i → A v →
      A (v.removed i id loras))
    (occupied : Occupied s holes) (holds : A s) (call : removeEach ids s = .ok gone t) :
    A t ∧ (∃ holes', holes'.Perm (gone ++ holes) ∧ Occupied t holes') ∧ SameSizes s t ∧
      ∀ id, t.reqIdToIndex.get? id = if id ∈ ids then none else s.reqIdToIndex.get? id := by
  induction ids generalizing s holes gone with
  | nil =>
    cases call
    exact ⟨holds, ⟨holes, List.Perm.refl _, occupied⟩, SameSizes.refl _, fun id => by simp⟩
  | cons id rest ih =>
    unfold removeEach at call
    obtain ⟨result, v, first, call⟩ := bind_ok call
    obtain ⟨gone', w, others, call⟩ := bind_ok call
    cases call
    rcases removeRequest_ok first with ⟨absent, rfl, rfl⟩ | ⟨i, loras, found, rfl, rfl⟩
    · obtain ⟨holds', holes', sizes, index⟩ := ih occupied holds others
      refine ⟨holds', holes', sizes, fun id' => ?_⟩
      rw [index]
      by_cases mine : id' = id
      · simp [mine, absent]
      · simp [mine]
    · obtain ⟨holds', ⟨holes', perm, occupied'⟩, sizes, index⟩ :=
        ih (occupied.remove found) (remove _ _ _ _ _ occupied found holds) others
      have begun : SameSizes s (s.removed i id loras) := ⟨rfl, rfl, rfl, rfl⟩
      refine ⟨holds', ⟨holes', ?_, occupied'⟩, begun.trans sizes, fun id' => ?_⟩
      · apply perm.trans
        rw [Option.toList_some, List.singleton_append, List.cons_append]
        exact List.perm_middle
      · have erased : (s.removed i id loras).reqIdToIndex.get? id' = if id' = id then none else s.reqIdToIndex.get? id' :=
          Dict.get?_erase _ _ _
        rw [index, erased]
        by_cases mine : id' = id
        · simp [mine]
        · simp [mine]

theorem live_moved {P : RequestId → Prop} {last empty : ℕ} (live : ∀ id, (s.reqIdToIndex.get? id).isSome ↔ P id)
    (movable : Movable s last empty id) : ∀ id', ((s.moved last empty id).reqIdToIndex.get? id').isSome ↔ P id' := by
  intro id'
  have inserted : (s.moved last empty id).reqIdToIndex = s.reqIdToIndex.insert id empty := rfl
  rw [← live, inserted, Dict.get?_insert]
  split
  · rename_i mine
    rw [mine, (movable.index id last).mpr movable.at_]
    exact Iff.rfl
  · exact Iff.rfl

end InputBatch

namespace GPUModelRunner
open InputBatch

variable {r r' : GPUModelRunner} {out : SchedulerOutput} {holes : List ℕ} {id : RequestId}

/-- The state of a request is kept under its id. -/
def Known (r : GPUModelRunner) : Prop := ∀ id state, r.requests.get? id = some state → state.reqId = id

theorem Known.insert (state : CachedRequestState) (known : r.Known)
    (requests : r'.requests = r.requests.insert state.reqId state) : r'.Known := by
  intro id state' found
  rw [requests, Dict.get?_insert] at found
  split at found
  · rename_i mine
    cases found
    exact mine.symm
  · exact known id state' found

/-- A request that is new to the runner has no row, when the finished ones have been removed. -/
def Fresh (r : GPUModelRunner) (out : SchedulerOutput) : Prop :=
  ∀ data ∈ out.scheduledNewReqs, r.inputBatch.reqIdToIndex.get? data.reqId = none ∨ data.reqId ∈ out.finishedReqIds

instance (r : GPUModelRunner) (out : SchedulerOutput) : Decidable (r.Fresh out) :=
  inferInstanceAs (Decidable (∀ data ∈ _, _ ∨ _))

theorem addNew_keeps (known : r.Known) (data : NewRequestData) :
    (r.addNew data).Known ∧ (r.addNew data).inputBatch = r.inputBatch := by
  unfold addNew
  split
  · refine ⟨known.insert (data.toState (some r.numGenerators)) ?_, rfl⟩
    rfl
  · refine ⟨known.insert (data.toState none) ?_, rfl⟩
    rfl

theorem addAllNew_keeps (known : r.Known) (list : List NewRequestData) :
    (list.foldl addNew r).Known ∧ (list.foldl addNew r).inputBatch = r.inputBatch := by
  induction list generalizing r with
  | nil => exact ⟨known, rfl⟩
  | cons data rest ih =>
    obtain ⟨known', same⟩ := addNew_keeps known data
    obtain ⟨known'', same'⟩ := ih known'
    exact ⟨known'', same'.trans same⟩

theorem get?_foldl_erase {V : Type} {d : Dict RequestId V} :
    (ids.foldl Dict.erase d).get? id = if id ∈ ids then none else d.get? id := by
  induction ids generalizing d with
  | nil => simp
  | cons id' rest ih =>
    rw [List.foldl_cons, ih, Dict.get?_erase]
    by_cases mine : id = id'
    · simp [mine]
    · simp [mine]

theorem Known.forget (known : r.Known) (ids : List RequestId) : (r.forget ids).Known := by
  intro id state found
  unfold GPUModelRunner.forget at found
  dsimp only at found
  rw [get?_foldl_erase] at found
  split at found
  · cases found
  · exact known id state found

variable {I : List CachedRequestData → InputBatch → Prop} {list : List CachedRequestData}

/-- The requests that were scheduled before are written to their rows, or wait for one. -/
theorem updateCached_rule {absent : List RequestId}
    (row : ∀ v holes data rest i, Occupied v holes → v.reqIdToIndex.get? data.reqId = some i → I (data :: rest) v →
      I rest (v.rowUpdated i data (out.draftsOf data.reqId)))
    (skip : ∀ v data rest, v.reqIdToIndex.get? data.reqId = none → I (data :: rest) v → I rest v)
    (known : r.Known) (occupied : Occupied r.inputBatch holes) (holds : I list r.inputBatch)
    (call : updateCached out list r = .ok absent r') :
    I [] r'.inputBatch ∧ r'.Known ∧ Occupied r'.inputBatch holes ∧ SameSizes r.inputBatch r'.inputBatch ∧
      r'.inputBatch.reqIdToIndex = r.inputBatch.reqIdToIndex ∧
      absent = (list.map CachedRequestData.reqId).filter fun id => (r.inputBatch.reqIdToIndex.get? id).isNone := by
  induction list generalizing r absent with
  | nil =>
    cases call
    exact ⟨holds, known, occupied, SameSizes.refl _, rfl, rfl⟩
  | cons data rest ih =>
    unfold updateCached at call
    rw [get_bind] at call
    obtain ⟨state, _, got, call⟩ := bind_ok call
    obtain ⟨found, rfl⟩ := getItem_ok got
    rw [set_bind] at call
    have known' : ({ r with requests := r.requests.insert data.reqId (state.update data) } : GPUModelRunner).Known := by
      apply known.insert (state.update data)
      show _ = r.requests.insert state.reqId _
      rw [known _ _ found]
    cases index : r.inputBatch.reqIdToIndex.get? data.reqId with
    | none =>
      rw [index] at call
      obtain ⟨others, v, call, last⟩ := bind_ok call
      cases last
      obtain ⟨holds', known'', occupied', sizes, same, rfl⟩ := ih known' occupied (skip _ data rest index holds) call
      refine ⟨holds', known'', occupied', sizes, same, ?_⟩
      rw [List.map_cons, List.filter_cons_of_pos (by rw [index]; rfl)]
    | some i =>
      rw [index] at call
      obtain ⟨_, v, written, call⟩ := bind_ok call
      obtain ⟨b, updated, rfl⟩ := zoom_ok written
      change InputBatch.updateRow i data (out.draftsOf data.reqId) r.inputBatch = _ at updated
      have rows := updateRow_ok updated
      subst rows
      have occupied' : Occupied (r.inputBatch.rowUpdated i data (out.draftsOf data.reqId)) holes :=
        ⟨occupied.index, occupied.empty, occupied.nodup, occupied.clean⟩
      obtain ⟨holds', known'', occupied'', sizes, same, rfl⟩ :=
        ih (r := { r with
          requests := r.requests.insert data.reqId (state.update data)
          inputBatch := r.inputBatch.rowUpdated i data (out.draftsOf data.reqId) }) known' occupied'
          (row _ holes data rest i occupied index holds) call
      have begun : SameSizes r.inputBatch (r.inputBatch.rowUpdated i data (out.draftsOf data.reqId)) :=
        ⟨rfl, rfl, rfl, rfl⟩
      refine ⟨holds', known'', occupied'', begun.trans sizes, same, ?_⟩
      rw [List.map_cons, List.filter_cons_of_neg (by rw [index]; nofun)]
      rfl

/-- Requests are added to empty rows, or behind the others. -/
theorem addEach_rule {left : List ℕ}
    (add : ∀ v holes i state, state.reqId ∈ ids → Occupied v holes → NextRow v i →
      v.reqIdToIndex.get? state.reqId = none → r.requests.get? state.reqId = some state → A v → A (v.added i state))
    (known : r.Known) (occupied : Occupied r.inputBatch holes) (sorted : holes.Pairwise (· < ·)) (nodup : ids.Nodup)
    (unused : ∀ id ∈ ids, r.inputBatch.reqIdToIndex.get? id = none) (holds : A r.inputBatch)
    (call : addEach ids holes r = .ok left r') :
    A r'.inputBatch ∧ r'.requests = r.requests ∧ Occupied r'.inputBatch left ∧ left.Sublist holes ∧
      SameSizes r.inputBatch r'.inputBatch ∧ ∀ id, (r'.inputBatch.reqIdToIndex.get? id).isSome ↔
        id ∈ ids ∨ (r.inputBatch.reqIdToIndex.get? id).isSome := by
  induction ids generalizing r holes with
  | nil =>
    cases call
    exact ⟨holds, rfl, occupied, List.Sublist.refl _, SameSizes.refl _, fun id => by simp⟩
  | cons id rest ih =>
    unfold addEach at call
    rw [get_bind] at call
    obtain ⟨state, _, got, call⟩ := bind_ok call
    obtain ⟨found, rfl⟩ := getItem_ok got
    obtain ⟨_, v, added, call⟩ := bind_ok call
    obtain ⟨b, inner, rfl⟩ := zoom_ok added
    change InputBatch.addRequest state holes.head? r.inputBatch = _ at inner
    obtain ⟨-, -, rfl⟩ := addRequest_ok inner
    have named := known id state found
    have mine := unused id List.mem_cons_self
    rw [← named] at mine
    obtain ⟨apart, nodup'⟩ := List.nodup_cons.mp nodup
    have next := occupied.nextRow sorted
    have occupied' : Occupied (r.inputBatch.added (holes.head?.getD r.inputBatch.numReqs) state) holes.tail := by
      cases holes with
      | nil => exact occupied.append mine
      | cons hole others => exact occupied.fill mine
    have index : ∀ id', (r.inputBatch.added (holes.head?.getD r.inputBatch.numReqs) state).reqIdToIndex.get? id' =
        if id' = id then some (holes.head?.getD r.inputBatch.numReqs) else r.inputBatch.reqIdToIndex.get? id' := by
      intro id'
      rw [added_reqIdToIndex, Dict.get?_insert, named]
    have unused' : ∀ id' ∈ rest, (r.inputBatch.added (holes.head?.getD r.inputBatch.numReqs) state).reqIdToIndex.get? id' =
        none := by
      intro id' member
      rw [index, if_neg]
      · exact unused id' (List.mem_cons_of_mem _ member)
      · rintro rfl
        exact apart member
    obtain ⟨holds', requests, occupied'', fewer, sizes, live⟩ :=
      ih (r := { r with inputBatch := r.inputBatch.added (holes.head?.getD r.inputBatch.numReqs) state })
        (fun v holes i state member => add v holes i state (List.mem_cons_of_mem _ member)) known occupied'
        (sorted.sublist (List.tail_sublist holes)) nodup' unused'
        (add _ holes _ state (by rw [named]; exact List.mem_cons_self) occupied next mine
          (by rw [named]; exact found) holds) call
    refine ⟨holds', requests, occupied'', fewer.trans (List.tail_sublist holes),
      (sameSizes_added _ _ _).trans sizes, fun id' => ?_⟩
    rw [live, index, List.mem_cons]
    by_cases here : id' = id
    · simp [here]
    · simp [here]

/-- What the first half of an update leaves of the batch: the rows of the requests that go on. -/
theorem removals_rule {s v t : InputBatch} {finished unscheduled : List ℕ}
    (remove : ∀ v holes i id loras, Occupied v holes → v.reqIdToIndex.get? id = some i → A v →
      A (v.removed i id loras))
    (occupied : Occupied s []) (holds : A s) (first : removeEach out.finishedReqIds s = .ok finished v)
    (second : removeUnscheduled out.numScheduledTokens v = .ok unscheduled t) :
    A t ∧ (∃ holes, holes.Perm (finished ++ unscheduled) ∧ Occupied t holes) ∧ SameSizes s t ∧
      ∀ id, t.reqIdToIndex.get? id =
        if id ∈ out.numScheduledTokens.keys ∧ id ∉ out.finishedReqIds then s.reqIdToIndex.get? id else none := by
  obtain ⟨holds, ⟨holes, perm, occupied⟩, sizes, index⟩ := removeEach_rule remove occupied holds first
  unfold removeUnscheduled at second
  rw [get_bind] at second
  obtain ⟨holds, ⟨holes', perm', occupied⟩, sizes', index'⟩ := removeEach_rule remove occupied holds second
  refine ⟨holds, ⟨holes', ?_, occupied⟩, sizes.trans sizes', fun id => ?_⟩
  · rw [List.append_nil] at perm
    exact (perm'.trans (perm.append_left unscheduled)).trans List.perm_append_comm
  · have gone : id ∈ (v.reqIdToIndex.keys.filter fun reqId => reqId ∉ out.numScheduledTokens.keys) ↔
        (∃ i, v.reqIdToIndex.get? id = some i) ∧ id ∉ out.numScheduledTokens.keys := by
      rw [List.mem_filter, decide_eq_true_eq, Dict.mem_keys_iff]
    rw [index']
    by_cases scheduled : id ∈ out.numScheduledTokens.keys
    · rw [if_neg (fun there => (gone.mp there).2 scheduled), index]
      by_cases ended : id ∈ out.finishedReqIds
      · simp [ended]
      · simp [ended, scheduled]
    · rw [if_neg (fun both : _ ∧ _ => scheduled both.1)]
      cases row : v.reqIdToIndex.get? id with
      | none => exact ite_self none
      | some i => exact if_pos (gone.mpr ⟨⟨i, row⟩, scheduled⟩)

/-- What is kept by each change of a row that an update makes is kept by the update: `A` until the rows of the
requests that go on are left, `I` while these are written and others added, `J` while rows move together. -/
theorem updateStates_rule {J : InputBatch → Prop} {u : Unit}
    (remove : ∀ v holes i id loras, Occupied v holes → v.reqIdToIndex.get? id = some i → A v →
      A (v.removed i id loras))
    (start : ∀ v, A v → (∀ id, v.reqIdToIndex.get? id =
        if id ∈ out.numScheduledTokens.keys ∧ id ∉ out.finishedReqIds then r.inputBatch.reqIdToIndex.get? id else none) →
      I out.scheduledCachedReqs v)
    (row : ∀ v holes data rest i, Occupied v holes → v.reqIdToIndex.get? data.reqId = some i → I (data :: rest) v →
      I rest (v.rowUpdated i data (out.draftsOf data.reqId)))
    (skip : ∀ v data rest, v.reqIdToIndex.get? data.reqId = none → I (data :: rest) v → I rest v)
    (add : ∀ v holes i state, state.reqId ∈ out.numScheduledTokens.keys → Occupied v holes →
      NextRow v i → v.reqIdToIndex.get? state.reqId = none →
      r'.requests.get? state.reqId = some state → I [] v → I [] (v.added i state))
    (settle : ∀ v, I [] v → J v)
    (move : ∀ v last empty id, J v → (∀ id, (v.reqIdToIndex.get? id).isSome ↔ id ∈ out.numScheduledTokens.keys) →
      Movable v last empty id → J (v.moved last empty id))
    (cut : ∀ v reqIds, Cuts v reqIds → J v → J { v with reqIds })
    (names : out.NamesOnce) (fresh : r.Fresh out) (known : r.Known) (occupied : Occupied r.inputBatch [])
    (holds : A r.inputBatch) (call : updateStates out r = .ok u r') :
    J r'.inputBatch ∧ Occupied r'.inputBatch [] ∧ r'.Known ∧
      ∀ id, (r'.inputBatch.reqIdToIndex.get? id).isSome ↔ id ∈ out.numScheduledTokens.keys := by
  obtain ⟨nodup, covers, within⟩ := names
  unfold updateStates at call
  rw [modify_bind] at call
  obtain ⟨finished, _, removed, call⟩ := bind_ok call
  obtain ⟨v, first, rfl⟩ := zoom_ok removed
  rw [modify_bind] at call
  obtain ⟨unscheduled, _, removed, call⟩ := bind_ok call
  obtain ⟨w, second, rfl⟩ := zoom_ok removed
  rw [modify_bind] at call
  obtain ⟨holds, ⟨holes, perm, occupied⟩, sizes, index⟩ := removals_rule remove occupied holds first second
  have known₁ : (r.forget out.finishedReqIds).Known := known.forget _
  generalize hr₁ : ({ freeEncoderInputs out.freeEncoderInputIds { r.forget out.finishedReqIds with inputBatch := v } with
    inputBatch := w } : GPUModelRunner) = r₁ at call
  have batch₁ : r₁.inputBatch = w := by rw [← hr₁]
  replace known₁ : r₁.Known := by
    rw [← hr₁]
    exact known₁
  obtain ⟨known₂, batch₂⟩ := addAllNew_keeps known₁ out.scheduledNewReqs
  rw [batch₁] at batch₂
  generalize out.scheduledNewReqs.foldl addNew r₁ = r₂ at call known₂ batch₂
  rw [← batch₂] at occupied index holds
  obtain ⟨absent, r₃, updates, call⟩ := bind_ok call
  obtain ⟨holds, known₃, occupied, -, index₃, rfl⟩ := updateCached_rule row skip known₂ occupied (start _ holds index) updates
  rw [← index₃] at index
  have sorted : ((finished ++ unscheduled).insertionSort (· ≤ ·)).Perm holes :=
    (List.perm_insertionSort _ _).trans perm.symm
  have occupied := occupied.perm sorted
  have ascending := ((List.pairwise_insertionSort (· ≤ ·) (finished ++ unscheduled)).and occupied.nodup).imp
    fun both => lt_of_le_of_ne both.1 both.2
  obtain ⟨left, r₄, adds, call⟩ := bind_ok call
  generalize hids : out.scheduledNewReqs.map NewRequestData.reqId ++ (out.scheduledCachedReqs.map
    CachedRequestData.reqId).filter (fun id => (r₂.inputBatch.reqIdToIndex.get? id).isNone) = ids at adds
  have among : ids.Sublist out.named := by
    rw [← hids]
    exact (List.Sublist.refl _).append List.filter_sublist
  have unused : ∀ id ∈ ids, r₃.inputBatch.reqIdToIndex.get? id = none := by
    intro id member
    rw [← hids] at member
    rcases List.mem_append.mp member with new | absent
    · obtain ⟨data, listed, rfl⟩ := List.mem_map.mp new
      rw [index]
      split
      · rename_i kept
        exact (fresh data listed).resolve_right kept.2
      · rfl
    · rw [index₃]
      exact Option.isNone_iff_eq_none.mp (List.mem_filter.mp absent).2
  have requests : r'.requests = r₃.requests := by
    obtain ⟨-, same, -⟩ := addEach_rule (A := fun _ => True) (fun _ _ _ _ _ _ _ _ _ _ => trivial) known₃ occupied
      ascending (nodup.sublist among) unused trivial adds
    rw [← same]
    split at call
    · obtain ⟨b, -, rfl⟩ := zoom_ok call
      rfl
    · cases call
      rfl
  rw [requests] at add
  obtain ⟨holds, same, occupied, fewer, -, live⟩ := addEach_rule (A := I [])
    (fun v holes i state member => add v holes i state (within _ (among.subset member))) known₃ occupied
    ascending (nodup.sublist among) unused holds adds
  have known₄ : r₄.Known := by
    intro id state found
    rw [same] at found
    exact known₃ id state found
  have scheduled : ∀ id, (r₄.inputBatch.reqIdToIndex.get? id).isSome ↔ id ∈ out.numScheduledTokens.keys := by
    intro id
    rw [live]
    constructor
    · rintro (added | kept)
      · exact within id (among.subset added)
      · rw [index] at kept
        split at kept
        · rename_i both
          exact both.1
        · cases kept
    · intro key
      rw [← hids, index₃, List.mem_append]
      rcases List.mem_append.mp (covers id key) with new | cached
      · exact .inl (.inl new)
      · cases row : r₂.inputBatch.reqIdToIndex.get? id with
        | none => exact .inl (.inr (List.mem_filter.mpr ⟨cached, by rw [row]; rfl⟩))
        | some i => exact .inr rfl
  split at call
  · obtain ⟨b, condensed, rfl⟩ := zoom_ok call
    have descending := List.pairwise_reverse.mpr (ascending.sublist fewer)
    obtain ⟨⟨holds, scheduled⟩, occupied⟩ := condense_rule
      (I := fun v => J v ∧ ∀ id, (v.reqIdToIndex.get? id).isSome ↔ id ∈ out.numScheduledTokens.keys)
      (fun v last empty id kept movable => ⟨move v last empty id kept.1 kept.2 movable, live_moved kept.2 movable⟩)
      (fun v reqIds cuts kept => ⟨cut v reqIds cuts kept.1, kept.2⟩)
      (occupied.perm (List.reverse_perm left)) descending ⟨settle _ holds, scheduled⟩ condensed
    exact ⟨holds, occupied, known₄, scheduled⟩
  · rename_i none
    cases call
    rw [not_not.mp none] at occupied
    exact ⟨settle _ holds, occupied, known₄, scheduled⟩

/-! ### What stays of a request -/

/-- The sampling parameters of the requests the runner knows. -/
def paramsOf (r : GPUModelRunner) (id : RequestId) : Option SamplingParams :=
  (r.requests.get? id).map CachedRequestState.samplingParams

theorem paramsOf_addAllNew {list : List NewRequestData} (old : id ∉ list.map NewRequestData.reqId) :
    (list.foldl addNew r).paramsOf id = r.paramsOf id := by
  induction list generalizing r with
  | nil => rfl
  | cons data rest ih =>
    rw [List.map_cons, List.mem_cons, not_or] at old
    rw [List.foldl_cons, ih old.2]
    unfold paramsOf addNew
    split
    · rw [Dict.get?_insert, if_neg old.1]
    · rw [Dict.get?_insert, if_neg old.1]

theorem paramsOf_updateCached {absent : List RequestId}
    (call : updateCached out list r = .ok absent r') : r'.paramsOf id = r.paramsOf id := by
  induction list generalizing r absent with
  | nil =>
    cases call
    rfl
  | cons data rest ih =>
    unfold updateCached at call
    rw [get_bind] at call
    obtain ⟨state, _, got, call⟩ := bind_ok call
    obtain ⟨found, rfl⟩ := getItem_ok got
    rw [set_bind] at call
    have same : ∀ batch, ({ r with
        requests := r.requests.insert data.reqId (state.update data)
        inputBatch := batch } : GPUModelRunner).paramsOf id = r.paramsOf id := by
      intro batch
      unfold paramsOf
      rw [Dict.get?_insert]
      split
      · rename_i mine
        rw [mine, found]
        rfl
      · rfl
    cases index : r.inputBatch.reqIdToIndex.get? data.reqId with
    | none =>
      rw [index] at call
      obtain ⟨others, _, call, last⟩ := bind_ok call
      cases last
      exact (ih call).trans (same _)
    | some i =>
      rw [index] at call
      obtain ⟨_, _, written, call⟩ := bind_ok call
      obtain ⟨b, -, rfl⟩ := zoom_ok written
      exact (ih call).trans (same b)

theorem requests_addEach {left : List ℕ} (call : addEach ids holes r = .ok left r') :
    r'.requests = r.requests := by
  induction ids generalizing r holes with
  | nil =>
    cases call
    rfl
  | cons id rest ih =>
    unfold addEach at call
    rw [get_bind] at call
    obtain ⟨state, _, got, call⟩ := bind_ok call
    obtain ⟨-, rfl⟩ := getItem_ok got
    obtain ⟨_, _, added, call⟩ := bind_ok call
    obtain ⟨b, -, rfl⟩ := zoom_ok added
    exact (ih call : _ = ({ r with inputBatch := b } : GPUModelRunner).requests)

theorem paramsOf_updateStates {u : Unit} (call : updateStates out r = .ok u r') (goesOn : id ∉ out.finishedReqIds)
    (old : id ∉ out.scheduledNewReqs.map NewRequestData.reqId) : r'.paramsOf id = r.paramsOf id := by
  unfold updateStates at call
  rw [modify_bind] at call
  obtain ⟨finished, _, removed, call⟩ := bind_ok call
  obtain ⟨v, -, rfl⟩ := zoom_ok removed
  rw [modify_bind] at call
  obtain ⟨unscheduled, _, removed, call⟩ := bind_ok call
  obtain ⟨w, -, rfl⟩ := zoom_ok removed
  rw [modify_bind] at call
  obtain ⟨absent, r₃, updates, call⟩ := bind_ok call
  obtain ⟨left, r₄, adds, call⟩ := bind_ok call
  have last : r'.requests = r₄.requests := by
    split at call
    · obtain ⟨b, -, rfl⟩ := zoom_ok call
      rfl
    · cases call
      rfl
  have forgotten : (r.forget out.finishedReqIds).paramsOf id = r.paramsOf id := by
    unfold paramsOf GPUModelRunner.forget
    rw [get?_foldl_erase, if_neg goesOn]
  calc r'.paramsOf id = r₃.paramsOf id := by
        unfold paramsOf
        rw [last, requests_addEach adds]
    _ = _ := paramsOf_updateCached updates
    _ = _ := paramsOf_addAllNew old
    _ = r.paramsOf id := forgotten

end GPUModelRunner
end Vllm.V1
