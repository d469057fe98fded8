import VllmProofs.AsyncEngine.RequestTracker

/-!
Runs of a `RequestTracker`: which streams can be reached, and which requests a poll cancels and reports.
-/

namespace Vllm.AsyncEngine

variable {requestId : RequestId}

namespace RequestTracker

variable {t : RequestTracker} {ref : StreamRef} {waiting rest : List StreamRef}

/-- The streams that are not finished are those registered and those waiting, each under an id of its own. -/
structure Registry (t : RequestTracker) (waiting : List StreamRef) : Prop where
  registered : ∀ requestId ref, t.requestStreams.get? requestId = some ref →
    t.Unfinished ref ∧ (t.streams ref).requestId = requestId
  waits : ∀ ref ∈ waiting, t.Unfinished ref ∧ t.requestStreams.get? (t.streams ref).requestId = none
  distinct : (waiting.map fun ref => (t.streams ref).requestId).Nodup
  reachable : ∀ ref, t.Unfinished ref →
    t.requestStreams.get? (t.streams ref).requestId = some ref ∨ ref ∈ waiting

theorem Registry.unique {ref' : StreamRef} (registry : t.Registry waiting) (unfinished : t.Unfinished ref)
    (unfinished' : t.Unfinished ref') (same : (t.streams ref).requestId = (t.streams ref').requestId) : ref = ref' := by
  rcases registry.reachable ref unfinished with found | member
  · rcases registry.reachable ref' unfinished' with found' | member'
    · rw [same, found'] at found
      exact (Option.some.inj found).symm
    · rw [same, (registry.waits ref' member').2] at found
      cases found
  · rcases registry.reachable ref' unfinished' with found' | member'
    · rw [← same, (registry.waits ref member).2] at found'
      cases found'
    · exact List.inj_on_of_nodup_map registry.distinct member member' same

/-! ### Changes of a stream -/

@[simp] theorem onStream_numStreams (f : AsyncStream → AsyncStream) : (t.onStream ref f).numStreams = t.numStreams := rfl

@[simp] theorem onStream_requestStreams (f : AsyncStream → AsyncStream) :
    (t.onStream ref f).requestStreams = t.requestStreams := rfl

theorem onStream_streams (f : AsyncStream → AsyncStream) (ref' : StreamRef) :
    (t.onStream ref f).streams ref' = if ref' = ref then f (t.streams ref) else t.streams ref' :=
  Function.update_apply _ _ _ _

variable {f : AsyncStream → AsyncStream}

theorem requestId_onStream (same : ∀ s, (f s).requestId = s.requestId)
    (ref' : StreamRef) : ((t.onStream ref f).streams ref').requestId = (t.streams ref').requestId := by
  rw [onStream_streams]
  split
  · rename_i here
    rw [here, same]
  · rfl

variable {t' : RequestTracker}

/-- A stream is finished that is taken out of the register, or from the waiting ones. -/
theorem Registry.finish (registry : t.Registry waiting)
    (same : ∀ s, (f s).requestId = s.requestId) (finished : ∀ s, (f s).finished = true)
    (shorter : rest.Sublist waiting) (gone : ∀ ref' ∈ waiting, ref' ≠ ref → ref' ∈ rest) (left : ref ∉ rest)
    (streams : t'.streams = (t.onStream ref f).streams) (numStreams : t'.numStreams = t.numStreams)
    (smaller : ∀ requestId ref', t'.requestStreams.get? requestId = some ref' →
      t.requestStreams.get? requestId = some ref' ∧ ref' ≠ ref)
    (kept : ∀ requestId ref', t.requestStreams.get? requestId = some ref' → ref' ≠ ref →
      t'.requestStreams.get? requestId = some ref') : t'.Registry rest := by
  have requestId : ∀ ref', (t'.streams ref').requestId = (t.streams ref').requestId := by
    intro ref'
    rw [streams]
    exact requestId_onStream same ref'
  have unfinished : ∀ ref', t'.Unfinished ref' ↔ t.Unfinished ref' ∧ ref' ≠ ref := by
    intro ref'
    unfold Unfinished
    rw [streams, numStreams, onStream_streams]
    split
    · rename_i here
      rw [finished]
      exact ⟨fun both => absurd both.2 (by decide), fun both => absurd here both.2⟩
    · rename_i other
      exact ⟨fun both => ⟨both, other⟩, And.left⟩
  constructor
  · intro id ref' found
    obtain ⟨before, other⟩ := smaller id ref' found
    rw [unfinished, requestId]
    exact ⟨⟨(registry.registered id ref' before).1, other⟩, (registry.registered id ref' before).2⟩
  · intro ref' member
    have before := registry.waits ref' (shorter.subset member)
    have other : ref' ≠ ref := fun here => left (here ▸ member)
    rw [unfinished, requestId]
    refine ⟨⟨before.1, other⟩, ?_⟩
    cases found : t'.requestStreams.get? (t.streams ref').requestId with
    | none => rfl
    | some ref'' =>
      rw [(smaller _ _ found).1] at before
      cases before.2
  · simp only [requestId]
    exact registry.distinct.sublist (shorter.map _)
  · intro ref' open_
    rw [requestId]
    obtain ⟨before, other⟩ := (unfinished ref').mp open_
    rcases registry.reachable ref' before with found | member
    · exact Or.inl (kept _ _ found other)
    · exact Or.inr (gone ref' member other)

/-! ### `get_new_and_aborted_requests` -/

theorem Registry.cancel (registry : t.Registry (ref :: rest)) :
    (t.onStream ref fun s => s.finish true).Registry rest := by
  have absent : ref ∉ rest := fun member =>
    (List.nodup_cons.mp registry.distinct).1 (List.mem_map.mpr ⟨ref, member, rfl⟩)
  apply registry.finish (f := fun s => s.finish true)
  · exact fun s => s.requestId_finish true
  · exact fun s => s.finished_finish true
  · exact List.sublist_cons_self _ _
  · exact fun ref' member other => (List.mem_cons.mp member).resolve_left other
  · exact absent
  · rfl
  · rfl
  · rintro id ref' found
    refine ⟨found, ?_⟩
    rintro rfl
    have unused := (registry.waits ref' List.mem_cons_self).2
    change t.requestStreams.get? id = some ref' at found
    rw [(registry.registered id ref' found).2, found] at unused
    cases unused
  · exact fun _ _ found _ => found

theorem Registry.register (registry : t.Registry (ref :: rest)) :
    Registry { t with requestStreams := t.requestStreams.insert (t.streams ref).requestId ref } rest := by
  obtain ⟨first, others⟩ := List.nodup_cons.mp registry.distinct
  constructor
  · intro id ref' found
    change (t.requestStreams.insert _ ref).get? id = some ref' at found
    rw [Dict.get?_insert] at found
    split at found
    · rename_i here
      cases found
      exact ⟨(registry.waits ref List.mem_cons_self).1, here.symm⟩
    · exact registry.registered id ref' found
  · intro ref' member
    refine ⟨(registry.waits ref' (List.mem_cons_of_mem _ member)).1, ?_⟩
    show (t.requestStreams.insert _ ref).get? _ = none
    rw [Dict.get?_insert_ne fun same => first (List.mem_map.mpr ⟨ref', member, same⟩)]
    exact (registry.waits ref' (List.mem_cons_of_mem _ member)).2
  · exact others
  · intro ref' unfinished
    show (t.requestStreams.insert _ ref).get? (t.streams ref').requestId = some ref' ∨ _
    rcases registry.reachable ref' unfinished with found | member
    · refine Or.inl ?_
      rw [Dict.get?_insert_ne]
      · exact found
      · intro same
        rw [same, (registry.waits ref List.mem_cons_self).2] at found
        cases found
    · rcases List.mem_cons.mp member with rfl | later
      · exact Or.inl (Dict.get?_insert_self _ _ _)
      · exact Or.inr later

variable {poll : Poll}

theorem Registry.registerEach (registry : t.Registry waiting) :
    (registerEach waiting (t, poll)).1.Registry [] := by
  induction waiting generalizing t poll with
  | nil => exact registry
  | cons ref rest ih =>
    unfold RequestTracker.registerEach
    dsimp only
    split
    · exact ih registry.cancel
    · exact ih registry.register

theorem registerEach_frame : (registerEach waiting (t, poll)).1.numStreams = t.numStreams ∧
    (registerEach waiting (t, poll)).1.newRequests = t.newRequests ∧
      (registerEach waiting (t, poll)).1.abortedRequests = t.abortedRequests := by
  induction waiting generalizing t poll with
  | nil => exact ⟨rfl, rfl, rfl⟩
  | cons ref rest ih =>
    unfold registerEach
    dsimp only
    split
    · exact ih
    · exact ih

theorem registerEach_cancelled {ref : StreamRef}
    (member : ref ∈ (registerEach waiting (t, poll)).2.cancelled) :
    ref ∈ poll.cancelled ∨ ref ∈ waiting ∧ (t.streams ref).requestId ∈ poll.finishedRequests := by
  induction waiting generalizing t poll with
  | nil => exact Or.inl member
  | cons ref' rest ih =>
    unfold registerEach at member
    dsimp only at member
    split at member
    · rename_i aborted
      rcases ih member with earlier | ⟨waits, listed⟩
      · rcases List.mem_append.mp earlier with before | now
        · exact Or.inl before
        · rw [List.mem_singleton.mp now]
          exact Or.inr ⟨List.mem_cons_self, aborted⟩
      · rw [requestId_onStream fun s => s.requestId_finish true] at listed
        exact Or.inr ⟨List.mem_cons_of_mem _ waits, List.mem_of_mem_erase listed⟩
    · rcases ih member with earlier | ⟨waits, listed⟩
      · exact Or.inl earlier
      · exact Or.inr ⟨List.mem_cons_of_mem _ waits, listed⟩

theorem registerEach_finishedRequests
    (listed : requestId ∈ poll.finishedRequests) (free : ∀ ref ∈ waiting, (t.streams ref).requestId ≠ requestId) :
    requestId ∈ (registerEach waiting (t, poll)).2.finishedRequests := by
  induction waiting generalizing t poll with
  | nil => exact listed
  | cons ref rest ih =>
    unfold registerEach
    dsimp only
    split
    · apply ih
      · exact (List.mem_erase_of_ne (Ne.symm (free ref List.mem_cons_self))).mpr listed
      · intro ref' member
        rw [requestId_onStream fun s => s.requestId_finish true]
        exact free ref' (List.mem_cons_of_mem _ member)
    · exact ih listed fun ref' member => free ref' (List.mem_cons_of_mem _ member)

/-! ### The other methods -/

section
variable (registry : t.Registry waiting)
include registry

theorem Registry.not_waiting
    (found : t.requestStreams.get? requestId = some ref) : ref ∉ waiting := by
  intro member
  have unused := (registry.waits ref member).2
  rw [(registry.registered requestId ref found).2, found] at unused
  cases unused

theorem Registry.leave
    (found : t.requestStreams.get? requestId = some ref) (same : ∀ s, (f s).requestId = s.requestId)
    (finished : ∀ s, (f s).finished = true) :
    Registry ({ t with requestStreams := t.requestStreams.erase requestId }.onStream ref f) waiting := by
  apply registry.finish same finished (List.Sublist.refl _) (fun _ member _ => member) (registry.not_waiting found)
  · rfl
  · rfl
  · intro id ref' there
    change (t.requestStreams.erase requestId).get? id = some ref' at there
    rw [Dict.get?_erase] at there
    split at there
    · cases there
    · rename_i other
      refine ⟨there, ?_⟩
      rintro rfl
      exact other ((registry.registered id ref' there).2.symm.trans (registry.registered requestId ref' found).2)
  · intro id ref' there other
    show (t.requestStreams.erase requestId).get? id = some ref'
    rw [Dict.get?_erase_ne]
    · exact there
    · rintro rfl
      rw [found] at there
      exact other (Option.some.inj there).symm

theorem Registry.carry (numStreams : t'.numStreams = t.numStreams)
    (requestStreams : ∀ requestId, t'.requestStreams.get? requestId = t.requestStreams.get? requestId)
    (requestId : ∀ ref, (t'.streams ref).requestId = (t.streams ref).requestId)
    (finished : ∀ ref, (t'.streams ref).finished = (t.streams ref).finished) : t'.Registry waiting := by
  have unfinished : ∀ ref, t'.Unfinished ref ↔ t.Unfinished ref := by
    intro ref
    unfold Unfinished
    rw [numStreams, finished]
  constructor
  · intro id ref
    rw [requestStreams, unfinished, requestId]
    exact registry.registered id ref
  · intro ref
    rw [requestStreams, unfinished, requestId]
    exact registry.waits ref
  · simp only [requestId]
    exact registry.distinct
  · intro ref
    rw [requestStreams, unfinished, requestId]
    exact registry.reachable ref

theorem Registry.abortRequest {raisable : Bool} :
    (t.abortRequest requestId raisable).Registry waiting := by
  unfold RequestTracker.abortRequest
  dsimp only
  split
  · rename_i ref found
    apply (registry.leave (f := fun s => s.finish raisable) found (fun s => s.requestId_finish raisable)
      fun s => s.finished_finish raisable).carry
    · rfl
    · exact fun _ => rfl
    · exact fun _ => rfl
    · exact fun _ => rfl
  · rename_i unused
    apply registry.carry
    · rfl
    · intro id
      show (t.requestStreams.erase requestId).get? id = _
      rw [Dict.get?_erase]
      split
      · rename_i here
        rw [here, unused]
      · rfl
    · exact fun _ => rfl
    · exact fun _ => rfl

theorem Registry.processRequestOutput {finished : Bool} :
    (t.processRequestOutput requestId finished).Registry waiting := by
  unfold RequestTracker.processRequestOutput
  split
  · exact registry
  · rename_i ref found
    split
    · apply registry.leave found
      · intro s
        rw [AsyncStream.requestId_finish, AsyncStream.requestId_put]
      · exact fun s => AsyncStream.finished_finish _ _
    · apply registry.carry
      · rfl
      · exact fun _ => rfl
      · exact requestId_onStream fun s => s.requestId_put _
      · intro ref'
        rw [onStream_streams]
        split
        · rename_i here
          rw [here, AsyncStream.finished_put]
        · rfl

end

/-- A request under an id that is neither registered nor waiting. -/
theorem Registry.addRequest (registry : t.Registry t.newRequests)
    (free : ∀ ref ∈ t.newRequests, (t.streams ref).requestId ≠ requestId)
    (added : t.addRequest requestId = some t') : t'.Registry t'.newRequests := by
  unfold RequestTracker.addRequest at added
  split at added
  · rename_i unused
    cases added
    have old : ∀ ref < t.numStreams, Function.update t.streams t.numStreams { requestId } ref = t.streams ref :=
      fun ref less => Function.update_of_ne (Nat.ne_of_lt less) _ _
    have new : Function.update t.streams t.numStreams { requestId } t.numStreams = { requestId } :=
      Function.update_self _ _ _
    constructor
    · intro id ref found
      obtain ⟨⟨less, open_⟩, named⟩ := registry.registered id ref found
      refine ⟨⟨Nat.lt_succ_of_lt less, ?_⟩, ?_⟩
      · show (Function.update t.streams t.numStreams { requestId } ref).finished = false
        rw [old ref less]
        exact open_
      · show (Function.update t.streams t.numStreams { requestId } ref).requestId = id
        rw [old ref less]
        exact named
    · intro ref member
      show (ref < t.numStreams + 1 ∧ (Function.update t.streams t.numStreams { requestId } ref).finished = false) ∧
        t.requestStreams.get? (Function.update t.streams t.numStreams { requestId } ref).requestId = none
      rcases List.mem_append.mp member with before | last
      · obtain ⟨⟨less, open_⟩, absent⟩ := registry.waits ref before
        rw [old ref less]
        exact ⟨⟨Nat.lt_succ_of_lt less, open_⟩, absent⟩
      · rw [List.mem_singleton.mp last, new]
        exact ⟨⟨Nat.lt_succ_self _, rfl⟩, unused⟩
    · show ((t.newRequests ++ [t.numStreams]).map fun ref =>
        (Function.update t.streams t.numStreams { requestId } ref).requestId).Nodup
      have same : (t.newRequests.map fun ref => (Function.update t.streams t.numStreams { requestId } ref).requestId) =
          t.newRequests.map fun ref => (t.streams ref).requestId :=
        List.map_congr_left fun ref member => by rw [old ref (registry.waits ref member).1.1]
      rw [List.map_append, same, List.map_singleton, new, List.nodup_append]
      refine ⟨registry.distinct, List.nodup_singleton _, ?_⟩
      intro id listed id' last
      obtain ⟨ref, member, rfl⟩ := List.mem_map.mp listed
      rw [List.mem_singleton.mp last]
      exact free ref member
    · intro ref unfinished
      show t.requestStreams.get? (Function.update t.streams t.numStreams { requestId } ref).requestId = some ref ∨ _
      obtain ⟨less, open_⟩ := unfinished
      rcases Nat.lt_succ_iff_lt_or_eq.mp less with before | rfl
      · change (Function.update t.streams t.numStreams { requestId } ref).finished = false at open_
        rw [old ref before] at open_ ⊢
        rcases registry.reachable ref ⟨before, open_⟩ with found | member
        · exact Or.inl found
        · exact Or.inr (List.mem_append_left _ member)
      · exact Or.inr (List.mem_append_right _ List.mem_cons_self)
  · cases added

end RequestTracker

namespace TrackedRequests
open RequestTracker

variable {a a' : TrackedRequests} {event : TrackerEvent}

/-- A request that waits is younger than no abort of its id that waits. -/
structure Consistent (a : TrackedRequests) : Prop where
  registry : a.tracker.Registry a.tracker.newRequests
  clock : ∀ ref < a.tracker.numStreams, a.addedAt ref < a.clock
  aborts : ∀ ref ∈ a.tracker.newRequests, (a.tracker.streams ref).requestId ∈ a.tracker.abortedRequests →
    a.addedAt ref < a.lastAbort (a.tracker.streams ref).requestId
  owed : ∀ requestId ∈ a.owed, requestId ∈ a.tracker.abortedRequests ∧
    ∀ ref ∈ a.tracker.newRequests, (a.tracker.streams ref).requestId ≠ requestId
  fair : ∀ r ∈ a.polls, r.Fair

theorem consistent_start : Consistent {} where
  registry := ⟨nofun, nofun, List.nodup_nil, fun _ unfinished => absurd unfinished.1 (Nat.not_lt_zero _)⟩
  clock := nofun
  aborts := nofun
  owed := nofun
  fair := nofun

theorem Consistent.add (consistent : a.Consistent) (settled : a.Settled (.add requestId))
    (stepped : a.step (.add requestId) = some a') : a'.Consistent := by
  obtain ⟨tracker, added, result⟩ := Option.bind_eq_some_iff.mp stepped
  cases result
  have registry := consistent.registry.addRequest settled.2 added
  unfold addRequest at added
  split at added
  · cases added
    have old : ∀ ref ∈ a.tracker.newRequests,
        Function.update a.tracker.streams a.tracker.numStreams { requestId } ref = a.tracker.streams ref :=
      fun ref member => Function.update_of_ne (Nat.ne_of_lt (consistent.registry.waits ref member).1.1) _ _
    constructor
    · exact registry
    · intro ref less
      show Function.update a.addedAt a.tracker.numStreams a.clock ref < a.clock + 1
      rw [Function.update_apply]
      split
      · exact Nat.lt_succ_self _
      · rename_i other
        have before : ref < a.tracker.numStreams := Nat.lt_of_le_of_ne (Nat.lt_succ_iff.mp less) other
        exact (consistent.clock ref before).trans (Nat.lt_succ_self _)
    · intro ref member
      show (Function.update a.tracker.streams a.tracker.numStreams { requestId } ref).requestId ∈ _ →
        Function.update a.addedAt a.tracker.numStreams a.clock ref <
          a.lastAbort (Function.update a.tracker.streams a.tracker.numStreams { requestId } ref).requestId
      rcases List.mem_append.mp member with before | last
      · rw [old ref before, Function.update_of_ne (Nat.ne_of_lt (consistent.registry.waits ref before).1.1)]
        exact consistent.aborts ref before
      · rw [List.mem_singleton.mp last, Function.update_self]
        exact fun aborted => absurd aborted settled.1
    · intro id listed
      obtain ⟨aborted, free⟩ := consistent.owed id listed
      refine ⟨aborted, fun ref member => ?_⟩
      show (Function.update a.tracker.streams a.tracker.numStreams { requestId } ref).requestId ≠ id
      rcases List.mem_append.mp member with before | last
      · rw [old ref before]
        exact free ref before
      · rw [List.mem_singleton.mp last, Function.update_self]
        rintro rfl
        exact settled.1 aborted
    · exact consistent.fair
  · cases added

theorem abortRequest_frame (t : RequestTracker) (requestId : RequestId) (raisable : Bool) :
    (t.abortRequest requestId raisable).newRequests = t.newRequests ∧
      (t.abortRequest requestId raisable).numStreams = t.numStreams ∧
      (t.abortRequest requestId raisable).abortedRequests = t.abortedRequests ++ [requestId] ∧
      ∀ ref, ((t.abortRequest requestId raisable).streams ref).requestId = (t.streams ref).requestId := by
  unfold abortRequest
  dsimp only
  split
  · exact ⟨rfl, rfl, rfl, requestId_onStream fun s => s.requestId_finish raisable⟩
  · exact ⟨rfl, rfl, rfl, fun _ => rfl⟩

theorem Consistent.abort {raisable : Bool} (consistent : a.Consistent)
    (stepped : a.step (.abort requestId raisable) = some a') : a'.Consistent := by
  cases stepped
  obtain ⟨newRequests, numStreams, abortedRequests, ids⟩ := abortRequest_frame a.tracker requestId raisable
  constructor
  · dsimp only
    rw [newRequests]
    exact consistent.registry.abortRequest
  · dsimp only
    rw [numStreams]
    exact fun ref less => (consistent.clock ref less).trans (Nat.lt_succ_self _)
  · dsimp only
    rw [newRequests, abortedRequests]
    intro ref member aborted
    rw [ids] at aborted ⊢
    rw [Function.update_apply]
    split
    · exact consistent.clock ref (consistent.registry.waits ref member).1.1
    · rename_i other
      apply consistent.aborts ref member
      exact (List.mem_append.mp aborted).resolve_right fun last => other (List.mem_singleton.mp last)
  · dsimp only
    rw [newRequests, abortedRequests]
    simp only [ids]
    intro id listed
    have before : id ∈ a.owed → id ∈ a.tracker.abortedRequests ++ [requestId] ∧
        ∀ ref ∈ a.tracker.newRequests, (a.tracker.streams ref).requestId ≠ id := fun listed =>
      ⟨List.mem_append_left _ (consistent.owed id listed).1, (consistent.owed id listed).2⟩
    split at listed
    · rename_i registered
      rcases List.mem_cons.mp listed with rfl | earlier
      · refine ⟨List.mem_append_right _ List.mem_cons_self, fun ref member same => ?_⟩
        rw [← same, (consistent.registry.waits ref member).2] at registered
        cases registered
      · exact before earlier
    · exact before listed
  · exact consistent.fair

theorem processRequestOutput_frame (t : RequestTracker) (requestId : RequestId) (finished : Bool) :
    (t.processRequestOutput requestId finished).newRequests = t.newRequests ∧
      (t.processRequestOutput requestId finished).numStreams = t.numStreams ∧
      (t.processRequestOutput requestId finished).abortedRequests = t.abortedRequests ∧
      ∀ ref, ((t.processRequestOutput requestId finished).streams ref).requestId = (t.streams ref).requestId := by
  unfold processRequestOutput
  split
  · exact ⟨rfl, rfl, rfl, fun _ => rfl⟩
  · split
    · refine ⟨rfl, rfl, rfl, requestId_onStream fun s => ?_⟩
      rw [AsyncStream.requestId_finish, AsyncStream.requestId_put]
    · exact ⟨rfl, rfl, rfl, requestId_onStream fun s => s.requestId_put _⟩

theorem Consistent.output {finished : Bool} (consistent : a.Consistent)
    (stepped : a.step (.output requestId finished) = some a') : a'.Consistent := by
  cases stepped
  obtain ⟨newRequests, numStreams, abortedRequests, ids⟩ := processRequestOutput_frame a.tracker requestId finished
  constructor
  · dsimp only
    rw [newRequests]
    exact consistent.registry.processRequestOutput
  · dsimp only
    rw [numStreams]
    exact fun ref less => (consistent.clock ref less).trans (Nat.lt_succ_self _)
  · dsimp only
    rw [newRequests, abortedRequests]
    simp only [ids]
    exact consistent.aborts
  · dsimp only
    rw [newRequests, abortedRequests]
    simp only [ids]
    exact consistent.owed
  · exact consistent.fair

theorem Consistent.poll (consistent : a.Consistent) (stepped : a.step .poll = some a') : a'.Consistent := by
  cases stepped
  have unqueued : Registry { a.tracker with abortedRequests := [], newRequests := [] } a.tracker.newRequests :=
    consistent.registry.carry rfl (fun _ => rfl) (fun _ => rfl) fun _ => rfl
  obtain ⟨numStreams, newRequests, -⟩ := @registerEach_frame { a.tracker with abortedRequests := [], newRequests := [] }
    a.tracker.newRequests { finishedRequests := a.tracker.abortedRequests.dedup }
  constructor
  · show Registry a.tracker.getNewAndAbortedRequests.1 a.tracker.getNewAndAbortedRequests.1.newRequests
    unfold getNewAndAbortedRequests
    rw [newRequests]
    exact unqueued.registerEach
  · intro ref less
    change ref < a.tracker.getNewAndAbortedRequests.1.numStreams at less
    unfold getNewAndAbortedRequests at less
    rw [numStreams] at less
    exact (consistent.clock ref less).trans (Nat.lt_succ_self _)
  · intro ref member
    change ref ∈ a.tracker.getNewAndAbortedRequests.1.newRequests at member
    unfold getNewAndAbortedRequests at member
    rw [newRequests] at member
    cases member
  · exact nofun
  · intro r member
    rcases List.mem_cons.mp member with rfl | before
    · constructor
      · intro ref cancelled
        rcases registerEach_cancelled cancelled with earlier | ⟨waits, listed⟩
        · cases earlier
        · exact consistent.aborts ref waits (List.mem_dedup.mp listed)
      · intro id listed
        obtain ⟨aborted, free⟩ := consistent.owed id listed
        exact registerEach_finishedRequests (List.mem_dedup.mpr aborted) free
    · exact consistent.fair r before

theorem Consistent.orderly (consistent : a.Consistent) : a.Orderly where
  reachable := consistent.registry.reachable
  unique _ _ unfinished unfinished' same := consistent.registry.unique unfinished unfinished' same
  fair := consistent.fair

/-- When no id is added again before the poll, the tracker keeps order. -/
theorem orderly_of_settled {history : List TrackerEvent}
    (run : GuardedRun Settled step {} history a) : a.Orderly := by
  have consistent : a.Consistent := by
    apply Run.invariant (I := fun _ a => a.Consistent) consistent_start _ run
    rintro - a event a' before ⟨settled, stepped⟩
    cases event with
    | add requestId => exact before.add settled stepped
    | abort requestId raisable => exact before.abort stepped
    | output requestId finished => exact before.output stepped
    | poll => exact before.poll stepped
  exact consistent.orderly

/-- A request is aborted, reported, and added again. -/
def addedAgain : List TrackerEvent := [.poll, .add 0, .poll, .abort 0 false, .poll, .add 0]

theorem orderly_of_settled_addedAgain : ∃ a, GuardedRun Settled step {} addedAgain a ∧
    a.polls.map (fun r => (r.poll.newRequests, r.poll.finishedRequests)) = [([1], []), ([], [0]), ([0], [])] ∧
      a.Orderly := by
  have ran : ∃ a, GuardedRun Settled step {} addedAgain a ∧
      a.polls.map (fun r => (r.poll.newRequests, r.poll.finishedRequests)) = [([1], []), ([], [0]), ([0], [])] := by
    apply GuardedRun.exists_of_execute
    decide
  obtain ⟨a, run, polls⟩ := ran
  exact ⟨a, run, polls, orderly_of_settled run⟩

/-- The second request under an id hides the first, which no one can finish; and the abort of a request cancels
one that was added after it, and is not reported. -/
theorem hides_and_cancels : (∃ a, Reaches [.poll, .add 0, .add 0] a ∧ a.tracker.Unfinished 0 ∧
      a.tracker.requestStreams.get? 0 = some 1 ∧ ¬a.Orderly) ∧
    ∃ a, Reaches [.poll, .add 0, .abort 0 false, .poll, .add 0] a ∧
      a.polls.head?.map (fun r => (r.poll.cancelled, r.poll.finishedRequests, r.owed)) = some ([1], [], [0]) ∧
        ¬a.Orderly := by
  constructor
  · have ran : ∃ a, Reaches [.poll, .add 0, .add 0] a ∧ ((0 < a.tracker.numStreams ∧
        (a.tracker.streams 0).finished = false ∧ (a.tracker.streams 0).requestId = 0) ∧
          a.tracker.requestStreams.get? 0 = some 1 ∧ a.tracker.newRequests = []) := by
      apply Run.exists_of_execute
      decide
    obtain ⟨a, reached, ⟨less, unfinished, named⟩, registered, empty⟩ := ran
    refine ⟨a, reached, ⟨less, unfinished⟩, registered, fun orderly => ?_⟩
    rcases orderly.reachable 0 ⟨less, unfinished⟩ with found | waits
    · rw [named, registered] at found
      cases found
    · rw [empty] at waits
      cases waits
  · have ran : ∃ a, Reaches [.poll, .add 0, .abort 0 false, .poll, .add 0] a ∧
        a.polls.head?.map (fun r => (r.poll.cancelled, r.poll.finishedRequests, r.owed)) = some ([1], [], [0]) := by
      apply Run.exists_of_execute
      decide
    obtain ⟨a, reached, latest⟩ := ran
    refine ⟨a, reached, latest, fun orderly => ?_⟩
    obtain ⟨r, first, same⟩ := Option.map_eq_some_iff.mp latest
    have reported := (orderly.fair r (List.mem_of_mem_head? first)).reports 0
    have none : r.poll.finishedRequests = [] ∧ r.owed = [0] := by
      simp only [Prod.mk.injEq] at same
      exact same.2
    rw [none.1, none.2] at reported
    cases reported List.mem_cons_self

end TrackedRequests
end Vllm.AsyncEngine
