import VllmProofs.V1.AllocateRaises
import VllmProofs.V1.Lockstep
import VllmProofs.V1.ScheduledBatch

/-!
Every running request has tokens left to compute when `schedule` starts: what is scheduled for a
request is at most what it lacks, and what the runner generates is ahead of what has been computed.
-/

namespace Vllm.V1
open Exec

namespace Request

/-- Some tokens of the request, or drafts, are not computed. -/
def IsBehind (r : Request) : Prop := r.numComputedTokens < r.numTokensWithSpec

/-- `n` tokens take the request no further than to its end, or else to the end of its scheduled drafts. -/
def Allotted (r : Request) (n : ℕ) : Option (List TokenId) → Prop
  | none => r.numComputedTokens + n ≤ r.numTokens
  | some drafts => r.numComputedTokens + n = r.numTokens + drafts.length

variable {r : Request} {n c : ℕ}

theorem numTokens_le_numTokensWithSpec (r : Request) : r.numTokens ≤ r.numTokensWithSpec := Nat.le_add_right _ _

def scheduledDrafts (r : Request) (n : ℕ) : Option (List TokenId) :=
  if r.schedulesDrafts n then some (r.trimmedSpecTokenIds n) else none

theorem trimmed_progress (some : 0 < n) (within : n ≤ r.numTokensWithSpec - r.numComputedTokens) :
    (r.trimmed n).IsBehind ∧ (r.trimmed n).Allotted n (r.scheduledDrafts n) := by
  have total : r.numTokensWithSpec = r.numTokens + r.specTokenIds.length := rfl
  have same : (r.trimmed n).numTokens = r.numTokens := rfl
  unfold IsBehind scheduledDrafts
  by_cases drafts : r.schedulesDrafts n
  · have trimmed : (r.trimmedSpecTokenIds n).length = n + r.numComputedTokens - r.numTokens := by
      unfold trimmedSpecTokenIds
      rw [if_pos drafts, List.length_take]
      omega
    have beyond := drafts.2
    rw [if_pos drafts]
    constructor
    · show r.numComputedTokens < r.numTokens + (r.trimmedSpecTokenIds n).length
      omega
    · show r.numComputedTokens + n = r.numTokens + (r.trimmedSpecTokenIds n).length
      omega
  · have whole : r.trimmedSpecTokenIds n = r.specTokenIds := if_neg drafts
    rw [if_neg drafts]
    constructor
    · show r.numComputedTokens < r.numTokens + (r.trimmedSpecTokenIds n).length
      rw [whole]
      omega
    · show r.numComputedTokens + n ≤ r.numTokens
      unfold schedulesDrafts at drafts
      by_cases none : r.specTokenIds = []
      · rw [none, List.length_nil, Nat.add_zero] at total
        omega
      · have short : ¬r.numTokens < n + r.numComputedTokens := fun beyond => drafts ⟨none, beyond⟩
        omega

theorem run_progress (some : 0 < n) (within : c + n ≤ r.numTokens) : (r.run c).IsBehind ∧ (r.run c).Allotted n none := by
  constructor
  · show c < (r.run c).numTokensWithSpec
    have most := (r.run c).numTokens_le_numTokensWithSpec
    change r.numTokens ≤ _ at most
    omega
  · exact within

end Request

namespace Scheduler

variable {s t : Scheduler} {ref : RequestRef} {p p' : Pass}

structure Progress (s : Scheduler) (p : Pass) : Prop where
  behind : ∀ ref ∈ s.running, (s.objects ref).IsBehind
  room : s.running.length ≤ s.maxNumRunningReqs
  allotted : ∀ ref ∈ p.scheduledRefs, ∀ n, p.numScheduledTokens.get? (s.objects ref).requestId = some n →
    (s.objects ref).Allotted n (p.scheduledSpecDecodeTokens.get? (s.objects ref).requestId)
  drafts : ∀ id, p.scheduledSpecDecodeTokens.get? id ≠ none → id ∈ p.numScheduledTokens.keys

theorem Progress.keep (progress : Progress s p) (refs : p'.scheduledRefs = p.scheduledRefs)
    (numScheduledTokens : p'.numScheduledTokens = p.numScheduledTokens)
    (drafts : p'.scheduledSpecDecodeTokens = p.scheduledSpecDecodeTokens)
    (maxNumRunningReqs : t.maxNumRunningReqs = s.maxNumRunningReqs) (running : t.running.Sublist s.running)
    (kept : ∀ ref ∈ p.scheduledRefs, ref ∈ t.running)
    (objects : ∀ ref ∈ t.running, t.objects ref = s.objects ref) : Progress t p' := by
  constructor
  · intro ref member
    rw [objects ref member]
    exact progress.behind ref (running.subset member)
  · rw [maxNumRunningReqs]
    exact running.length_le.trans progress.room
  · intro ref member n
    rw [refs] at member
    rw [objects ref (kept ref member), numScheduledTokens, drafts]
    exact progress.allotted ref member n
  · rw [drafts, numScheduledTokens]
    exact progress.drafts

/-- One more request has got tokens. -/
theorem Progress.give {n : ℕ} {request : Request} (progress : Progress s p) (drafts : Option (List TokenId))
    (booked : Booked s p) (refs : p'.scheduledRefs.Perm (ref :: p.scheduledRefs))
    (numScheduledTokens : p'.numScheduledTokens = p.numScheduledTokens.insert (s.objects ref).requestId n)
    (specs : p'.scheduledSpecDecodeTokens = match drafts with
      | none => p.scheduledSpecDecodeTokens
      | some drafts => p.scheduledSpecDecodeTokens.insert (s.objects ref).requestId drafts)
    (objects : t.objects = Function.update s.objects ref request)
    (named : request.requestId = (s.objects ref).requestId) (behind : request.IsBehind)
    (allotted : request.Allotted n drafts)
    (fresh : ∀ ref' ∈ p.scheduledRefs, (s.objects ref').requestId ≠ (s.objects ref).requestId)
    (running : ∀ ref' ∈ t.running, ref' = ref ∨ ref' ∈ s.running) (room : t.running.length ≤ t.maxNumRunningReqs) :
    Progress t p' := by
  have absent : p.scheduledSpecDecodeTokens.get? (s.objects ref).requestId = none := by
    by_contra some
    obtain ⟨ref', member, same⟩ := (booked.ids _).mp (progress.drafts _ some)
    exact fresh ref' member same
  have others : ∀ id ≠ (s.objects ref).requestId,
      p'.scheduledSpecDecodeTokens.get? id = p.scheduledSpecDecodeTokens.get? id := by
    intro id other
    rw [specs]
    cases drafts with
    | none => rfl
    | some drafts => exact Dict.get?_insert_ne other
  have mine : p'.scheduledSpecDecodeTokens.get? (s.objects ref).requestId = drafts := by
    rw [specs]
    cases drafts with
    | none => exact absent
    | some drafts => exact Dict.get?_insert_self _ _ _
  constructor
  · intro ref' member
    rw [objects, Function.update_apply]
    split
    · exact behind
    · rename_i other
      exact progress.behind ref' ((running ref' member).resolve_left other)
  · exact room
  · intro ref' member m given
    rw [objects] at given ⊢
    by_cases same : ref' = ref
    · rw [same, Function.update_self, named, numScheduledTokens, Dict.get?_insert_self, Option.some.injEq] at given
      rw [same, Function.update_self, named, mine, ← given]
      exact allotted
    · have old := (List.mem_cons.mp (refs.mem_iff.mp member)).resolve_left same
      rw [Function.update_of_ne same, numScheduledTokens, Dict.get?_insert_ne (fresh ref' old)] at given
      rw [Function.update_of_ne same, others _ (fresh ref' old)]
      exact progress.allotted ref' old m given
  · intro id some
    rw [Dict.mem_keys_iff, numScheduledTokens, Dict.get?_insert]
    split
    · exact ⟨n, rfl⟩
    · rename_i other
      rw [others id other] at some
      exact Dict.mem_keys_iff.mp (progress.drafts id some)

variable [TupleHash]

theorem Progress.move (serving : (putBack p s).Serving) (booked : Booked s p) (progress : Progress s p)
    (move : Move (s, p) (t, p')) : Progress t p' := by
  obtain ⟨queued, holding⟩ := serving
  have runs : ∀ ref ∈ p.scheduledRefs, ref ∈ s.running := fun ref member => booked.runs member
  cases move with
  | skip | recordLoras | setAside | lookup =>
    exact progress.keep rfl rfl rfl rfl (List.Sublist.refl _) runs fun _ _ => rfl
  | @wake _ _ ref turn ready =>
    have same : (s.wake ref).maxNumRunningReqs = s.maxNumRunningReqs := wake_maxNumRunningReqs s ref
    apply progress.keep rfl rfl rfl same
    · rw [wake_running]
    · rw [wake_running]
      exact runs
    · intro ref' member
      rw [wake_running] at member
      unfold Scheduler.wake
      split
      · apply Function.update_of_ne
        rintro rfl
        exact List.disjoint_of_nodup_append queued.nodup member turn.waits
      · rfl
  | @preempt _ _ rest ref ref' plan manager attempt lacks last freed =>
    have nodup : s.running.Nodup := (List.nodup_append.mp queued.nodup).1
    have apart : ref ∉ rest := by
      rw [last] at nodup
      exact fun member => List.disjoint_of_nodup_append nodup member (List.mem_singleton.mpr rfl)
    have inside := (List.getElem?_eq_some_iff.mp attempt.at_).1
    apply progress.keep
    · rfl
    · rfl
    · rfl
    · rfl
    · show rest.Sublist s.running
      rw [last]
      exact List.sublist_append_left _ _
    · intro ref'' member
      have early := booked.passed ref'' member
      rw [last, List.length_append, List.length_singleton] at inside
      rw [last, List.take_append_of_le_length (Nat.le_of_lt_succ inside)] at early
      exact List.mem_of_mem_take early
    · intro ref'' member
      apply Function.update_of_ne
      rintro rfl
      exact apart member
  | @run _ _ ref plan newBlocks manager attempt got =>
    obtain ⟨behind, allotted⟩ := Request.trimmed_progress (Nat.pos_of_ne_zero attempt.tokens)
      (attempt.within.trans (Nat.min_le_left _ _))
    apply progress.give ((s.objects ref).scheduledDrafts plan.numNewTokens) booked (p.scheduledRefs_giveRunning ref (s.objects ref) plan newBlocks) rfl
    · show (if _ then _ else _) = _
      unfold Request.scheduledDrafts
      split <;> rfl
    · rfl
    · rfl
    · exact behind
    · exact allotted
    · exact booked.fresh_running queued attempt
    · exact fun ref' member => Or.inr member
    · exact progress.room
  | @admitRequest _ _ ref hits newBlocks c n plan looked manager attempt status got =>
    have prepared := attempt.prepared holding.sound holding.blockSize
    have less := attempt.within
    have more := prepared.within.2
    obtain ⟨behind, allotted⟩ := Request.run_progress (r := s.objects ref) (n := plan.numNewTokens) (c := c)
      (Nat.pos_of_ne_zero attempt.tokens) (by omega)
    apply progress.give none booked (p.scheduledRefs_giveWaiting status) rfl
    · rfl
    · rfl
    · rfl
    · exact behind
    · exact allotted
    · exact booked.fresh_waiting queued attempt.toWaitingTurn
    · intro ref' member
      have inside : ref' ∈ s.running ++ [ref] := member
      rcases List.mem_append.mp inside with old | new
      · exact Or.inr old
      · exact Or.inl (List.mem_singleton.mp new)
    · show (s.running ++ [ref]).length ≤ s.maxNumRunningReqs
      have room := progress.room
      have full := attempt.room
      rw [List.length_append, List.length_singleton]
      omega

/-! ### Calls -/

structure Going (s : Scheduler) : Prop where
  behind : ∀ ref ∈ s.running, (s.objects ref).IsBehind
  room : s.running.length ≤ s.maxNumRunningReqs

/-- What has been scheduled is what the requests lack. -/
def Pending (s : Scheduler) (out : SchedulerOutput) : Prop :=
  ∀ ref ∈ s.running, ∀ n, out.numScheduledTokens.get? (s.objects ref).requestId = some n →
    (s.objects ref).Allotted n (out.scheduledSpecDecodeTokens.get? (s.objects ref).requestId)

theorem Going.moves (serving : s.Serving) (going : s.Going) (moves : Moves s s.startPass t p) : Progress t p :=
  moves.invariant (I := fun u q => Progress u q) ⟨going.behind, going.room, nofun, fun _ some => absurd rfl some⟩
    fun _ _ _ _ before progress move => progress.move (serving.moves before) (booked_moves serving before) move

variable {out : SchedulerOutput}

theorem Going.schedule (serving : s.Serving) (going : s.Going)
    (call : schedule s = .ok out t) : t.Going ∧ t.Pending out := by
  obtain ⟨u, p, moves, scheduled⟩ := schedule_ok call
  obtain ⟨n, rfl⟩ := scheduled.output
  have progress := going.moves serving moves
  have booked := booked_moves serving moves
  have queued := (serving.moves moves).queued
  rw [scheduled.state]
  refine ⟨⟨progress.behind, progress.room⟩, ?_⟩
  intro ref member m given
  obtain ⟨ref', scheduled, same⟩ := (booked.ids _).mp (Dict.mem_keys_iff.mpr ⟨m, given⟩)
  have equal : ref' = ref := queued.unique (List.mem_append_left _ (booked.runs scheduled))
    (List.mem_append_left _ member) same
  rw [equal] at scheduled
  exact progress.allotted ref scheduled m given

omit [TupleHash] in
theorem Going.fewer (going : s.Going) (maxNumRunningReqs : t.maxNumRunningReqs = s.maxNumRunningReqs)
    (running : t.running.Sublist s.running)
    (objects : ∀ ref ∈ s.running, (s.objects ref).IsBehind → (t.objects ref).IsBehind) : t.Going := by
  constructor
  · exact fun ref member => objects ref (running.subset member) (going.behind ref (running.subset member))
  · rw [maxNumRunningReqs]
    exact running.length_le.trans going.room

omit [TupleHash] in
theorem isBehind_update (ref : RequestRef) (request : Request) (objects : t.objects = Function.update s.objects ref request)
    (same : (s.objects ref).IsBehind → request.IsBehind) (ref' : RequestRef) (behind : (s.objects ref').IsBehind) :
    (t.objects ref').IsBehind := by
  rw [objects, Function.update_apply]
  split
  · rename_i here
    rw [here] at behind
    exact same behind
  · exact behind

variable {finishedStatus : RequestStatus}

omit [TupleHash] in
theorem Going.finishRequest {id : RequestId} {u : Unit} (going : s.Going)
    (call : finishRequest finishedStatus id s = .ok u t) : t.Going := by
  obtain ⟨later, running, -⟩ := remains_finishRequest call
  apply going.fewer later.maxNumRunningReqs running
  intro ref' _ behind
  rcases finishRequest_ok call with ⟨-, rfl⟩ | ⟨ref, dequeued, -, left, -, -, freed, manager, -, -, rfl⟩
  · exact behind
  · cases left with
    | running | waiting =>
      apply isBehind_update ref ((s.objects ref).setStatus finishedStatus) _ _ ref' behind
      · rfl
      · exact fun behind => behind

omit [TupleHash] in
theorem Going.finishEach {ids : List RequestId} {u : PUnit} (going : s.Going)
    (call : ids.forM (Scheduler.finishRequest finishedStatus) s = .ok u t) : t.Going := by
  induction ids generalizing s with
  | nil =>
    cases call
    exact going
  | cons id rest ih =>
    obtain ⟨_, v, first, others⟩ := bind_ok call
    exact ih (going.finishRequest first) others

omit [TupleHash] in
theorem Going.quiet (serving : s.Serving) (going : s.Going) (quiet : Lockstep.Quiet s t) : t.Going := by
  cases quiet with
  | add unused new =>
    refine ⟨fun ref member => ?_, going.room⟩
    have older := (serving.queued.known ref (List.mem_append_left _ member)).1
    rw [addRequest_objects, setRequest_objects, Function.update_of_ne (Nat.ne_of_lt older)]
    exact going.behind ref member
  | finish call =>
    unfold finishRequests at call
    obtain ⟨_, _, checked, call⟩ := bind_ok call
    obtain ⟨-, rfl⟩ := check_ok checked
    exact going.finishEach call
  | grammarReady ref =>
    refine ⟨fun ref' member => ?_, going.room⟩
    apply isBehind_update ref { s.objects ref with grammarIsReady := true } _ _ ref' (going.behind ref' member)
    · rfl
    · exact fun behind => behind
  | resetPrefixCache call =>
    obtain ⟨manager, -, rfl⟩ := zoom_ok call
    exact ⟨going.behind, going.room⟩

/-! ### `update_from_output` -/

variable {result : ModelRunnerOutput}

omit [TupleHash] in
theorem behind_of_updated {n : ℕ} {gen new : List TokenId}
    {request : Request} (updated : Updated out result ref n gen new request false s t)
    (allotted : (s.objects ref).Allotted n (out.scheduledSpecDecodeTokens.get? (s.objects ref).requestId))
    (some : 0 < gen.length) : request.IsBehind := by
  have tokens := numTokens_append updated.evolves updated.outputTokenIds
  have most := request.numTokens_le_numTokensWithSpec
  have computed := updated.computed
  unfold Request.IsBehind
  rcases Nat.lt_or_ge request.numComputedTokens (s.objects ref).numTokens with early | caught
  · omega
  · have all := (updated.spoken caught).2 rfl
    rw [all] at tokens
    cases drafts : out.scheduledSpecDecodeTokens.get? (s.objects ref).requestId with
    | none =>
      rw [drafts] at computed allotted
      change _ = (s.objects ref).numComputedTokens + n at computed
      change (s.objects ref).numComputedTokens + n ≤ _ at allotted
      omega
    | some drafts' =>
      rw [drafts] at computed allotted
      change _ = (s.objects ref).numComputedTokens + n + gen.length - (drafts'.length + 1) at computed
      change (s.objects ref).numComputedTokens + n = (s.objects ref).numTokens + drafts'.length at allotted
      omega

variable {sent : Option EngineCoreOutput}

omit [TupleHash] in
theorem Pending.updated (counts : result.Counts out)
    (allotted : ∀ n, out.numScheduledTokens.get? (s.objects ref).requestId = some n →
      (s.objects ref).Allotted n (out.scheduledSpecDecodeTokens.get? (s.objects ref).requestId))
    (behind : (s.objects ref).IsBehind) (call : updateRequest out result ref s = .ok (sent, false) t) :
    (t.objects ref).IsBehind := by
  rcases updateRequest_ok call with ⟨-, -, rfl⟩ | ⟨n, gen, new, request, given, -, updated⟩
  · exact behind
  · obtain ⟨-, -, -, objects⟩ := updated.frame
    obtain ⟨i, index, sampled, -⟩ := updated.answer
    have answer := counts _ (Dict.mem_keys_iff.mpr ⟨n, given⟩)
    unfold ModelRunnerOutput.CountsFor at answer
    simp only [index, sampled] at answer
    rw [objects, Function.update_self]
    exact behind_of_updated updated (allotted n given) answer.1

omit [TupleHash] in
theorem updateRequest_frame
    {stopped : Bool} (call : updateRequest out result ref s = .ok (sent, stopped) t) :
    t.maxNumRunningReqs = s.maxNumRunningReqs ∧ ∀ ref' ≠ ref, t.objects ref' = s.objects ref' := by
  rcases updateRequest_ok call with ⟨-, -, rfl⟩ | ⟨n, gen, new, request, -, -, updated⟩
  · exact ⟨rfl, fun _ _ => rfl⟩
  · obtain ⟨later, -, -, objects⟩ := updated.frame
    refine ⟨later.maxNumRunningReqs, fun ref' other => ?_⟩
    rw [objects, Function.update_of_ne other]

structure Midway (s : Scheduler) (kept rest : List RequestRef) (v : Scheduler) : Prop where
  serving : (v.setRunning (kept ++ rest)).Serving
  behind : ∀ ref ∈ kept, (v.objects ref).IsBehind
  left : ∀ ref ∈ rest, ref ∈ s.running ∧ v.objects ref = s.objects ref
  few : kept.length + rest.length ≤ s.running.length
  room : v.maxNumRunningReqs = s.maxNumRunningReqs

omit [TupleHash] in
theorem Midway.step
    {stopped : Bool} {kept rest : List RequestRef} {v w : Scheduler} (going : s.Going) (pending : s.Pending out)
    (counts : result.Counts out) (midway : Midway s kept (ref :: rest) v)
    (call : updateRequest out result ref v = .ok (sent, stopped) w) :
    Midway s (if stopped then kept else kept ++ [ref]) rest w := by
  obtain ⟨room, objects⟩ := updateRequest_frame call
  obtain ⟨runs, same⟩ := midway.left ref List.mem_cons_self
  have nodup : (kept ++ ref :: rest).Nodup := (List.nodup_append.mp midway.serving.queued.nodup).1
  rw [List.nodup_middle, List.nodup_cons, List.mem_append, not_or] at nodup
  have few := midway.few
  rw [List.length_cons] at few
  refine ⟨midway.serving.updateRequest call, ?_, ?_, ?_, room.trans midway.room⟩
  · have older : ∀ ref' ∈ kept, (w.objects ref').IsBehind := by
      intro ref' member
      rw [objects ref']
      · exact midway.behind ref' member
      · rintro rfl
        exact nodup.1.1 member
    cases stopped with
    | true => exact older
    | false =>
      intro ref' member
      rcases List.mem_append.mp member with old | new
      · exact older ref' old
      · rw [List.mem_singleton.mp new]
        apply Pending.updated counts _ _ call
        · rw [same]
          exact pending ref runs
        · rw [same]
          exact going.behind ref runs
  · intro ref' member
    obtain ⟨runs', same'⟩ := midway.left ref' (List.mem_cons_of_mem _ member)
    refine ⟨runs', ?_⟩
    rw [objects ref', same']
    rintro rfl
    exact nodup.1.2 member
  · cases stopped with
    | true =>
      show kept.length + rest.length ≤ _
      omega
    | false =>
      show (kept ++ [ref]).length + rest.length ≤ _
      rw [List.length_append, List.length_singleton]
      omega

omit [TupleHash] in
theorem midway_start (serving : s.Serving) : Midway s [] s.running s :=
  ⟨serving, nofun, fun _ member => ⟨member, rfl⟩, (Nat.zero_add _).le, rfl⟩

omit [TupleHash] in
theorem Going.update {outputs : List EngineCoreOutput}
    (serving : s.Serving) (going : s.Going) (pending : s.Pending out) (counts : result.Counts out)
    (call : updateFromOutput out result s = .ok outputs t) : t.Going := by
  unfold updateFromOutput at call
  rw [get_bind] at call
  obtain ⟨found, v, updates, call⟩ := bind_ok call
  obtain ⟨sent, newRunning⟩ := found
  cases call
  have after := updateEach_invariant (I := Midway s)
    (fun _ _ _ _ _ _ _ midway updated => midway.step going pending counts updated) (midway_start serving) updates
  refine ⟨after.behind, ?_⟩
  have few := after.few
  rw [List.length_nil, Nat.add_zero] at few
  show newRunning.length ≤ v.maxNumRunningReqs
  rw [after.room]
  exact few.trans going.room

omit [TupleHash] in
theorem update_avoids_overrun (serving : s.Serving)
    (going : s.Going) (pending : s.Pending out) (counts : result.Counts out) (t : Scheduler) :
    updateFromOutput out result s ≠ .error (.assertionError .computedWithinTokens) t := by
  intro call
  unfold updateFromOutput at call
  rw [get_bind] at call
  rcases bind_error call with raised | ⟨⟨sent, newRunning⟩, v, -, done⟩
  · obtain ⟨kept, ref, rest, v, midway, raised⟩ := updateEach_error (I := Midway s)
      (fun _ _ _ _ _ _ _ midway updated => midway.step going pending counts updated) (midway_start serving) raised
    obtain ⟨n, given, drafts, beyond⟩ := updateRequest_overrun raised
    obtain ⟨runs, same⟩ := midway.left ref List.mem_cons_self
    rw [same] at given drafts beyond
    have allotted := pending ref runs n given
    rw [drafts] at allotted
    exact absurd beyond (Nat.not_lt_of_le allotted)
  · cases done

end Scheduler
end Vllm.V1
