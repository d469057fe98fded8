import VllmProofs.V1.SchedulerServing

/-!
The scheduler over time: its limits stay, its requests evolve, and those that were running before a
call other than `schedule` are the only ones that run after it.
-/

namespace Vllm.V1
open Exec

namespace Scheduler

variable {s t u : Scheduler} {ref : RequestRef} {p p' : Pass}

structure Later (s t : Scheduler) : Prop where
  maxNumRunningReqs : t.maxNumRunningReqs = s.maxNumRunningReqs
  maxNumScheduledTokens : t.maxNumScheduledTokens = s.maxNumScheduledTokens
  maxModelLen : t.maxModelLen = s.maxModelLen
  blockSize : t.blockSize = s.blockSize
  maxLoras : t.maxLoras = s.maxLoras
  numObjects : s.numObjects ≤ t.numObjects
  evolves : ∀ ref < s.numObjects, Evolves (s.objects ref) (t.objects ref)

theorem Later.refl (s : Scheduler) : Later s s :=
  ⟨rfl, rfl, rfl, rfl, rfl, le_refl _, fun _ _ => Evolves.refl _⟩

theorem Later.trans (first : Later s t) (second : Later t u) : Later s u where
  maxNumRunningReqs := second.maxNumRunningReqs.trans first.maxNumRunningReqs
  maxNumScheduledTokens := second.maxNumScheduledTokens.trans first.maxNumScheduledTokens
  maxModelLen := second.maxModelLen.trans first.maxModelLen
  blockSize := second.blockSize.trans first.blockSize
  maxLoras := second.maxLoras.trans first.maxLoras
  numObjects := first.numObjects.trans second.numObjects
  evolves ref less := (first.evolves ref less).trans (second.evolves ref (less.trans_le first.numObjects))

theorem evolves_update {request : Request} (objects : t.objects = Function.update s.objects ref request)
    (evolves : Evolves (s.objects ref) request) (ref' : RequestRef) : Evolves (s.objects ref') (t.objects ref') := by
  rw [objects, Function.update_apply]
  split
  · rename_i here
    rw [here]
    exact evolves
  · exact Evolves.refl _

theorem Move.evolves [TupleHash] (move : Move (s, p) (t, p')) (ref : RequestRef) :
    Evolves (s.objects ref) (t.objects ref) := by
  have same : ∀ r r' : Request, (r' = r.preempt ∨ (∃ n, r' = r.trimmed n) ∨ (∃ status, r' = r.setStatus status) ∨
      ∃ c, r' = r.run c) → Evolves r r' := by
    rintro r r' (rfl | ⟨n, rfl⟩ | ⟨status, rfl⟩ | ⟨c, rfl⟩)
    all_goals exact Evolves.of_same rfl rfl rfl rfl rfl rfl rfl rfl rfl
  cases move with
  | skip => exact Evolves.refl _
  | recordLoras => exact Evolves.refl _
  | setAside => exact Evolves.refl _
  | lookup => exact Evolves.refl _
  | preempt =>
    apply evolves_update
    · rfl
    · exact same _ _ (Or.inl rfl)
  | run =>
    apply evolves_update
    · rfl
    · exact same _ _ (Or.inr (Or.inl ⟨_, rfl⟩))
  | wake =>
    unfold Scheduler.wake
    split
    · apply evolves_update
      · rfl
      · exact same _ _ (Or.inr (Or.inr (Or.inl ⟨_, rfl⟩)))
    · exact Evolves.refl _
  | admitRequest =>
    apply evolves_update
    · rfl
    · exact same _ _ (Or.inr (Or.inr (Or.inr ⟨_, rfl⟩)))

theorem Moves.requests [TupleHash] (moves : Moves s p t p') : t.requests = s.requests :=
  moves.invariant (I := fun u _ => u.requests = s.requests) rfl fun _ _ u _ _ before move => by
    rw [← before]
    cases move with
    | wake =>
      unfold Scheduler.wake
      split <;> rfl
    | skip | recordLoras | setAside | lookup | preempt | run | admitRequest => rfl

theorem Move.later [TupleHash] (move : Move (s, p) (t, p')) : Later s t := by
  have evolves := move.evolves
  cases move with
  | wake =>
    unfold Scheduler.wake at evolves ⊢
    split
    · rename_i waits
      rw [if_pos waits] at evolves
      exact ⟨rfl, rfl, rfl, rfl, rfl, le_refl _, fun ref _ => evolves ref⟩
    · exact Later.refl _
  | skip | recordLoras | setAside | lookup | preempt | run | admitRequest =>
    exact ⟨rfl, rfl, rfl, rfl, rfl, le_refl _, fun ref _ => evolves ref⟩

theorem Moves.later [TupleHash] (moves : Moves s p t p') : Later s t :=
  moves.invariant (I := fun u _ => Later s u) (Later.refl s) fun _ _ _ _ _ before move => before.trans move.later

variable {out : SchedulerOutput}

theorem later_schedule [TupleHash] (call : schedule s = .ok out t) : Later s t := by
  obtain ⟨u, p, moves, scheduled⟩ := schedule_ok call
  rw [scheduled.state]
  obtain ⟨a, b, c, d, e, f, g⟩ := moves.later
  exact ⟨a, b, c, d, e, f, g⟩

structure Remains (s t : Scheduler) : Prop where
  later : Later s t
  running : t.running.Sublist s.running
  waiting : ∃ new, t.waiting.Sublist (s.waiting ++ new) ∧ (new = [] ∨ new = [s.numObjects] ∧ s.numObjects < t.numObjects)

variable {finishedStatus : RequestStatus}

theorem remains_finishRequest {id : RequestId} {v : Unit}
    (call : finishRequest finishedStatus id s = .ok v t) :
    Later s t ∧ t.running.Sublist s.running ∧ t.waiting.Sublist s.waiting := by
  rcases finishRequest_ok call with ⟨-, rfl⟩ | ⟨ref, dequeued, -, left, -, -, freed, manager, -, -, rfl⟩
  · exact ⟨Later.refl _, List.Sublist.refl _, List.Sublist.refl _⟩
  · have evolves : Evolves (s.objects ref) ((s.objects ref).setStatus finishedStatus) :=
      Evolves.of_same rfl rfl rfl rfl rfl rfl rfl rfl rfl
    cases left with
    | running =>
      refine ⟨⟨?_, ?_, ?_, ?_, ?_, ?_, fun ref' _ => evolves_update ?objects evolves ref'⟩, ?_, ?_⟩
      case objects => rfl
      all_goals simp [List.erase_sublist]
    | waiting =>
      refine ⟨⟨?_, ?_, ?_, ?_, ?_, ?_, fun ref' _ => evolves_update ?objects evolves ref'⟩, ?_, ?_⟩
      case objects => rfl
      all_goals simp [List.erase_sublist]

theorem remains_finishEach {ids : List RequestId} {v : PUnit}
    (call : ids.forM (finishRequest finishedStatus) s = .ok v t) :
    Later s t ∧ t.running.Sublist s.running ∧ t.waiting.Sublist s.waiting := by
  induction ids generalizing s with
  | nil =>
    cases call
    exact ⟨Later.refl _, List.Sublist.refl _, List.Sublist.refl _⟩
  | cons id rest ih =>
    obtain ⟨_, w, first, others⟩ := bind_ok call
    obtain ⟨later, running, waiting⟩ := remains_finishRequest first
    obtain ⟨later', running', waiting'⟩ := ih others
    exact ⟨later.trans later', running'.trans running, waiting'.trans waiting⟩

variable {result : ModelRunnerOutput}

theorem Updated.frame {n : ℕ} {gen new : List TokenId}
    {request : Request} {stopped : Bool} (updated : Updated out result ref n gen new request stopped s t) :
    Later s t ∧ t.running = s.running ∧ t.waiting = s.waiting ∧ t.objects = Function.update s.objects ref request := by
  rcases updated.state with ⟨-, rfl⟩ | ⟨-, v, ⟨-, -, freed, manager, -, -, rfl⟩, rfl⟩
  · refine ⟨⟨rfl, rfl, rfl, rfl, rfl, le_refl _, fun ref' _ => ?_⟩, rfl, rfl, rfl⟩
    apply evolves_update
    · rfl
    · exact updated.evolves
  · have objects : (setScheduledReqIds (s.scheduledReqIds.erase (s.objects ref).requestId) (released ref
        (setKVCacheManager manager (setRequest ref request (s.freeComputedInputs request))))).objects =
        Function.update s.objects ref request := by
      funext ref'
      simp only [setScheduledReqIds_objects, released_objects, setKVCacheManager_objects, setRequest_objects]
      rw [Function.update_apply, Function.update_apply, freeComputedInputs_objects]
    refine ⟨⟨?_, ?_, ?_, ?_, ?_, ?_, fun ref' _ => evolves_update objects updated.evolves ref'⟩, ?_, ?_, objects⟩
    all_goals simp

theorem remains_updateFromOutput
    {outputs : List EngineCoreOutput} (call : updateFromOutput out result s = .ok outputs t) :
    Later s t ∧ t.running.Sublist s.running ∧ t.waiting = s.waiting := by
  unfold updateFromOutput at call
  rw [get_bind] at call
  obtain ⟨found, v, updates, call⟩ := bind_ok call
  obtain ⟨sent, newRunning⟩ := found
  cases call
  have start : Later s s ∧ s.waiting = s.waiting ∧ ([] ++ s.running).Sublist s.running :=
    ⟨Later.refl s, rfl, List.Sublist.refl _⟩
  have after := updateEach_invariant
    (I := fun kept rest v => Later s v ∧ v.waiting = s.waiting ∧ (kept ++ rest).Sublist s.running) ?_ start updates
  · obtain ⟨⟨a, b, c, d, e, f, g⟩, waiting, sublist⟩ := after
    rw [List.append_nil] at sublist
    exact ⟨⟨a, b, c, d, e, f, g⟩, sublist, waiting⟩
  · intro kept ref rest v w sent stopped before updated
    obtain ⟨later, waiting, sublist⟩ := before
    have fewer : ((if stopped then kept else kept ++ [ref]) ++ rest).Sublist s.running := by
      cases stopped with
      | true => exact ((List.sublist_cons_self ref rest).append_left kept).trans sublist
      | false => simpa using sublist
    rcases updateRequest_ok updated with ⟨-, -, rfl⟩ | ⟨n, gen, new, request, -, -, changed⟩
    · exact ⟨later, waiting, fewer⟩
    · obtain ⟨later', -, waiting', -⟩ := changed.frame
      exact ⟨later.trans later', waiting'.trans waiting, fewer⟩

theorem Between.remains (between : Between s t) : Remains s t := by
  cases between with
  | add unused new =>
    refine ⟨⟨rfl, rfl, rfl, rfl, rfl, Nat.le_succ _, fun ref less => ?_⟩, List.Sublist.refl _,
      [s.numObjects], List.Sublist.refl _, Or.inr ⟨rfl, Nat.lt_succ_self _⟩⟩
    rw [addRequest_objects, setRequest_objects, Function.update_of_ne (Nat.ne_of_lt less)]
    exact Evolves.refl _
  | finish call =>
    unfold finishRequests at call
    obtain ⟨_, _, checked, call⟩ := bind_ok call
    obtain ⟨-, rfl⟩ := check_ok checked
    obtain ⟨later, running, waiting⟩ := remains_finishEach call
    exact ⟨later, running, [], by rw [List.append_nil]; exact waiting, Or.inl rfl⟩
  | grammarReady ref =>
    refine ⟨⟨rfl, rfl, rfl, rfl, rfl, le_refl _, fun ref' _ => ?_⟩, List.Sublist.refl _, [],
      by rw [List.append_nil]; exact List.Sublist.refl _, Or.inl rfl⟩
    apply evolves_update
    · rfl
    · exact Evolves.of_same rfl rfl rfl rfl rfl rfl rfl rfl rfl
  | resetPrefixCache call =>
    obtain ⟨manager, -, rfl⟩ := zoom_ok call
    exact ⟨⟨rfl, rfl, rfl, rfl, rfl, le_refl _, fun _ _ => Evolves.refl _⟩, List.Sublist.refl _, [], by simp, Or.inl rfl⟩
  | update call =>
    obtain ⟨later, running, waiting⟩ := remains_updateFromOutput call
    exact ⟨later, running, [], by rw [waiting, List.append_nil], Or.inl rfl⟩

end Scheduler
end Vllm.V1
