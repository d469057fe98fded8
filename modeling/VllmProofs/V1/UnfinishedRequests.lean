import VllmProofs.V1.ScheduledBatch

/-!
The scheduler forgets no request that is not finished.
-/

namespace Vllm.V1
open Exec

namespace Scheduler

variable {s t : Scheduler} {ref : RequestRef} {p p' : Pass}

def Accounted (s : Scheduler) : Prop :=
  ∀ ref < s.numObjects, (s.objects ref).isFinished = false →
    s.requests.get? (s.objects ref).requestId = some ref

theorem Accounted.update (ref : RequestRef) (request : Request) (accounted : s.Accounted) (known : s.requests.get? (s.objects ref).requestId = some ref)
    (objects : t.objects = Function.update s.objects ref request)
    (named : request.requestId = (s.objects ref).requestId) (numObjects : t.numObjects = s.numObjects)
    (requests : t.requests = s.requests) : t.Accounted := by
  intro ref' less unfinished
  rw [numObjects] at less
  rw [objects, Function.update_apply] at unfinished ⊢
  rw [requests]
  split at unfinished
  · rename_i here
    rw [if_pos here, named, here]
    exact known
  · rename_i other
    rw [if_neg other]
    exact accounted ref' less unfinished

theorem Accounted.remove (request : Request) (accounted : s.Accounted)
    (known : s.requests.get? (s.objects ref).requestId = some ref)
    (objects : t.objects = Function.update s.objects ref request) (finished : request.isFinished)
    (numObjects : t.numObjects = s.numObjects)
    (requests : t.requests = s.requests.erase (s.objects ref).requestId) : t.Accounted := by
  intro ref' less unfinished
  rw [numObjects] at less
  rw [objects, Function.update_apply] at unfinished ⊢
  split at unfinished
  · rw [finished] at unfinished
    cases unfinished
  · rename_i other
    have mine := accounted ref' less unfinished
    rw [if_neg other, requests, Dict.get?_erase_ne]
    · exact mine
    · intro same
      rw [same, known, Option.some.injEq] at mine
      exact other mine.symm

theorem Accounted.same (accounted : s.Accounted) (objects : t.objects = s.objects)
    (numObjects : t.numObjects = s.numObjects) (requests : t.requests = s.requests) : t.Accounted := by
  intro ref less unfinished
  rw [numObjects] at less
  rw [objects] at unfinished ⊢
  rw [requests]
  exact accounted ref less unfinished

theorem Accounted.add {request : Request} (accounted : s.Accounted)
    (unused : s.requests.get? request.requestId = none) : (s.addRequest request).Accounted := by
  intro ref less unfinished
  rw [addRequest_objects, setRequest_objects, Function.update_apply] at unfinished ⊢
  show (s.requests.insert request.requestId s.numObjects).get? _ = _
  split at unfinished
  · rename_i here
    rw [if_pos here, Dict.get?_insert_self, here]
  · rename_i other
    have mine := accounted ref (Nat.lt_of_le_of_ne (Nat.le_of_lt_succ less) other) unfinished
    rw [if_neg other, Dict.get?_insert_ne]
    · exact mine
    · intro same
      rw [same, unused] at mine
      cases mine

variable {finishedStatus : RequestStatus}

theorem Accounted.finishRequest {id : RequestId} {u : Unit} (serving : s.Serving)
    (accounted : s.Accounted) (call : finishRequest finishedStatus id s = .ok u t) : t.Accounted := by
  rcases finishRequest_ok call with ⟨-, rfl⟩ | ⟨ref, dequeued, found, left, finished, -, freed, manager, -, -, rfl⟩
  · exact accounted
  · rw [setRequest_objects, Function.update_self] at finished
    have named := (serving.queued.queued id ref found).2
    have known : s.requests.get? (s.objects ref).requestId = some ref := by rw [named, found]
    cases left with
    | running | waiting =>
      apply accounted.remove ((s.objects ref).setStatus finishedStatus) known
      · rfl
      · exact finished
      · rfl
      · simp

theorem Accounted.finishEach {ids : List RequestId} {u : PUnit} (serving : s.Serving)
    (accounted : s.Accounted) (call : ids.forM (Scheduler.finishRequest finishedStatus) s = .ok u t) :
    t.Accounted := by
  induction ids generalizing s with
  | nil =>
    cases call
    exact accounted
  | cons id rest ih =>
    obtain ⟨_, v, first, others⟩ := bind_ok call
    exact ih (serving.finishRequest first) (accounted.finishRequest serving first) others

theorem Accounted.updateRequest {out : SchedulerOutput} {result : ModelRunnerOutput} {sent : Option EngineCoreOutput}
    {stopped : Bool} {kept rest : List RequestRef} (serving : (s.setRunning (kept ++ ref :: rest)).Serving)
    (accounted : s.Accounted) (call : updateRequest out result ref s = .ok (sent, stopped) t) : t.Accounted := by
  have member : ref ∈ kept ++ ref :: rest := List.mem_append_right _ List.mem_cons_self
  have known : s.requests.get? (s.objects ref).requestId = some ref :=
    (serving.queued.known ref (List.mem_append_left _ member)).2
  rcases updateRequest_ok call with ⟨-, -, rfl⟩ | ⟨n, gen, new, request, -, -, updated⟩
  · exact accounted
  · obtain ⟨-, -, -, objects⟩ := updated.frame
    rcases updated.state with ⟨-, rfl⟩ | ⟨rfl, v, ⟨-, -, freed, manager, -, -, rfl⟩, rfl⟩
    · apply accounted.update ref request known objects
      · exact updated.evolves.requestId
      · rfl
      · rfl
    · apply accounted.remove request known objects
      · exact (updated.stops rfl).1
      · simp
      · have named := updated.evolves.requestId
        simp [named]

theorem Accounted.between (serving : s.Serving) (accounted : s.Accounted) (between : Between s t) : t.Accounted := by
  cases between with
  | add unused new => exact accounted.add unused
  | finish call =>
    unfold finishRequests at call
    obtain ⟨_, _, checked, call⟩ := bind_ok call
    obtain ⟨-, rfl⟩ := check_ok checked
    exact accounted.finishEach serving call
  | grammarReady ref =>
    intro ref' less unfinished
    have named : ((s.grammarReady ref).objects ref').requestId = (s.objects ref').requestId := by
      apply requestId_update
      · rfl
      · rfl
    rw [named]
    apply accounted ref' less
    rw [← unfinished]
    show _ = (Function.update s.objects ref { s.objects ref with grammarIsReady := true } ref').isFinished
    rw [Function.update_apply]
    split
    · rename_i here
      rw [here]
      rfl
    · rfl
  | resetPrefixCache call =>
    obtain ⟨manager, -, rfl⟩ := zoom_ok call
    exact accounted.same rfl rfl rfl
  | @update out result outputs t call =>
    unfold updateFromOutput at call
    rw [get_bind] at call
    obtain ⟨found, v, updates, call⟩ := bind_ok call
    obtain ⟨sent, newRunning⟩ := found
    cases call
    have start : (s.setRunning ([] ++ s.running)).Serving ∧ s.Accounted := ⟨serving, accounted⟩
    have after := updateEach_invariant (I := fun kept rest v => (v.setRunning (kept ++ rest)).Serving ∧ v.Accounted)
      (fun _ _ _ _ _ _ _ before updated =>
        ⟨before.1.updateRequest updated, before.2.updateRequest before.1 updated⟩) start updates
    exact after.2.same rfl rfl rfl

variable [TupleHash]

/-- Only requests in a queue change while `schedule` runs. -/
theorem Accounted.move (serving : (putBack p s).Serving) (accounted : s.Accounted) (move : Move (s, p) (t, p')) :
    t.Accounted := by
  have known : ∀ ref ∈ s.running ++ (putBack p s).waiting, s.requests.get? (s.objects ref).requestId = some ref :=
    fun ref member => (serving.queued.known ref member).2
  cases move with
  | skip | recordLoras | setAside | lookup => exact accounted.same rfl rfl rfl
  | @wake _ _ ref turn ready =>
    unfold Scheduler.wake
    split
    · apply accounted.update ref ((s.objects ref).setStatus .waiting)
      · exact known ref (List.mem_append_right _ turn.waits)
      · rfl
      · rfl
      · rfl
      · rfl
    · exact accounted
  | @preempt _ _ rest ref ref' plan manager attempt lacks last freed =>
    apply accounted.update ref ((s.objects ref).preempt)
    · apply known ref
      rw [last]
      exact List.mem_append_left _ (List.mem_append_right _ (List.mem_singleton.mpr rfl))
    · rfl
    · rfl
    · rfl
    · rfl
  | @run _ _ ref plan newBlocks manager attempt got =>
    apply accounted.update ref ((s.objects ref).trimmed plan.numNewTokens)
    · exact known ref (List.mem_append_left _ attempt.running)
    · rfl
    · rfl
    · rfl
    · rfl
  | @admitRequest _ _ ref hits newBlocks c n plan looked manager attempt status got =>
    apply accounted.update ref ((s.objects ref).run c)
    · exact known ref (List.mem_append_right _ attempt.toWaitingTurn.waits)
    · rfl
    · rfl
    · rfl
    · rfl

theorem Accounted.schedule {out : SchedulerOutput} (serving : s.Serving) (accounted : s.Accounted)
    (call : schedule s = .ok out t) : t.Accounted := by
  obtain ⟨u, p, moves, scheduled⟩ := schedule_ok call
  rw [scheduled.state]
  have after : u.Accounted := moves.invariant (I := fun v _ => v.Accounted) accounted fun v q _ _ before kept move =>
    kept.move (serving.moves before) move
  exact after.same rfl rfl rfl

end Scheduler
end Vllm.V1
