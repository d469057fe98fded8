import VllmProofs.V1.SchedulerHistory

/-!
First come, first served: without structured output the running requests, and the waiting ones after
them, are in the order in which they were added.
-/

namespace Vllm.V1
open Exec

namespace Scheduler

variable {s t : Scheduler} {ref : RequestRef} {p p' : Pass}

/-- The requests without structured output, the running ones first. -/
def queue (s : Scheduler) : List RequestRef :=
  (s.running ++ s.waiting).filter fun ref => !(s.objects ref).useStructuredOutput

/-- Only for structured output does a request wait for a grammar. -/
def Grammars (s : Scheduler) : Prop :=
  ∀ ref, (s.objects ref).status = .waitingForFsm → (s.objects ref).useStructuredOutput = true

structure Ordered (s : Scheduler) : Prop where
  ordered : s.queue.Pairwise (· < ·)
  grammars : s.Grammars

theorem useStructuredOutput_of_evolves {r r' : Request} (evolves : Evolves r r') :
    r'.useStructuredOutput = r.useStructuredOutput := by
  unfold Request.useStructuredOutput
  rw [evolves.samplingParams]

theorem Grammars.update {request : Request} (grammars : s.Grammars)
    (objects : t.objects = Function.update s.objects ref request)
    (status : request.status = .waitingForFsm → request.useStructuredOutput = true) : t.Grammars := by
  intro ref'
  rw [objects, Function.update_apply]
  split
  · exact status
  · exact grammars ref'

theorem ne_waitingForFsm_of_isFinished {status : RequestStatus} (finished : status.isFinished) :
    status ≠ .waitingForFsm := by
  rintro rfl
  cases finished

theorem queue_of_same (running : t.running ++ t.waiting = s.running ++ s.waiting)
    (evolves : ∀ ref, Evolves (s.objects ref) (t.objects ref)) : t.queue = s.queue := by
  unfold queue
  rw [running]
  exact List.filter_congr fun ref _ => by rw [useStructuredOutput_of_evolves (evolves ref)]

variable [TupleHash]

/-- No request without structured output is overtaken, or set aside. -/
theorem queue_move (grammars : s.Grammars) (aside : ∀ ref ∈ p.waitingForFsm, (s.objects ref).useStructuredOutput = true)
    (move : Move (s, p) (t, p')) :
    t.queue = s.queue ∧ t.Grammars ∧ ∀ ref ∈ p'.waitingForFsm, (t.objects ref).useStructuredOutput = true := by
  have evolves := move.evolves
  have aside' : ∀ ref ∈ p.waitingForFsm, (t.objects ref).useStructuredOutput = true := by
    intro ref member
    rw [useStructuredOutput_of_evolves (evolves ref)]
    exact aside ref member
  cases move with
  | skip | recordLoras | lookup => exact ⟨rfl, grammars, aside'⟩
  | preempt attempt lacks last freed =>
    refine ⟨queue_of_same ?_ evolves, grammars.update rfl nofun, aside'⟩
    rw [last, List.append_assoc, List.singleton_append]
    rfl
  | @run _ _ ref plan newBlocks manager attempt got =>
    exact ⟨queue_of_same rfl evolves, grammars.update rfl (grammars ref), aside'⟩
  | @setAside _ _ ref rest turn queue waits =>
    have structured := grammars ref waits.1
    refine ⟨?_, grammars, ?_⟩
    · unfold Scheduler.queue
      rw [queue]
      show List.filter (fun ref => !(s.objects ref).useStructuredOutput) (s.running ++ rest) = _
      rw [List.filter_append, List.filter_append, List.filter_cons_of_neg]
      simp only [structured, Bool.not_true, Bool.false_eq_true, not_false_eq_true]
    · intro ref' member
      rcases List.mem_cons.mp member with rfl | old
      · exact structured
      · exact aside ref' old
  | @wake _ _ ref turn ready =>
    refine ⟨queue_of_same ?_ evolves, ?_, aside'⟩
    · rw [wake_running, wake_waiting]
    · unfold Scheduler.wake
      split
      · exact grammars.update rfl nofun
      · exact grammars
  | @admitRequest _ _ ref hits newBlocks c n plan looked manager attempt status got =>
    obtain ⟨rest, queue⟩ := attempt.waiting
    refine ⟨queue_of_same ?_ evolves, grammars.update rfl nofun, aside'⟩
    show s.running ++ [ref] ++ s.waiting.tail = s.running ++ s.waiting
    rw [queue, List.tail_cons, List.append_assoc, List.singleton_append]

theorem queue_moves (grammars : s.Grammars) (moves : Moves s s.startPass t p) :
    t.queue = s.queue ∧ t.Grammars ∧ ∀ ref ∈ p.waitingForFsm, (t.objects ref).useStructuredOutput = true := by
  apply moves.invariant (I := fun u q => u.queue = s.queue ∧ u.Grammars ∧
    ∀ ref ∈ q.waitingForFsm, (u.objects ref).useStructuredOutput = true)
  · exact ⟨rfl, grammars, nofun⟩
  · intro u q u' q' _ before move
    obtain ⟨same, grammars', aside⟩ := before
    obtain ⟨same', after⟩ := queue_move grammars' aside move
    exact ⟨same'.trans same, after⟩

theorem Ordered.schedule {out : SchedulerOutput} (ordered : s.Ordered) (call : schedule s = .ok out t) :
    t.Ordered ∧ t.queue = s.queue := by
  obtain ⟨u, p, moves, scheduled⟩ := schedule_ok call
  obtain ⟨same, grammars, aside⟩ := queue_moves ordered.grammars moves
  have put : t.queue = u.queue := by
    rw [scheduled.state]
    show (u.running ++ (p.waitingForFsm.reverse ++ u.waiting)).filter (fun ref => !(u.objects ref).useStructuredOutput) =
      (u.running ++ u.waiting).filter fun ref => !(u.objects ref).useStructuredOutput
    have none : p.waitingForFsm.reverse.filter (fun ref => !(u.objects ref).useStructuredOutput) = [] := by
      apply List.filter_eq_nil_iff.mpr
      intro ref member
      simp [aside ref (List.mem_reverse.mp member)]
    rw [List.filter_append, List.filter_append, List.filter_append, none, List.nil_append]
  have all := put.trans same
  refine ⟨⟨?_, ?_⟩, all⟩
  · rw [all]
    exact ordered.ordered
  · rw [scheduled.state]
    exact grammars

variable {finishedStatus : RequestStatus}

omit [TupleHash] in
theorem Grammars.finishRequest {id : RequestId} {u : Unit} (grammars : s.Grammars)
    (call : finishRequest finishedStatus id s = .ok u t) : t.Grammars := by
  rcases finishRequest_ok call with ⟨-, rfl⟩ | ⟨ref, dequeued, -, left, finished, -, freed, manager, -, -, rfl⟩
  · exact grammars
  · rw [setRequest_objects, Function.update_self] at finished
    have never := ne_waitingForFsm_of_isFinished finished
    cases left with
    | running | waiting => exact grammars.update rfl fun waits => absurd waits never

omit [TupleHash] in
theorem Grammars.finishEach {ids : List RequestId} {u : PUnit} (grammars : s.Grammars)
    (call : ids.forM (Scheduler.finishRequest finishedStatus) s = .ok u t) : t.Grammars := by
  induction ids generalizing s with
  | nil =>
    cases call
    exact grammars
  | cons id rest ih =>
    obtain ⟨_, v, first, others⟩ := bind_ok call
    exact ih (grammars.finishRequest first) others

omit [TupleHash] in
theorem Grammars.updateRequest {out : SchedulerOutput} {result : ModelRunnerOutput} {sent : Option EngineCoreOutput}
    {stopped : Bool} (grammars : s.Grammars) (call : updateRequest out result ref s = .ok (sent, stopped) t) :
    t.Grammars := by
  rcases updateRequest_ok call with ⟨-, -, rfl⟩ | ⟨n, gen, new, request, -, -, updated⟩
  · exact grammars
  · obtain ⟨-, -, -, objects⟩ := updated.frame
    apply grammars.update objects
    intro waits
    cases stopped with
    | true => exact absurd waits (ne_waitingForFsm_of_isFinished (updated.stops rfl).1)
    | false =>
      rw [useStructuredOutput_of_evolves updated.evolves]
      exact grammars ref ((updated.goes rfl).1.symm.trans waits)

omit [TupleHash] in
theorem Grammars.between (grammars : s.Grammars) (between : Between s t) : t.Grammars := by
  cases between with
  | add unused new =>
    apply grammars.update rfl
    intro waits
    rw [new.status] at waits
    split at waits
    · assumption
    · cases waits
  | @finish ids finishedStatus u t call =>
    unfold finishRequests at call
    obtain ⟨_, _, checked, call⟩ := bind_ok call
    obtain ⟨-, rfl⟩ := check_ok checked
    exact grammars.finishEach call
  | grammarReady ref => exact grammars.update rfl (grammars ref)
  | resetPrefixCache call =>
    obtain ⟨manager, -, rfl⟩ := zoom_ok call
    exact grammars
  | @update out result outputs t call =>
    unfold updateFromOutput at call
    rw [get_bind] at call
    obtain ⟨found, v, updates, call⟩ := bind_ok call
    obtain ⟨sent, newRunning⟩ := found
    cases call
    exact @updateEach_invariant s v out result (fun _ _ v => v.Grammars) s.running outputs newRunning
      (fun _ _ _ _ _ _ _ before updated => before.updateRequest updated) [] grammars updates

omit [TupleHash] in
theorem Ordered.between (serving : s.Serving) (ordered : s.Ordered) (between : Between s t) : t.Ordered := by
  refine ⟨?_, ordered.grammars.between between⟩
  obtain ⟨later, running, new, waiting, last⟩ := between.remains
  have known : ∀ ref ∈ s.running ++ s.waiting, ref < s.numObjects := fun ref member =>
    (serving.queued.known ref member).1
  have longer : (t.running ++ t.waiting).Sublist ((s.running ++ s.waiting) ++ new) := by
    rw [List.append_assoc]
    exact running.append waiting
  have same : (s.running ++ s.waiting).filter (fun ref => !(t.objects ref).useStructuredOutput) = s.queue :=
    List.filter_congr fun ref member => by
      rw [useStructuredOutput_of_evolves (later.evolves ref (known ref member))]
  have all : (((s.running ++ s.waiting) ++ new).filter fun ref => !(t.objects ref).useStructuredOutput).Pairwise
      (· < ·) := by
    rw [List.filter_append, same, List.pairwise_append]
    refine ⟨ordered.ordered, ?_, ?_⟩
    · apply List.Pairwise.filter
      rcases last with rfl | ⟨rfl, -⟩
      · exact List.Pairwise.nil
      · exact List.pairwise_singleton _ _
    · intro ref member ref' member'
      have old := known ref (List.mem_of_mem_filter member)
      rcases last with rfl | ⟨rfl, -⟩
      · cases member'
      · rw [List.mem_singleton.mp (List.mem_of_mem_filter member')]
        exact old
  exact all.sublist (longer.filter _)

omit [TupleHash] in
theorem ordered_init (config : SchedulerConfig) : (init config).Ordered := ⟨List.Pairwise.nil, nofun⟩

end Scheduler
end Vllm.V1
