import VllmProofs.Scheduler.QueueMoves

/-!
The groups that a schedule gives up in the swapped queue were there when it began: until then it
leaves that queue alone.
-/

namespace Vllm
open Exec

namespace Scheduling
open Scheduler

variable {M β : Type} [BlockSpaceManager M] [LawfulBlockSpaceManager M]
  {s t : Scheduling M}

def swappedQueue (s : Scheduling M) : List GroupRef := s.board.swapped

theorem swapped_of_board {method : Method (Scheduling M) β} (kept : Fixes board method) :
    Fixes swappedQueue method := fun s a t call => congrArg Board.swapped (kept s a t call)

theorem swapped_of_queues {method : Method (Scheduler M) β} (kept : Fixes queues method) :
    Fixes swappedQueue (onScheduler method) := by
  refine Keeps.zoom kept fun s u same => ?_
  simp only [queues, Prod.mk.injEq] at same
  exact same.2.2.1

theorem swapped_modify {f : Scheduler M → Scheduler M} (same : ∀ s, (f s).swapped = s.swapped) :
    Fixes swappedQueue (onScheduler (modify f)) := by
  refine Keeps.zoom (S := fun s t => t.swapped = s.swapped) (Keeps.modify same) fun s u kept => ?_
  exact kept

section
variable [OutputProcessor M] [LawfulOutputProcessor M]

theorem finishedByOutput_swapped (victim : GroupRef) :
    Fixes swappedQueue (finishedByOutput victim : Method (Scheduling M) Bool) := by
  unfold finishedByOutput
  refine Keeps.bind (swapped_of_board getScheduler_board) fun s => Keeps.ite ?_ (Keeps.pure _)
  refine Keeps.bind (fun s a t call => ?_) fun _ => ?_
  · have queues := LawfulOutputProcessor.queues _ _ _ _ (onScheduler_call call)
    unfold swappedQueue board
    rw [queues]
  refine Keeps.bind (swapped_of_board (onScheduler_board (group_board _))) fun group => ?_
  refine Keeps.ite (Keeps.bind (fun s a t call => ?_) fun _ => Keeps.pure _) (Keeps.pure _)
  unfold swappedQueue board
  rw [freeFinishedSeqGroup_board (onScheduler_call call)]

theorem preemptVictim_swapped (victim : GroupRef) (ret : SchedulerRunningOutputs) :
    Fixes swappedQueue (preemptVictim victim ret : Method (Scheduling M) _) := by
  unfold preemptVictim
  refine Keeps.bind (finishedByOutput_swapped victim) fun done => Keeps.ite (Keeps.pure _) ?_
  refine Keeps.bind (swapped_of_queues (preempt_queues victim)) fun preempted => ?_
  obtain ⟨mode, mapping⟩ := preempted
  cases mode with
  | recompute => exact Keeps.pure _
  | swap => exact Keeps.pure _

theorem preemptItself_swapped (g : GroupRef) (ret : SchedulerRunningOutputs) :
    Fixes swappedQueue (preemptItself g ret : Method (Scheduling M) _) := by
  unfold preemptItself
  exact Keeps.bind (preemptVictim_swapped g ret) fun _ => Keeps.pure _

theorem makeRoom_swapped (g : GroupRef) (numRunningTokens : ℤ) (enableChunking : Bool) (rounds : ℕ)
    (ret : SchedulerRunningOutputs) : Fixes swappedQueue
      (makeRoom g numRunningTokens enableChunking rounds ret : Method (Scheduling M) _) := by
  induction rounds generalizing ret with
  | zero =>
    unfold makeRoom
    refine Keeps.bind (swapped_of_board (onScheduler_board (canAppendSlots_board _ _))) fun can => ?_
    refine Keeps.ite (Keeps.pure _) (Keeps.bind (swapped_of_board (withdraw_board _ _)) fun _ => ?_)
    exact preemptItself_swapped g ret
  | succ rounds ih =>
    unfold makeRoom
    refine Keeps.bind (swapped_of_board (onScheduler_board (canAppendSlots_board _ _))) fun can => ?_
    refine Keeps.ite (Keeps.pure _) (Keeps.bind (swapped_of_board (withdraw_board _ _)) fun _ => ?_)
    refine Keeps.bind (swapped_of_board getScheduler_board) fun s => ?_
    cases s.running.getLast? with
    | none => exact preemptItself_swapped g ret
    | some victim =>
      refine Keeps.bind (swapped_modify fun _ => rfl) fun _ => ?_
      exact Keeps.bind (preemptVictim_swapped victim ret) fun ret => ih ret

omit [OutputProcessor M] [LawfulOutputProcessor M] in
theorem scheduleRunningGroup_swapped (g : GroupRef) (numRunningTokens : ℤ) (enableChunking : Bool)
    (ret : SchedulerRunningOutputs) : Fixes swappedQueue
      (scheduleRunningGroup g numRunningTokens enableChunking ret : Method (Scheduling M) _) := by
  unfold scheduleRunningGroup
  refine Keeps.bind (swapped_of_board (onScheduler_board (appendSlots_board _ _))) fun cows => ?_
  refine Keeps.bind (swapped_of_board (onScheduler_board (group_board _))) fun seqGroup => ?_
  refine Keeps.bind (swapped_of_board (countScheduled_board _ _ _)) fun _ => ?_
  refine Keeps.bind (swapped_of_board (addLora_board _)) fun _ => ?_
  exact Keeps.ite (Keeps.pure _) (Keeps.pure _)

theorem scheduleRunningLoop_swapped (enableChunking : Bool) (rounds : ℕ)
    (ret : SchedulerRunningOutputs) : Fixes swappedQueue
      (scheduleRunningLoop enableChunking rounds ret : Method (Scheduling M) _) := by
  induction rounds generalizing ret with
  | zero => exact Keeps.pure _
  | succ rounds ih =>
    unfold scheduleRunningLoop
    refine Keeps.bind (swapped_of_board getScheduler_board) fun s => ?_
    cases s.running with
    | nil => exact Keeps.pure _
    | cons g rest =>
      refine Keeps.bind (swapped_of_board (getNumNewUncachedAndCachedTokens_board _ _ _)) fun tokens => ?_
      refine Keeps.ite (Keeps.pure _) (Keeps.bind (swapped_modify fun _ => rfl) fun _ => ?_)
      refine Keeps.ite (Keeps.bind (swapped_modify fun _ => rfl) fun _ => ih ret) ?_
      refine Keeps.bind (makeRoom_swapped _ _ _ _ _) fun made => Keeps.ite ?_ (ih _)
      exact Keeps.bind (scheduleRunningGroup_swapped _ _ _ _) fun ret => ih ret

theorem scheduleRunning_swapped (enableChunking : Bool) :
    Fixes swappedQueue (scheduleRunning enableChunking : Method (Scheduling M) _) := by
  unfold scheduleRunning
  refine Keeps.bind (swapped_of_board getScheduler_board) fun s => Keeps.bind ?_ fun _ => ?_
  · exact assertThat_keeps _
  · exact scheduleRunningLoop_swapped _ _ _

end

theorem forcePreempt_swapped (seqGroup : SequenceGroup) (uncached numNewSeqs : ℤ)
    (queue : List GroupRef) : Fixes swappedQueue
      (forcePreempt seqGroup uncached numNewSeqs queue : Method (Scheduling M) _) := by
  induction queue with
  | nil => exact Keeps.pure _
  | cons victim others ih =>
    unfold forcePreempt
    refine Keeps.bind (swapped_of_board getScheduler_board) fun s => Keeps.ite ?_ (Keeps.pure _)
    refine Keeps.bind (swapped_of_board (fitsNow_board _ _ _)) fun fits => Keeps.ite (Keeps.pure _) ?_
    refine Keeps.bind (swapped_of_board (getNumNewUncachedAndCachedTokens_board _ _ _)) fun tokens => ?_
    refine Keeps.bind (swapped_of_board (releaseBudget_board _ _)) fun _ => ?_
    refine Keeps.bind (swapped_of_queues (preempt_queues victim)) fun _ => ?_
    exact Keeps.bind (swapped_modify fun _ => rfl) fun _ => Keeps.bind ih fun _ => Keeps.pure _

theorem preemptForWaiting_swapped (queue : List GroupRef) :
    Fixes swappedQueue (preemptForWaiting queue : Method (Scheduling M) _) := by
  unfold preemptForWaiting
  refine Keeps.bind (swapped_of_board getScheduler_board) fun s => ?_
  cases s.waiting with
  | nil => exact Keeps.pure _
  | cons g rest =>
    refine Keeps.bind (swapped_modify fun _ => rfl) fun _ => ?_
    refine Keeps.bind (swapped_of_board (getNumNewUncachedAndCachedTokens_board _ _ _)) fun tokens => ?_
    refine Keeps.bind (forcePreempt_swapped _ _ _ _) fun outcome => ?_
    exact Keeps.bind (swapped_modify fun _ => rfl) fun _ => Keeps.pure _

theorem schedulePriorityPreemption_swapped :
    Fixes swappedQueue (schedulePriorityPreemption : Method (Scheduling M) ℕ) := by
  unfold schedulePriorityPreemption
  refine Keeps.bind (swapped_of_board getScheduler_board) fun s => ?_
  refine Keeps.bind (preemptForWaiting_swapped _) fun outcome => ?_
  exact Keeps.bind (swapped_modify fun _ => rfl) fun _ => Keeps.pure _

theorem setWaiting_swapped (waiting : List GroupRef) :
    Fixes swappedQueue (setWaiting waiting : Method (Scheduling M) Unit) := swapped_modify fun _ => rfl

theorem start_swapped (g : GroupRef) (rest : List GroupRef) (uncached cached : ℤ)
    (enableChunking : Bool) : Fixes swappedQueue
      (start g rest uncached cached enableChunking : Method (Scheduling M) Unit) := by
  unfold start
  refine Keeps.bind (swapped_of_board (onScheduler_board (group_board _))) fun seqGroup => ?_
  refine Keeps.bind (swapped_of_board (countAdapter_board _)) fun _ => ?_
  refine Keeps.bind (setWaiting_swapped rest) fun _ => ?_
  refine Keeps.bind (swapped_of_queues (allocateAndSetRunning_queues g)) fun _ => ?_
  refine Keeps.bind (swapped_of_board (prepare_board _ _ _)) fun _ => ?_
  refine Keeps.bind (swapped_of_board (onBudget_board _)) fun _ => ?_
  exact swapped_of_board (onBudget_board _)

theorem schedulePrefillsLoop_swapped (enableChunking : Bool) (rounds : ℕ) (leftover : List GroupRef)
    (ret : SchedulerPrefillOutputs) : Fixes swappedQueue
      (schedulePrefillsLoop enableChunking rounds leftover ret : Method (Scheduling M) _) := by
  induction rounds generalizing leftover ret with
  | zero =>
    unfold schedulePrefillsLoop
    exact Keeps.bind (swapped_of_board (onScheduler_board delayHasPassed_board)) fun _ => Keeps.pure _
  | succ rounds ih =>
    unfold schedulePrefillsLoop
    refine Keeps.bind (swapped_of_board (onScheduler_board delayHasPassed_board)) fun passed => ?_
    refine Keeps.bind (swapped_of_board getScheduler_board) fun s => ?_
    cases passed with
    | false => exact Keeps.pure _
    | true =>
      cases s.waiting with
      | nil => exact Keeps.pure _
      | cons g rest =>
        refine Keeps.bind (swapped_of_board (considerPrefill_board _ _)) fun decision => ?_
        cases decision with
        | stop => exact Keeps.pure _
        | leave => exact Keeps.bind (setWaiting_swapped rest) fun _ => ih _ _
        | fail =>
          refine Keeps.bind ?_ fun _ => ih _ _
          unfold ignore
          exact Keeps.bind (swapped_of_queues (updateGroup_queues g _)) fun _ => setWaiting_swapped rest
        | take uncached cached => exact Keeps.bind (start_swapped _ _ _ _ _) fun _ => ih _ _

theorem schedulePrefills_swapped (enableChunking : Bool) :
    Fixes swappedQueue (schedulePrefills enableChunking : Method (Scheduling M) _) := by
  unfold schedulePrefills
  refine Keeps.bind Keeps.get fun s => Keeps.ite (Keeps.pure _) ?_
  refine Keeps.bind (schedulePrefillsLoop_swapped _ _ _ _) fun looped => ?_
  exact Keeps.bind (swapped_modify fun _ => rfl) fun _ => Keeps.pure _

variable {ret : SchedulerSwappedInOutputs} {enableChunking : Bool} {ret' : SchedulerSwappedInOutputs}

theorem resume_infeasible {g : GroupRef} {isPrefill : Bool} {uncached cached : ℤ}
    (call : resume g isPrefill uncached cached enableChunking ret s = .ok ret' t) :
    ret'.infeasibleSeqGroups = ret.infeasibleSeqGroups ∧ t.board.swapped = s.board.swapped := by
  unfold resume at call
  obtain ⟨mapping, u, swapped, call⟩ := bind_ok call
  obtain ⟨cows, v, appended, call⟩ := bind_ok call
  obtain ⟨seqGroup, w, read, call⟩ := bind_ok call
  obtain ⟨_, x, batched, call⟩ := bind_ok call
  obtain ⟨_, y, counted, call⟩ := bind_ok call
  have zeroth := swapped_of_queues (swapIn_queues g) _ _ _ swapped
  have first := swapped_of_board (onScheduler_board (appendSlots_board _ _)) _ _ _ appended
  have second := swapped_of_board (onScheduler_board (group_board _)) _ _ _ read
  have third := swapped_of_board (onBudget_board _) _ _ _ batched
  have fourth := swapped_of_board (onBudget_board _) _ _ _ counted
  have same : y.board.swapped = s.board.swapped :=
    fourth.trans (third.trans (second.trans (first.trans zeroth)))
  split at call
  · cases call
    exact ⟨rfl, same⟩
  · cases call
    exact ⟨rfl, same⟩

theorem scheduleSwappedLoop_infeasible {rounds : ℕ} {leftover leftover' queue : List GroupRef}
    (queued : ∀ g ∈ s.board.swapped, g ∈ queue)
    (failed : ∀ g ∈ ret.infeasibleSeqGroups, g ∈ queue)
    (call : scheduleSwappedLoop enableChunking rounds leftover ret s = .ok (leftover', ret') t) :
    ∀ g ∈ ret'.infeasibleSeqGroups, g ∈ queue := by
  induction rounds generalizing leftover ret s with
  | zero =>
    cases call
    exact failed
  | succ rounds ih =>
    unfold scheduleSwappedLoop at call
    obtain ⟨s', u, read, call⟩ := bind_ok call
    obtain ⟨rfl, rfl⟩ := getScheduler_call read
    cases first : u.scheduler.swapped with
    | nil =>
      simp only [first] at call
      cases call
      exact failed
    | cons g rest =>
      simp only [first] at call
      have head : u.board.swapped = g :: rest := first
      rw [head] at queued
      have later : ∀ v : Scheduling M, v.board.swapped = rest → ∀ g ∈ v.board.swapped, g ∈ queue := by
        intro v popped g' member
        rw [popped] at member
        exact queued g' (List.mem_cons_of_mem _ member)
      obtain ⟨decision, v, decided, call⟩ := bind_ok call
      cases decision with
      | stop =>
        cases call
        exact failed
      | leave =>
        obtain ⟨_, w, popped, last⟩ := bind_ok call
        exact ih (later w (by rw [setSwapped_board popped])) failed last
      | fail =>
        obtain ⟨_, w, ignored, call⟩ := bind_ok call
        obtain ⟨_, x, popped, last⟩ := bind_ok call
        refine ih (later x (by rw [setSwapped_board popped])) ?_ last
        intro g' member
        cases List.mem_append.mp member with
        | inl before => exact failed g' before
        | inr now => exact queued g' (List.mem_singleton.mp now ▸ List.mem_cons_self)
      | take uncached cached =>
        obtain ⟨_, w, adapted, call⟩ := bind_ok call
        obtain ⟨_, x, popped, call⟩ := bind_ok call
        obtain ⟨ret'', y, resumed, last⟩ := bind_ok call
        obtain ⟨kept, same⟩ := resume_infeasible resumed
        refine ih (later y ?_) (by rwa [kept]) last
        rw [same, setSwapped_board popped]

theorem scheduleSwapped_infeasible (call : scheduleSwapped enableChunking s = .ok ret t) :
    ∀ g ∈ ret.infeasibleSeqGroups, g ∈ s.board.swapped := by
  unfold scheduleSwapped at call
  obtain ⟨s', u, read, call⟩ := bind_ok call
  obtain ⟨rfl, rfl⟩ := getScheduler_call read
  rw [get_bind, modify_bind] at call
  obtain ⟨⟨leftover, ret'⟩, v, looped, call⟩ := bind_ok call
  dsimp only at call
  rw [modify_bind] at call
  obtain ⟨_, w, restored, last⟩ := bind_ok call
  cases last
  refine scheduleSwappedLoop_infeasible (s := { u with partialPrefillMetadata := none })
    (fun g member => member) ?_ looped
  simp

end Scheduling
end Vllm
