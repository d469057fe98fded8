import VllmProofs.Data.Sieve
import VllmProofs.Scheduler.QueueMoves

/-!
Going through the waiting queue, or the swapped one, loses no group and takes none twice, and the groups that stay
in the queue are in the same order as before.
-/

namespace Vllm
open Exec

namespace Scheduling
open Scheduler

variable {M : Type} [BlockSpaceManager M] [LawfulBlockSpaceManager M] {s t : Scheduling M} {enableChunking : Bool}

def queues (s : Scheduling M) := s.scheduler.queues

omit [BlockSpaceManager M] [LawfulBlockSpaceManager M] in
theorem onScheduler_queues {β : Type} {method : Method (Scheduler M) β} (kept : Fixes Scheduler.queues method) :
    Fixes queues (onScheduler method) := Keeps.zoom kept fun _ _ same => same

theorem fixes_queues {β : Type} {method : Method (Scheduling M) β} (kept : Fixes board method) : Fixes queues method := by
  intro s a t call
  have same := kept s a t call
  have waiting := congrArg Board.waiting same
  have running := congrArg Board.running same
  have swapped := congrArg Board.swapped same
  have stopped := congrArg Board.asyncStopped same
  exact Prod.ext waiting (Prod.ext running (Prod.ext swapped stopped))

/-- The groups that `_schedule_prefills` takes out of the queue -/
def leavingWaiting (ret : SchedulerPrefillOutputs) : List GroupRef := seqGroupsOf ret.seqGroups ++ ret.ignoredSeqGroups

/-- The groups that `_schedule_swapped` takes out of the queue -/
def leavingSwapped (ret : SchedulerSwappedInOutputs) : List GroupRef :=
  seqGroupsOf ret.decodeSeqGroups ++ (seqGroupsOf ret.prefillSeqGroups ++ ret.infeasibleSeqGroups)

variable {g : GroupRef}

theorem start_waiting {rest : List GroupRef} {uncached cached : ℤ} {u : Unit}
    (call : start g rest uncached cached enableChunking s = .ok u t) : t.scheduler.waiting = rest := by
  unfold start at call
  obtain ⟨seqGroup, u, read, call⟩ := bind_ok call
  obtain ⟨_, v, adapted, call⟩ := bind_ok call
  obtain ⟨_, w, popped, call⟩ := bind_ok call
  obtain ⟨_, x, allocated, call⟩ := bind_ok call
  obtain ⟨_, y, prepared, call⟩ := bind_ok call
  obtain ⟨_, z, batched, counted⟩ := bind_ok call
  have first := onScheduler_queues (allocateAndSetRunning_queues g) _ _ _ allocated
  have second := fixes_queues (prepare_board _ _ _) _ _ _ prepared
  have third := fixes_queues (onBudget_board _) _ _ _ batched
  have fourth := fixes_queues (onBudget_board _) _ _ _ counted
  have same : t.queues = w.queues := fourth.trans (third.trans (second.trans first))
  have waiting : t.scheduler.waiting = w.scheduler.waiting := congrArg Prod.fst same
  rw [waiting]
  exact congrArg Board.waiting (setWaiting_board popped)

theorem ignore_waiting {rest : List GroupRef} {u : Unit} (call : ignore g rest s = .ok u t) :
    t.scheduler.waiting = rest := by
  unfold ignore at call
  obtain ⟨_, v, ignored, popped⟩ := bind_ok call
  exact congrArg Board.waiting (setWaiting_board popped)

theorem schedulePrefillsLoop_sieves {rounds : ℕ} {leftover leftover' : List GroupRef} {ret ret' : SchedulerPrefillOutputs}
    (call : schedulePrefillsLoop enableChunking rounds leftover ret s = .ok (leftover', ret') t) :
    ∃ taken aside, Sieved s.scheduler.waiting taken aside t.scheduler.waiting ∧ leftover' = aside.reverse ++ leftover ∧
      (leavingWaiting ret').Perm (leavingWaiting ret ++ taken) := by
  induction rounds generalizing leftover ret s with
  | zero =>
    unfold schedulePrefillsLoop at call
    obtain ⟨passed, u, asked, last⟩ := bind_ok call
    cases last
    have same : t.scheduler.waiting = s.scheduler.waiting :=
      congrArg Board.waiting (onScheduler_board delayHasPassed_board _ _ _ asked)
    rw [same]
    exact ⟨[], [], .stop _, rfl, by rw [List.append_nil]⟩
  | succ rounds ih =>
    unfold schedulePrefillsLoop at call
    obtain ⟨passed, u, asked, call⟩ := bind_ok call
    obtain ⟨s', v, read, call⟩ := bind_ok call
    obtain ⟨rfl, rfl⟩ := getScheduler_call read
    have before : v.scheduler.waiting = s.scheduler.waiting :=
      congrArg Board.waiting (onScheduler_board delayHasPassed_board _ _ _ asked)
    rw [← before]
    have stopped : ∃ taken aside, Sieved v.scheduler.waiting taken aside v.scheduler.waiting ∧
        leftover = aside.reverse ++ leftover ∧ (leavingWaiting ret).Perm (leavingWaiting ret ++ taken) :=
      ⟨[], [], .stop _, rfl, by rw [List.append_nil]⟩
    cases passed with
    | false =>
      cases call
      exact stopped
    | true =>
      cases queue : v.scheduler.waiting with
      | nil =>
        simp only [queue] at call
        cases call
        rw [queue] at stopped ⊢
        exact stopped
      | cons g rest =>
        simp only [queue] at call
        obtain ⟨decision, w, decided, call⟩ := bind_ok call
        have same : w.scheduler.waiting = v.scheduler.waiting :=
          congrArg Board.waiting (considerPrefill_board _ _ _ _ _ decided)
        cases decision with
        | stop =>
          cases call
          rw [← queue, same]
          exact stopped
        | leave =>
          obtain ⟨_, x, popped, last⟩ := bind_ok call
          obtain ⟨taken, aside, sieved, left, listed⟩ := ih last
          rw [show x.scheduler.waiting = rest from congrArg Board.waiting (setWaiting_board popped)] at sieved
          refine ⟨taken, g :: aside, sieved.leave g, ?_, listed⟩
          rw [left, List.reverse_cons, List.append_assoc, List.singleton_append]
        | fail =>
          obtain ⟨_, x, ignored, last⟩ := bind_ok call
          obtain ⟨taken, aside, sieved, left, listed⟩ := ih last
          rw [ignore_waiting ignored] at sieved
          refine ⟨g :: taken, aside, sieved.take g, left, listed.trans ?_⟩
          unfold leavingWaiting
          simp only [List.append_assoc, List.singleton_append]
          exact List.Perm.refl _
        | take uncached cached =>
          obtain ⟨_, x, started, last⟩ := bind_ok call
          obtain ⟨taken, aside, sieved, left, listed⟩ := ih last
          rw [start_waiting started] at sieved
          refine ⟨g :: taken, aside, sieved.take g, left, listed.trans ?_⟩
          unfold leavingWaiting seqGroupsOf
          simp only [List.map_append, List.map_cons, List.map_nil, List.append_assoc, List.singleton_append]
          refine List.Perm.append_left _ ?_
          exact List.perm_middle.symm

theorem schedulePrefills_sieves : wp (schedulePrefills enableChunking) (fun ret t =>
    (leavingWaiting ret ++ t.scheduler.waiting).Perm s.scheduler.waiting ∧
      t.scheduler.waiting.Sublist s.scheduler.waiting) (fun _ _ => True) s := by
  refine wp_intro (fun ret t call => ?_) fun _ _ _ => trivial
  unfold schedulePrefills at call
  rw [get_bind] at call
  split at call
  · cases call
    exact ⟨List.Perm.refl _, List.Sublist.refl _⟩
  · obtain ⟨⟨leftover, ret'⟩, u, looped, call⟩ := bind_ok call
    obtain ⟨_, v, restored, last⟩ := bind_ok call
    cases last
    obtain ⟨taken, aside, sieved, left, listed⟩ := schedulePrefillsLoop_sieves looped
    have back : t.scheduler.waiting = aside ++ u.scheduler.waiting := by
      have back : t.scheduler.waiting = leftover.reverse ++ u.scheduler.waiting := by
        cases restored
        rfl
      rw [back, left, List.append_nil, List.reverse_reverse]
    rw [back]
    have listed : (leavingWaiting ret).Perm taken := listed
    exact ⟨(listed.append_right _).trans sieved.perm, sieved.stays⟩

variable {ret ret' : SchedulerSwappedInOutputs}

theorem resume_swapped {isPrefill : Bool} {uncached cached : ℤ}
    (call : resume g isPrefill uncached cached enableChunking ret s = .ok ret' t) :
    t.scheduler.swapped = s.scheduler.swapped ∧ (leavingSwapped ret').Perm (leavingSwapped ret ++ [g]) := by
  unfold resume at call
  obtain ⟨mapping, u, swappedIn, call⟩ := bind_ok call
  obtain ⟨cows, v, appended, call⟩ := bind_ok call
  obtain ⟨seqGroup, w, read, call⟩ := bind_ok call
  obtain ⟨_, x, batched, call⟩ := bind_ok call
  obtain ⟨_, y, counted, last⟩ := bind_ok call
  have first := onScheduler_queues (swapIn_queues g) _ _ _ swappedIn
  have second := fixes_queues (onScheduler_board (appendSlots_board _ _)) _ _ _ appended
  have third := onScheduler_queues (group_queues g) _ _ _ read
  have fourth := fixes_queues (onBudget_board _) _ _ _ batched
  have fifth := fixes_queues (onBudget_board _) _ _ _ counted
  have same : y.queues = s.queues := fifth.trans (fourth.trans (third.trans (second.trans first)))
  have swapped : y.scheduler.swapped = s.scheduler.swapped := congrArg (fun queues => queues.2.2.1) same
  dsimp only at last
  split at last
  · cases last
    refine ⟨swapped, ?_⟩
    unfold leavingSwapped seqGroupsOf
    simp only [List.map_append, List.map_cons, List.map_nil, List.append_assoc]
    exact ((@List.perm_append_comm _ [g] _).append_left _).append_left _
  · cases last
    refine ⟨swapped, ?_⟩
    unfold leavingSwapped seqGroupsOf
    simp only [List.map_append, List.map_cons, List.map_nil, List.append_assoc]
    refine List.Perm.append_left _ ?_
    rw [← List.append_assoc (List.map _ _)]
    exact List.perm_append_comm

theorem scheduleSwappedLoop_sieves {rounds : ℕ} {leftover leftover' : List GroupRef}
    (call : scheduleSwappedLoop enableChunking rounds leftover ret s = .ok (leftover', ret') t) :
    ∃ taken aside, Sieved s.scheduler.swapped taken aside t.scheduler.swapped ∧ leftover' = aside.reverse ++ leftover ∧
      (leavingSwapped ret').Perm (leavingSwapped ret ++ taken) := by
  induction rounds generalizing leftover ret s with
  | zero =>
    cases call
    exact ⟨[], [], .stop _, rfl, by rw [List.append_nil]⟩
  | succ rounds ih =>
    unfold scheduleSwappedLoop at call
    obtain ⟨s', u, read, call⟩ := bind_ok call
    obtain ⟨rfl, rfl⟩ := getScheduler_call read
    cases queue : u.scheduler.swapped with
    | nil =>
      simp only [queue] at call
      cases call
      rw [queue]
      exact ⟨[], [], .stop _, rfl, by rw [List.append_nil]⟩
    | cons g rest =>
      simp only [queue] at call
      obtain ⟨decision, v, decided, call⟩ := bind_ok call
      have same : v.scheduler.swapped = u.scheduler.swapped :=
        congrArg Board.swapped (considerSwapped_board _ _ _ _ _ decided)
      cases decision with
      | stop =>
        cases call
        rw [← queue, same]
        exact ⟨[], [], .stop _, rfl, by rw [List.append_nil]⟩
      | leave =>
        obtain ⟨_, w, popped, last⟩ := bind_ok call
        obtain ⟨taken, aside, sieved, left, listed⟩ := ih last
        rw [show w.scheduler.swapped = rest from congrArg Board.swapped (setSwapped_board popped)] at sieved
        refine ⟨taken, g :: aside, sieved.leave g, ?_, listed⟩
        rw [left, List.reverse_cons, List.append_assoc, List.singleton_append]
      | fail =>
        obtain ⟨_, w, ignored, call⟩ := bind_ok call
        obtain ⟨_, x, popped, last⟩ := bind_ok call
        obtain ⟨taken, aside, sieved, left, listed⟩ := ih last
        rw [show x.scheduler.swapped = rest from congrArg Board.swapped (setSwapped_board popped)] at sieved
        refine ⟨g :: taken, aside, sieved.take g, left, listed.trans ?_⟩
        unfold leavingSwapped
        simp only [List.append_assoc, List.singleton_append]
        exact List.Perm.refl _
      | take uncached cached =>
        obtain ⟨_, w, adapted, call⟩ := bind_ok call
        obtain ⟨_, x, popped, call⟩ := bind_ok call
        obtain ⟨ret'', y, resumed, last⟩ := bind_ok call
        obtain ⟨taken, aside, sieved, left, listed⟩ := ih last
        obtain ⟨kept, more⟩ := resume_swapped resumed
        rw [kept, show x.scheduler.swapped = rest from congrArg Board.swapped (setSwapped_board popped)] at sieved
        refine ⟨g :: taken, aside, sieved.take g, left, listed.trans ?_⟩
        refine (more.append_right taken).trans ?_
        rw [List.append_assoc, List.singleton_append]

theorem scheduleSwapped_sieves : wp (scheduleSwapped enableChunking) (fun ret t =>
    (leavingSwapped ret ++ t.scheduler.swapped).Perm s.scheduler.swapped ∧
      t.scheduler.swapped.Sublist s.scheduler.swapped) (fun _ _ => True) s := by
  refine wp_intro (fun ret t call => ?_) fun _ _ _ => trivial
  unfold scheduleSwapped at call
  obtain ⟨s', u, read, call⟩ := bind_ok call
  obtain ⟨rfl, rfl⟩ := getScheduler_call read
  rw [get_bind, modify_bind] at call
  obtain ⟨⟨leftover, ret'⟩, v, looped, call⟩ := bind_ok call
  dsimp only at call
  rw [modify_bind] at call
  obtain ⟨_, w, restored, last⟩ := bind_ok call
  cases last
  obtain ⟨taken, aside, sieved, left, listed⟩ := scheduleSwappedLoop_sieves looped
  have back : t.scheduler.swapped = aside ++ v.scheduler.swapped := by
    have back : t.scheduler.swapped = leftover.reverse ++ v.scheduler.swapped := by
      cases restored
      rfl
    rw [back, left, List.append_nil, List.reverse_reverse]
  rw [back]
  have listed : (leavingSwapped ret).Perm taken := listed
  exact ⟨(listed.append_right _).trans sieved.perm, sieved.stays⟩

/-- The groups of a queue are scheduled, can never be scheduled or stay in the queue, each of them once, and those that
stay are in the same order. -/
theorem schedule_partitions (s : Scheduling M) (enableChunking : Bool) :
    wp (schedulePrefills enableChunking) (fun ret t =>
        (seqGroupsOf ret.seqGroups ++ ret.ignoredSeqGroups ++ t.scheduler.waiting).Perm s.scheduler.waiting ∧
          t.scheduler.waiting.Sublist s.scheduler.waiting) (fun _ _ => True) s ∧
      wp (scheduleSwapped enableChunking) (fun ret t =>
        (seqGroupsOf ret.decodeSeqGroups ++ (seqGroupsOf ret.prefillSeqGroups ++ ret.infeasibleSeqGroups) ++
          t.scheduler.swapped).Perm s.scheduler.swapped ∧
          t.scheduler.swapped.Sublist s.scheduler.swapped) (fun _ _ => True) s :=
  ⟨schedulePrefills_sieves, scheduleSwapped_sieves⟩

end Scheduling
end Vllm
