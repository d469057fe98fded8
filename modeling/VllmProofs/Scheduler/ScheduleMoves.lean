import VllmProofs.Scheduler.Infeasible

/-!
What one `schedule` does to the places of the groups. Only the preemption by priority can put a
group into a queue that its sequences do not match, when it swaps it out.
-/

namespace Vllm
open Exec

theorem Placed.relabel {r : Registry} {dirty : Set SeqId} {copies : List (BlockId × BlockId)}
    {T : Multiset Place} {b : Board} {g : GroupRef} {status status' : SequenceStatus}
    (placed : Placed r dirty copies ((g, status) ::ₘ T) b) (finished : (b.groups g).live = []) :
    Placed r dirty copies ((g, status') ::ₘ T) b :=
  ⟨placed.spread.relabel finished, placed.config, placed.copied⟩

variable {outputs : SchedulerOutputs} {prefills : SchedulerPrefillOutputs} {count : ℕ}

namespace Scheduling
open Scheduler

variable {M : Type} [BlockSpaceManager M] [LawfulBlockSpaceManager M] {r : Registry}
  {dirty : Set SeqId} {copies mapping : List (BlockId × BlockId)} {held T : Multiset Place}
  {s t : Scheduling M} {g : GroupRef}

/-! ### Preemption by priority -/

theorem preempt_waits (placed : Placed r dirty copies ((g, .running) ::ₘ T) s.scheduler.board)
    (recompute : r.config.preemptionMode ≠ some .swap) {mode : PreemptionMode} {u : Scheduler M}
    (call : preempt g s.scheduler = .ok (mode, mapping) u) :
    Placed r dirty copies ((g, .waiting) ::ₘ T) u.board := by
  obtain ⟨after, chosen, recomputed, swapped⟩ := preempt_placed placed call
  cases mode with
  | recompute => rwa [recomputed rfl, List.append_nil] at after
  | swap =>
    -- with no mode configured only a group without exactly one unfinished sequence is swapped
    have finished : (s.scheduler.board.groups g).live = [] := by
      have single : (s.scheduler.board.groups g).live.length ≤ 1 :=
        placed.spread.single _ (Multiset.mem_cons_self _ _) SequenceStatus.noConfusion
      unfold preemptionMode at chosen
      rw [SequenceGroup.getMaxNumRunningSeqs_live] at chosen
      cases configured : r.config.preemptionMode with
      | some mode =>
        rw [configured, Option.getD_some] at chosen
        rw [configured, chosen] at recompute
        exact (recompute rfl).elim
      | none =>
        rw [configured, Option.getD_none] at chosen
        split at chosen
        · cases chosen
        · rename_i several
          exact List.length_eq_zero_iff.mp (by omega)
    obtain ⟨nothing, still⟩ := swapped rfl finished
    rw [nothing, List.append_nil] at after
    exact after.relabel still

/-- The groups that are preempted go to the front of the waiting queue. -/
theorem forcePreempt_placed {seqGroup : SequenceGroup} {uncached numNewSeqs : ℤ}
    {queue stay : List GroupRef}
    (placed : Placed r dirty copies (placesOf .running queue + T) s.board)
    (recompute : r.config.preemptionMode ≠ some .swap ∨ count = 0)
    (call : forcePreempt seqGroup uncached numNewSeqs queue s = .ok (stay, count) t) :
    ∃ demoted, Placed r dirty copies (placesOf .running stay + placesOf .waiting demoted + T) t.board ∧
      t.board.waiting = demoted ++ s.board.waiting ∧ t.board.swapped = s.board.swapped ∧
      t.board.asyncStopped = s.board.asyncStopped := by
  induction queue generalizing s stay count T with
  | nil =>
    cases call
    exact ⟨[], by simpa using placed, rfl, rfl, rfl⟩
  | cons victim others ih =>
    unfold forcePreempt at call
    obtain ⟨s', u, read, call⟩ := bind_ok call
    obtain ⟨rfl, rfl⟩ := getScheduler_call read
    have kept : ∃ demoted, Placed r dirty copies
        (placesOf .running (victim :: others) + placesOf .waiting demoted + T) u.board ∧
        u.board.waiting = demoted ++ u.board.waiting ∧ u.board.swapped = u.board.swapped ∧
        u.board.asyncStopped = u.board.asyncStopped := ⟨[], by simpa using placed, rfl, rfl, rfl⟩
    split at call
    · obtain ⟨fits, v, asked, call⟩ := bind_ok call
      have same := fitsNow_board _ _ _ _ _ _ asked
      cases fits with
      | true =>
        cases call
        rw [same]
        exact kept
      | false =>
        rw [if_neg Bool.false_ne_true] at call
        obtain ⟨⟨numRunningTokens, numCached⟩, w, counted, call⟩ := bind_ok call
        obtain ⟨_, x, released, call⟩ := bind_ok call
        obtain ⟨⟨mode, mapping⟩, y, preempted, call⟩ := bind_ok call
        obtain ⟨_, z, queued, call⟩ := bind_ok call
        obtain ⟨⟨stay', count'⟩, a, looped, last⟩ := bind_ok call
        cases last
        have second := getNumNewUncachedAndCachedTokens_board _ _ _ _ _ _ counted
        have third := releaseBudget_board _ _ _ _ _ released
        have before : x.board = u.board := third.trans (second.trans same)
        have mode := recompute.resolve_right (Nat.succ_ne_zero count')
        rw [← before, placesOf_cons, Multiset.cons_add] at placed
        have waits := preempt_waits placed mode (onScheduler_call preempted)
        have queues := preempt_queues _ _ _ _ (onScheduler_call preempted)
        simp only [Scheduler.queues, Prod.mk.injEq] at queues
        have board : z.board = { y.board with waiting := victim :: y.board.waiting } := by
          cases queued
          rfl
        have next : Placed r dirty copies (placesOf .running others + (victim, .waiting) ::ₘ T)
            z.board := by
          rw [board, Multiset.add_cons]
          exact ⟨waits.spread, waits.config, waits.copied⟩
        obtain ⟨demoted, after, waiting, swapped, stopped⟩ := ih next (Or.inl mode) looped
        rw [board] at waiting swapped stopped
        refine ⟨demoted ++ [victim], ?_, ?_, ?_, ?_⟩
        · have places : placesOf .running stay + placesOf .waiting (demoted ++ [victim]) + T =
              placesOf .running stay + placesOf .waiting demoted + (victim, .waiting) ::ₘ T := by
            simp only [placesOf_append, placesOf_cons, placesOf_nil, ← Multiset.singleton_add]
            abel
          rw [places]
          exact after
        · rw [waiting, List.append_assoc, ← before]
          exact congrArg _ (congrArg _ queues.1)
        · rw [swapped, ← before]
          exact queues.2.2.1
        · rw [stopped, ← before]
          exact queues.2.2.2
    · cases call
      exact kept

/-- The running queue is taken apart while the first waiting group is in hand. -/
theorem preemptForWaiting_placed {queue stay : List GroupRef} (placed : Placed r dirty copies
      (placesOf .running queue + (placesOf .waiting s.board.waiting + T)) s.board)
    (recompute : r.config.preemptionMode ≠ some .swap ∨ count = 0)
    (call : preemptForWaiting queue s = .ok (stay, count) t) :
    Placed r dirty copies (placesOf .running stay + (placesOf .waiting t.board.waiting + T)) t.board ∧
      t.board.swapped = s.board.swapped ∧ t.board.asyncStopped = s.board.asyncStopped := by
  unfold preemptForWaiting at call
  obtain ⟨s', u, read, call⟩ := bind_ok call
  obtain ⟨rfl, rfl⟩ := getScheduler_call read
  cases waiting : u.scheduler.waiting with
  | nil =>
    simp only [waiting] at call
    cases call
    refine ⟨?_, rfl, rfl⟩
    rw [placesOf_reverse]
    exact placed
  | cons g rest =>
    simp only [waiting] at call
    obtain ⟨_, v, popped, call⟩ := bind_ok call
    obtain ⟨⟨uncached, cached⟩, w, counted, call⟩ := bind_ok call
    obtain ⟨outcome, x, preempted, call⟩ := bind_ok call
    obtain ⟨_, y, queued, last⟩ := bind_ok call
    cases last
    have first : v.board = { u.board with waiting := rest } := by
      cases popped
      rfl
    have same := getNumNewUncachedAndCachedTokens_board _ _ _ _ _ _ counted
    have last : t.board = { x.board with waiting := g :: x.board.waiting } := by
      cases queued
      rfl
    have before : Placed r dirty copies
        (placesOf .running queue.reverse + (g, .waiting) ::ₘ (placesOf .waiting rest + T)) w.board := by
      have head : u.board.waiting = g :: rest := waiting
      rw [head, placesOf_cons, Multiset.cons_add] at placed
      rw [same, first, placesOf_reverse]
      exact ⟨placed.spread, placed.config, placed.copied⟩
    obtain ⟨demoted, after, front, swapped, stopped⟩ := forcePreempt_placed before recompute preempted
    rw [same, first] at front swapped stopped
    refine ⟨?_, ?_, ?_⟩
    · have places : placesOf .running stay + (placesOf .waiting (g :: x.board.waiting) + T) =
          placesOf .running stay + placesOf .waiting demoted +
            (g, .waiting) ::ₘ (placesOf .waiting rest + T) := by
        simp only [front, placesOf_append, placesOf_cons, ← Multiset.singleton_add]
        abel
      rw [last, places]
      exact ⟨after.spread, after.config, after.copied⟩
    · rw [last]
      exact swapped
    · rw [last]
      exact stopped

theorem schedulePriorityPreemption_holding (holding : Holding r dirty copies held s.board)
    (recompute : r.config.preemptionMode ≠ some .swap ∨ count = 0)
    (call : schedulePriorityPreemption s = .ok count t) : Holding r dirty copies held t.board := by
  unfold schedulePriorityPreemption at call
  obtain ⟨s', u, read, call⟩ := bind_ok call
  obtain ⟨rfl, rfl⟩ := getScheduler_call read
  obtain ⟨⟨stay, count'⟩, v, preempted, call⟩ := bind_ok call
  obtain ⟨_, w, queued, last⟩ := bind_ok call
  cases last
  have sorted : (sortByPriority u.scheduler.groups u.scheduler.running).Perm u.board.running :=
    List.perm_insertionSort _ _
  have board : t.board = { v.board with
      waiting := sortByPriority v.board.groups v.board.waiting
      running := stay.reverse } := by
    cases queued
    rfl
  have waiting : placesOf .waiting (sortByPriority v.board.groups v.board.waiting) =
      placesOf .waiting v.board.waiting := placesOf_perm (List.perm_insertionSort _ _)
  have before : Placed r dirty copies
      (placesOf .running (sortByPriority u.scheduler.groups u.scheduler.running) +
        (placesOf .waiting u.board.waiting +
          (placesOf .swapped u.board.swapped + placesOf .running u.board.asyncStopped + held)))
      u.board := by
    rw [placesOf_perm sorted]
    refine Eq.mp (congrArg (fun T => Placed r dirty copies T u.board) ?_) holding
    rw [Board.places]
    abel
  obtain ⟨after, swapped, stopped⟩ := preemptForWaiting_placed before recompute preempted
  rw [board]
  refine ⟨Eq.mp (congrArg (fun T => Spread r dirty T v.board.groups v.board.tables) ?_) after.spread,
    after.config, after.copied⟩
  simp only [Board.places, waiting, placesOf_reverse, swapped, stopped]
  abel

/-! ### The batch -/

omit [BlockSpaceManager M] [LawfulBlockSpaceManager M] in
theorem postInit_call {outputs' : SchedulerOutputs} {s t : Scheduler M}
    (call : postInit outputs s = .ok outputs' t) :
    t = s ∧ outputs'.blocksToSwapOut = outputs.blocksToSwapOut ∧
      outputs'.ignoredSeqGroups = outputs.ignoredSeqGroups := by
  unfold postInit at call
  obtain ⟨_, u, checked, next⟩ := bind_ok call
  obtain ⟨-, rfl⟩ := assertThat_call checked
  rw [get_bind] at next
  dsimp only at next
  split at next
  · obtain ⟨_, v, sized, last⟩ := bind_ok next
    obtain ⟨-, rfl⟩ := assertThat_call sized
    cases last
    exact ⟨rfl, rfl, rfl⟩
  · cases next
    exact ⟨rfl, rfl, rfl⟩

omit [BlockSpaceManager M] [LawfulBlockSpaceManager M] in
theorem orderFinishingPrefillsFirst_perm (s : Scheduler M) (groups : List ScheduledSequenceGroup) :
    (orderFinishingPrefillsFirst s groups).Perm (seqGroupsOf groups) := by
  unfold orderFinishingPrefillsFirst seqGroupsOf
  rw [← List.map_append]
  exact (List.filter_append_perm _ groups).map _

theorem beginDefault_holding (holding : Holding r dirty copies held s.board)
    (recompute : r.config.preemptionMode ≠ some .swap ∨ count = 0)
    (call : beginDefault s = .ok (prefills, count) t) :
    Holding r dirty copies (prefillPlaces prefills + held) t.board := by
  unfold beginDefault at call
  obtain ⟨s', u, read, call⟩ := bind_ok call
  obtain ⟨rfl, rfl⟩ := getScheduler_call read
  obtain ⟨prefills', v, first, call⟩ := bind_ok call
  have after : Holding r dirty copies (prefillPlaces prefills' + held) v.board := by
    unfold prefillsUnlessSwapped at first
    obtain ⟨s', w, read, first⟩ := bind_ok first
    obtain ⟨rfl, rfl⟩ := getScheduler_call read
    split at first
    · exact schedulePrefills_holding holding first
    · cases first
      simpa [prefillPlaces, seqGroupsOf] using holding
  split at call
  · obtain ⟨count', w, forced, last⟩ := bind_ok call
    cases last
    exact schedulePriorityPreemption_holding after recompute forced
  · cases call
    exact after

section
variable [OutputProcessor M] [LawfulOutputProcessor M]
variable {running : SchedulerRunningOutputs} {swappedIn : SchedulerSwappedInOutputs}

theorem scheduleDecodes_holding {enableChunking : Bool} (holding : Holding r dirty copies held s.board)
    (call : scheduleDecodes enableChunking s = .ok (running, swappedIn) t) :
    Holding r (dirty ∪ infeasibleIds r swappedIn) (copies ++ running.blocksToSwapOut)
        (swappedInPlaces swappedIn + (runningPlaces running + held)) t.board ∧
      ∀ g ∈ swappedIn.infeasibleSeqGroups, g ∈ s.board.swapped := by
  unfold scheduleDecodes at call
  obtain ⟨running', u, first, call⟩ := bind_ok call
  have after := scheduleRunning_holding holding first
  split at call
  · obtain ⟨swappedIn', v, second, last⟩ := bind_ok call
    cases last
    refine ⟨scheduleSwapped_holding after second, fun g member => ?_⟩
    have queued := scheduleSwapped_infeasible second g member
    rwa [show u.board.swapped = s.board.swapped from scheduleRunning_swapped _ _ _ _ first] at queued
  · cases call
    refine ⟨?_, by simp⟩
    have none : infeasibleIds r {} = ∅ := by
      ext id
      simp [infeasibleIds]
    rw [none, Set.union_empty]
    simpa [swappedInPlaces, seqGroupsOf] using after

omit [LawfulOutputProcessor M] [OutputProcessor M] in
theorem beginDefault_swapped :
    Fixes swappedQueue (beginDefault : Method (Scheduling M) (SchedulerPrefillOutputs × ℕ)) := by
  unfold beginDefault prefillsUnlessSwapped
  refine Keeps.bind (swapped_of_board getScheduler_board) fun s => Keeps.bind ?_ fun prefills => ?_
  · refine Keeps.bind (swapped_of_board getScheduler_board) fun s => ?_
    exact Keeps.ite (schedulePrefills_swapped false) (Keeps.pure _)
  · exact Keeps.ite (Keeps.bind schedulePriorityPreemption_swapped fun _ => Keeps.pure _) (Keeps.pure _)

theorem fillDefault_holding (holding : Holding r dirty copies held s.board)
    (unforced : ∀ prefills count u, beginDefault s = .ok (prefills, count) u →
      r.config.preemptionMode ≠ some .swap ∨ count = 0)
    (call : fillDefault s = .ok (prefills, running, swappedIn) t) :
    Holding r (dirty ∪ infeasibleIds r swappedIn) (copies ++ running.blocksToSwapOut)
        (swappedInPlaces swappedIn + (runningPlaces running + (prefillPlaces prefills + held))) t.board ∧
      ∀ g ∈ swappedIn.infeasibleSeqGroups, g ∈ s.board.swapped := by
  unfold fillDefault at call
  obtain ⟨⟨prefills', count⟩, u, begun, call⟩ := bind_ok call
  have after := beginDefault_holding holding (unforced _ _ _ begun) begun
  dsimp only at call
  split at call
  · obtain ⟨⟨running', swappedIn'⟩, v, decoded, last⟩ := bind_ok call
    cases last
    obtain ⟨moved, queued⟩ := scheduleDecodes_holding after decoded
    refine ⟨moved, fun g member => ?_⟩
    have earlier := queued g member
    rwa [show u.board.swapped = s.board.swapped from beginDefault_swapped _ _ _ begun] at earlier
  · cases call
    refine ⟨?_, by simp⟩
    have none : infeasibleIds r {} = ∅ := by
      ext id
      simp [infeasibleIds]
    rw [none, Set.union_empty, List.append_nil]
    simpa [swappedInPlaces, runningPlaces, seqGroupsOf] using after

theorem scheduleDefaultBatch_holding (holding : Holding r dirty copies held s.board)
    (unforced : ∀ prefills count u, beginDefault s = .ok (prefills, count) u →
      r.config.preemptionMode ≠ some .swap ∨ count = 0)
    (call : scheduleDefaultBatch s = .ok outputs t) :
    ∃ swappedIn : SchedulerSwappedInOutputs,
      Holding r (dirty ∪ infeasibleIds r swappedIn) (copies ++ outputs.blocksToSwapOut) held t.board ∧
      ∀ g ∈ swappedIn.infeasibleSeqGroups, g ∈ outputs.ignoredSeqGroups ∧ g ∈ s.board.swapped := by
  unfold scheduleDefaultBatch at call
  obtain ⟨⟨prefills, running, swappedIn⟩, u, filled, call⟩ := bind_ok call
  obtain ⟨after, swapped⟩ := fillDefault_holding holding unforced filled
  dsimp only at call
  obtain ⟨_, v, checked, call⟩ := bind_ok call
  obtain ⟨_, w, queued, call⟩ := bind_ok call
  obtain ⟨_, x, decodes, call⟩ := bind_ok call
  obtain ⟨_, y, resumed, last⟩ := bind_ok call
  rw [get_bind] at last
  obtain ⟨noPrefills, first⟩ := assertThat_call decodes
  obtain ⟨noResumed, second⟩ := assertThat_call resumed
  obtain ⟨same, copied, ignored⟩ := postInit_call (onScheduler_call last)
  have board : t.board = { u.board with
      waiting := extendLeft u.board.waiting running.preempted
      running := u.board.running ++ seqGroupsOf prefills.seqGroups ++
        seqGroupsOf running.decodeSeqGroups ++ seqGroupsOf swappedIn.decodeSeqGroups
      swapped := u.board.swapped ++ running.swappedOut } := by
    have unchanged := checkBudget_board _ _ _ checked
    have changed : w.board = { v.board with
        waiting := extendLeft v.board.waiting running.preempted
        running := v.board.running ++ seqGroupsOf prefills.seqGroups ++
          seqGroupsOf running.decodeSeqGroups ++ seqGroupsOf swappedIn.decodeSeqGroups
        swapped := v.board.swapped ++ running.swappedOut } := by
      cases queued
      rfl
    rw [show t.board = y.board from congrArg Scheduler.board same, second, first, changed, unchanged]
  refine ⟨swappedIn, ?_, ?_⟩
  · rw [copied, board]
    refine after.requeue _ rfl ?_
    have empty : running.prefillSeqGroups = [] := List.length_eq_zero_iff.mp noPrefills
    have empty' : swappedIn.prefillSeqGroups = [] := List.length_eq_zero_iff.mp noResumed
    simp only [Board.places, swappedInPlaces, runningPlaces, prefillPlaces, empty, empty', extendLeft,
      seqGroupsOf, List.map_nil, placesOf_nil, placesOf_append, placesOf_reverse]
    abel
  · rw [ignored]
    exact fun g member => ⟨List.mem_append_right _ member, swapped g member⟩

theorem scheduleChunkedPrefillBatch_holding (holding : Holding r dirty copies held s.board)
    (call : scheduleChunkedPrefillBatch s = .ok outputs t) :
    ∃ swappedIn : SchedulerSwappedInOutputs,
      Holding r (dirty ∪ infeasibleIds r swappedIn) (copies ++ outputs.blocksToSwapOut) held t.board ∧
      ∀ g ∈ swappedIn.infeasibleSeqGroups, g ∈ outputs.ignoredSeqGroups ∧ g ∈ s.board.swapped := by
  unfold scheduleChunkedPrefillBatch at call
  obtain ⟨⟨running, swappedIn⟩, u, decoded, call⟩ := bind_ok call
  obtain ⟨first, swapped⟩ := scheduleDecodes_holding holding decoded
  dsimp only at call
  obtain ⟨prefills, v, prefilled, call⟩ := bind_ok call
  have after := schedulePrefills_holding first prefilled
  obtain ⟨_, w, checked, call⟩ := bind_ok call
  obtain ⟨_, x, queued, last⟩ := bind_ok call
  rw [get_bind] at last
  obtain ⟨same, copied, ignored⟩ := postInit_call (onScheduler_call last)
  have board : t.board = { v.board with
      waiting := extendLeft v.board.waiting running.preempted
      running := v.board.running ++ seqGroupsOf swappedIn.decodeSeqGroups ++
        seqGroupsOf swappedIn.prefillSeqGroups ++ seqGroupsOf running.decodeSeqGroups ++
        orderFinishingPrefillsFirst w.scheduler running.prefillSeqGroups ++
        seqGroupsOf prefills.seqGroups
      swapped := v.board.swapped ++ running.swappedOut } := by
    have unchanged := checkBudget_board _ _ _ checked
    have changed : x.board = { w.board with
        waiting := extendLeft w.board.waiting running.preempted
        running := w.board.running ++ seqGroupsOf swappedIn.decodeSeqGroups ++
          seqGroupsOf swappedIn.prefillSeqGroups ++ seqGroupsOf running.decodeSeqGroups ++
          orderFinishingPrefillsFirst w.scheduler running.prefillSeqGroups ++
          seqGroupsOf prefills.seqGroups
        swapped := w.board.swapped ++ running.swappedOut } := by
      cases queued
      rfl
    rw [show t.board = x.board from congrArg Scheduler.board same, changed, unchanged]
  refine ⟨swappedIn, ?_, ?_⟩
  · rw [copied, board]
    refine after.requeue _ rfl ?_
    have ordered : placesOf .running (orderFinishingPrefillsFirst w.scheduler running.prefillSeqGroups) =
        placesOf .running (seqGroupsOf running.prefillSeqGroups) :=
      placesOf_perm (orderFinishingPrefillsFirst_perm _ _)
    simp only [Board.places, swappedInPlaces, runningPlaces, prefillPlaces, extendLeft, ordered,
      placesOf_append, placesOf_reverse]
    abel
  · rw [ignored]
    exact fun g member => ⟨List.mem_append_right _ member, swapped g member⟩

end
end Scheduling

namespace Scheduler
open Scheduling

variable {M β : Type} [BlockSpaceManager M] [LawfulBlockSpaceManager M] [OutputProcessor M]
  [LawfulOutputProcessor M] {r : Registry} {dirty : Set SeqId} {copies : List (BlockId × BlockId)}
  {held : Multiset Place} {s t : Scheduler M}

/-- The groups that the default policy preempts by priority before it fills the batch. -/
def forcedPreemptions (s : Scheduler M) : ℕ :=
  ((result? (inDefault beginDefault) s).map Prod.snd).getD 0

/-- The next `schedule` preempts a group by priority, and swaps it out. -/
def ForcesSwap (s : Scheduler M) : Prop :=
  s.schedulerConfig.chunkedPrefillEnabled = false ∧ s.schedulerConfig.preemptionMode = some .swap ∧
    forcedPreemptions s ≠ 0

def defaultCall (s : Scheduler M) : Scheduling M where
  scheduler := s
  budget := (s.running.map s.groups).foldl countRunning (emptyBudget s.schedulerConfig)
  currLoras := s.maxLoras.map fun _ =>
    (((s.running.map s.groups).map SequenceGroup.loraIntId).filter (0 < ·)).toFinset

omit [BlockSpaceManager M] [LawfulBlockSpaceManager M] [OutputProcessor M]
  [LawfulOutputProcessor M] in
theorem inDefault_call {method : Method (Scheduling M) β} {a : β}
    (call : inDefault method s = .ok a t) :
    ∃ u, method (defaultCall s) = .ok a u ∧ t = u.scheduler := by
  unfold inDefault at call
  rw [get_bind] at call
  exact zoom_ok call

omit [LawfulBlockSpaceManager M] [LawfulOutputProcessor M] [OutputProcessor M] in
theorem forcedPreemptions_eq {u : Scheduling M}
    (call : beginDefault (defaultCall s) = .ok (prefills, count) u) : forcedPreemptions s = count := by
  have run : inDefault beginDefault s = .ok (prefills, count) u.scheduler := by
    unfold inDefault inCall
    rw [get_bind]
    exact zoom_of_ok call
  simp [forcedPreemptions, result?, run]

theorem scheduleBatch_holding (holding : Holding r dirty copies held s.board)
    (unforced : ¬ForcesSwap s) (call : scheduleBatch s = .ok outputs t) :
    ∃ swappedIn : SchedulerSwappedInOutputs,
      Holding r (dirty ∪ infeasibleIds r swappedIn) (copies ++ outputs.blocksToSwapOut) held t.board ∧
      ∀ g ∈ swappedIn.infeasibleSeqGroups, g ∈ outputs.ignoredSeqGroups ∧ g ∈ s.board.swapped := by
  unfold scheduleBatch at call
  rw [get_bind] at call
  split at call
  · unfold scheduleChunkedPrefill at call
    rw [get_bind] at call
    obtain ⟨u, inner, rfl⟩ := zoom_ok call
    exact scheduleChunkedPrefillBatch_holding (s := ⟨s, _, _, _⟩) holding inner
  · rename_i default
    obtain ⟨u, inner, rfl⟩ := inDefault_call call
    refine scheduleDefaultBatch_holding (s := defaultCall s) holding ?_ inner
    intro prefills count u begun
    by_contra both
    rw [not_or, not_not] at both
    have config : s.schedulerConfig = r.config := holding.config
    refine unforced ⟨by simpa using default, by rw [config]; exact both.1, ?_⟩
    rw [forcedPreemptions_eq begun]
    exact both.2

theorem schedule_holding {metadata : List SequenceGroupMetadata}
    (holding : Holding r dirty copies held s.board) (unforced : ¬ForcesSwap s)
    (call : schedule s = .ok (metadata, outputs) t) :
    ∃ swappedIn : SchedulerSwappedInOutputs,
      Holding r (dirty ∪ infeasibleIds r swappedIn) (copies ++ outputs.blocksToSwapOut) held t.board ∧
      ∀ g ∈ swappedIn.infeasibleSeqGroups, g ∈ outputs.ignoredSeqGroups ∧ g ∈ s.board.swapped := by
  unfold schedule at call
  obtain ⟨outputs', u, batched, call⟩ := bind_ok call
  obtain ⟨now, v, clocked, call⟩ := bind_ok call
  obtain ⟨metadata', w, described, call⟩ := bind_ok call
  obtain ⟨_, x, marked, last⟩ := bind_ok call
  cases last
  have first := time_board _ _ _ clocked
  have second := Keeps.mapM (R := fun s t => board t = board s) (groupMetadata_board now) _ _ _ _ described
  have third := Keeps.forM (R := fun s t => board t = board s) markComputed_board _ _ _ _ marked
  have same : t.board = u.board := third.trans (second.trans first)
  rw [same]
  exact scheduleBatch_holding holding unforced batched

end Scheduler
end Vllm
