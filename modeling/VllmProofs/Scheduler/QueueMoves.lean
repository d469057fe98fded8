import VllmProofs.Scheduler.GroupMoves

/-!
How the loops of one schedule move groups between the queues, their own lists of results and the
lists of groups they leave over.
-/

namespace Vllm
open Exec

/-- What processing the pending output of a group does to the board, as far as the groups added go:
it finishes sequences of the group and frees the tables of sequences that are finished. -/
structure Processed (r : Registry) (g : GroupRef) (b b' : Board) : Prop where
  progress : ∀ g' ∈ r.added, SequenceGroup.Progress (b.groups g') (b'.groups g')
  others : ∀ g' ∈ r.added, g' ≠ g → b'.groups g' = b.groups g'
  fewer : b'.tables ⊆ b.tables
  spared : ∀ g' ∈ r.added, ∀ id ∈ (b'.groups g').live.map Prod.fst, id ∈ b.tables → id ∈ b'.tables

/-- The callback leaves the queues alone, and finds the group by its request id, which is unique
among the groups added. -/
class LawfulOutputProcessor (M : Type) [BlockSpaceManager M] [LawfulBlockSpaceManager M]
    [OutputProcessor M] : Prop where
  queues : ∀ requestId (s t : Scheduler M) u,
    OutputProcessor.outputProcCallback requestId s = .ok u t →
    t.board = { s.board with groups := t.board.groups, tables := t.board.tables }
  processed : ∀ (r : Registry) (g : GroupRef) (s t : Scheduler M) u, g ∈ r.added →
    (∀ g' ∈ r.added, (s.groups g').identity = r.identity g') →
    OutputProcessor.outputProcCallback (s.groups g).requestId s = .ok u t →
    Processed r g s.board t.board

variable {u : Unit}

namespace Scheduler

/-! ### The queues stay as they are -/

section
variable {M β : Type}

def queues (s : Scheduler M) :
    List GroupRef × List GroupRef × List GroupRef × List GroupRef :=
  (s.waiting, s.running, s.swapped, s.asyncStopped)

theorem onManager_queues (method : Method M β) : Fixes queues (onManager method) :=
  .apart method fun _ _ => rfl

theorem group_queues (g : GroupRef) : Fixes queues (group g : Method (Scheduler M) _) :=
  Keeps.bind Keeps.get fun _ => Keeps.pure _

theorem updateGroup_queues (g : GroupRef) (f : SequenceGroup → SequenceGroup) :
    Fixes queues (updateGroup g f : Method (Scheduler M) Unit) := Keeps.modify fun _ => rfl

variable [BlockSpaceManager M]

theorem swapOut_queues (g : GroupRef) : Fixes queues (swapOut g : Method (Scheduler M) _) := by
  unfold swapOut
  refine Keeps.bind (group_queues g) fun seqGroup => Keeps.bind (onManager_queues _) fun can => ?_
  refine Keeps.ite (Keeps.bind (onManager_queues _) fun mapping => ?_) (Keeps.throw _)
  refine Keeps.bind (Keeps.modify fun _ => rfl) fun _ => ?_
  exact Keeps.bind (updateGroup_queues g _) fun _ => Keeps.pure _

theorem swapIn_queues (g : GroupRef) : Fixes queues (swapIn g : Method (Scheduler M) _) := by
  unfold swapIn
  refine Keeps.bind (group_queues g) fun seqGroup => Keeps.bind (onManager_queues _) fun mapping => ?_
  exact Keeps.bind (updateGroup_queues g _) fun _ => Keeps.pure _

theorem preemptByRecompute_queues (g : GroupRef) :
    Fixes queues (preemptByRecompute g : Method (Scheduler M) Unit) := by
  unfold preemptByRecompute
  refine Keeps.bind (group_queues g) fun seqGroup => ?_
  rcases seqGroup.getSeqs .running with _ | ⟨seq, _ | ⟨_, _⟩⟩
  · exact Keeps.throw _
  · refine Keeps.bind (updateGroup_queues g _) fun _ => Keeps.bind (onManager_queues _) fun _ => ?_
    exact updateGroup_queues g _
  · exact Keeps.throw _

theorem preempt_queues (g : GroupRef) : Fixes queues (preempt g : Method (Scheduler M) _) := by
  unfold preempt
  refine Keeps.bind (group_queues g) fun seqGroup => Keeps.bind Keeps.get fun s => ?_
  cases preemptionMode s.schedulerConfig seqGroup with
  | recompute => exact Keeps.bind (preemptByRecompute_queues g) fun _ => Keeps.pure _
  | swap => exact Keeps.bind (swapOut_queues g) fun _ => Keeps.pure _

theorem allocateAndSetRunning_queues (g : GroupRef) :
    Fixes queues (allocateAndSetRunning g : Method (Scheduler M) Unit) := by
  unfold allocateAndSetRunning
  refine Keeps.bind (group_queues g) fun seqGroup => Keeps.bind (onManager_queues _) fun _ => ?_
  exact updateGroup_queues g _

end

variable {M : Type} [BlockSpaceManager M] [LawfulBlockSpaceManager M] {r : Registry}
  {dirty : Set SeqId} {copies mapping : List (BlockId × BlockId)} {held : Multiset Place}
  {s t : Scheduler M} {g : GroupRef}

theorem places_of_queues (same : queues t = queues s) : t.board.places = s.board.places := by
  simp only [queues, Prod.mk.injEq] at same
  obtain ⟨waiting, running, swapped, stopped⟩ := same
  show placesOf .waiting t.waiting + placesOf .running t.running + placesOf .swapped t.swapped +
    placesOf .running t.asyncStopped = _
  rw [waiting, running, swapped, stopped]
  rfl

theorem preempt_holding (holding : Holding r dirty copies ((g, .running) ::ₘ held) s.board)
    {mode : PreemptionMode} (call : preempt g s = .ok (mode, mapping) t) :
    Holding r dirty (copies ++ mapping) ((g, preemptedStatus mode) ::ₘ held) t.board :=
  .of_placed (places_of_queues (preempt_queues g _ _ _ call)) (preempt_placed holding.placed call).1

theorem swapIn_holding (holding : Holding r dirty copies ((g, .swapped) ::ₘ held) s.board)
    (call : swapIn g s = .ok mapping t) : Holding r dirty copies ((g, .running) ::ₘ held) t.board :=
  .of_placed (places_of_queues (swapIn_queues g _ _ _ call)) (swapIn_placed holding.placed call)

theorem allocateAndSetRunning_holding
    (holding : Holding r dirty copies ((g, .waiting) ::ₘ held) s.board)
    (one : ((s.board.groups g).getSeqs .waiting).length = 1)
    (call : allocateAndSetRunning g s = .ok u t) :
    Holding r dirty copies ((g, .running) ::ₘ held) t.board :=
  .of_placed (places_of_queues (allocateAndSetRunning_queues g _ _ _ call))
    (allocateAndSetRunning_placed holding.placed one call)

end Scheduler

variable {copies : List (BlockId × BlockId)} {status : SequenceStatus}

/-- The output of a group in hand is processed. -/
theorem Placed.processed {r : Registry} {dirty : Set SeqId}
    {T : Multiset Place} {b b' : Board} {g : GroupRef}
    (placed : Placed r dirty copies ((g, status) ::ₘ T) b) (active : status ≠ .waiting)
    (queues : b' = { b with groups := b'.groups, tables := b'.tables })
    (processed : Processed r g b b') :
    (b'.groups g).live = [] ∧ Placed r (dirty ∪ {id | id ∈ r.ids g}) copies ((g, status) ::ₘ T) b' ∨
      Placed r dirty copies ((g, status) ::ₘ T) b' := by
  have advanced := placed.spread.advance processed.progress
  have gone : ∀ id ∈ b.tables \ b'.tables, ∀ g' ∈ r.added, id ∉ (b'.groups g').live.map Prod.fst :=
    fun id freed g' known live => freed.2 (processed.spared g' known id live freed.1)
  have cleaned := advanced.clean gone
  rw [Set.sdiff_sdiff_cancel_left processed.fewer] at cleaned
  have config : b'.schedulerConfig = r.config := by
    rw [queues]
    exact placed.config
  have copied : b'.copies = copies := by
    rw [queues]
    exact placed.copied
  have mine := processed.others
  by_cases finished : (b'.groups g).live = []
  · refine Or.inl ⟨finished, cleaned.mono ?_, config, copied⟩
    rintro id ⟨old | ⟨⟨g', status'⟩, member, -, before, after⟩, -⟩
    · exact Or.inl old
    · have known := placed.spread.known _ member
      by_cases equal : g' = g
      · subst equal
        refine Or.inr ?_
        rw [Set.mem_ofPred_eq, ← placed.ids]
        exact SequenceGroup.seqIds_of_live before
      · rw [mine g' known equal] at after
        exact (after before).elim
  · refine Or.inr ⟨cleaned.mono ?_, config, copied⟩
    rintro id ⟨old | ⟨⟨g', status'⟩, member, -, before, after⟩, -⟩
    · exact old
    · have known := placed.spread.known _ member
      by_cases equal : g' = g
      · subst equal
        have single := placed.spread.single _ (Multiset.mem_cons_self _ _) active
        have same : (b'.groups g').live = (b.groups g').live := by
          refine (processed.progress g' known).live.eq_of_length_le (single.trans ?_)
          exact List.length_pos_iff.mpr finished
        rw [same] at after
        exact (after before).elim
      · rw [mine g' known equal] at after
        exact (after before).elim

theorem Placed.depart {M : Type} [BlockSpaceManager M] [LawfulBlockSpaceManager M] {r : Registry}
    {dirty : Set SeqId} {T : Multiset Place} {s t : Scheduler M}
    {g : GroupRef}
    (placed : Placed r (dirty ∪ {id | id ∈ r.ids g}) copies ((g, status) ::ₘ T) s.board)
    (finished : (s.board.groups g).live = [])
    (call : Scheduler.freeFinishedSeqGroup g s = .ok u t) : Placed r dirty copies T t.board := by
  rw [Scheduler.freeFinishedSeqGroup_board call]
  refine ⟨?_, placed.config, placed.copied⟩
  have known : ∀ g' ∈ [g], g' ∈ r.added := by
    intro g' member
    rw [List.mem_singleton.mp member]
    exact placed.known
  have cleaned := placed.spread.clean (Scheduler.finishedIds_gone placed known)
  have all : ∀ id ∈ r.ids g, id ∈ Scheduler.finishedIds s.board [g] := by
    intro id own
    rw [← placed.ids] at own
    obtain ⟨seq, among, rfl⟩ := List.mem_map.mp own
    have done := SequenceGroup.isFinished_iff.mpr finished
    exact ⟨g, List.mem_singleton_self _, seq, among, List.all_eq_true.mp done seq among, rfl⟩
  have tidy : Spread r dirty ((g, status) ::ₘ T) s.board.groups
      (s.board.tables \ Scheduler.finishedIds s.board [g]) := by
    refine cleaned.mono ?_
    rintro id ⟨old | own, spared⟩
    · exact old
    · exact (spared (all id own)).elim
  refine tidy.drop subset_rfl (fun _ _ => rfl) rfl finished (fun _ _ => Iff.rfl) fun id own clean => ?_
  rw [tidy.here own clean, finished]
  simp

/-! ### The running queue -/

namespace Scheduling
open Scheduler

variable {M β : Type} [BlockSpaceManager M] [LawfulBlockSpaceManager M] {r : Registry}
  {dirty : Set SeqId} {copies mapping : List (BlockId × BlockId)} {held : Multiset Place}
  {s t : Scheduling M} {g : GroupRef}

omit [BlockSpaceManager M] [LawfulBlockSpaceManager M] in
theorem onScheduler_call {method : Method (Scheduler M) β} {a : β}
    (call : onScheduler method s = .ok a t) : method s.scheduler = .ok a t.scheduler := by
  obtain ⟨u, inner, rfl⟩ := zoom_ok call
  exact inner

omit [BlockSpaceManager M] [LawfulBlockSpaceManager M] in
theorem getScheduler_call {a : Scheduler M} (call : getScheduler s = .ok a t) :
    a = s.scheduler ∧ t = s := by
  cases call
  exact ⟨rfl, rfl⟩

def runningPlaces (ret : SchedulerRunningOutputs) : Multiset Place :=
  placesOf .running (seqGroupsOf ret.decodeSeqGroups) +
    placesOf .running (seqGroupsOf ret.prefillSeqGroups) + placesOf .waiting ret.preempted +
    placesOf .swapped ret.swappedOut

variable {enableChunking : Bool} {rounds : ℕ}

section
variable [OutputProcessor M] [LawfulOutputProcessor M]

theorem finishedByOutput_holding (holding : Holding r dirty copies ((g, .running) ::ₘ held) s.board)
    {done : Bool} (call : finishedByOutput g s = .ok done t) :
    Holding r dirty copies (if done then held else (g, .running) ::ₘ held) t.board := by
  unfold finishedByOutput at call
  obtain ⟨s', u, first, call⟩ := bind_ok call
  obtain ⟨rfl, rfl⟩ := getScheduler_call first
  split at call
  · obtain ⟨_, v, second, call⟩ := bind_ok call
    have queues := LawfulOutputProcessor.queues _ _ _ _ (onScheduler_call second)
    have processed := LawfulOutputProcessor.processed r g _ _ _ holding.placed.known
      holding.spread.identity (onScheduler_call second)
    obtain ⟨victimGroup, w, third, call⟩ := bind_ok call
    obtain ⟨rfl, same⟩ := group_call (onScheduler_call third)
    have places : v.board.places = u.board.places := by
      unfold board
      rw [queues]
      rfl
    have after := holding.placed.processed (by decide) queues processed
    split at call
    · rename_i finished
      obtain ⟨_, x, freed, last⟩ := bind_ok call
      cases last
      have live := SequenceGroup.isFinished_iff.mp finished
      have free := onScheduler_call freed
      rw [same] at free
      have placed : Placed r (dirty ∪ {id | id ∈ r.ids g}) copies
          ((g, .running) ::ₘ (u.board.places + held)) v.board := by
        rcases after with ⟨-, placed⟩ | placed
        · exact placed
        · exact placed.mono Set.subset_union_left
      have kept : t.board.places = u.board.places := by
        rw [← places]
        unfold board
        rw [freeFinishedSeqGroup_board free]
        rfl
      show Placed r dirty copies (t.board.places + held) t.board
      rw [kept]
      exact placed.depart live free
    · rename_i unfinished
      cases call
      have board : t.board = v.board := congrArg Scheduler.board same
      rcases after with ⟨finished, -⟩ | placed
      · rw [SequenceGroup.isFinished_iff] at unfinished
        exact (unfinished finished).elim
      · rw [board]
        exact .of_placed places placed
  · cases call
    exact holding

variable {base : List (BlockId × BlockId)} {ret ret' : SchedulerRunningOutputs}

theorem preemptVictim_holding (holding : Holding r dirty (base ++ ret.blocksToSwapOut)
      ((g, .running) ::ₘ (runningPlaces ret + held)) s.board)
    (call : preemptVictim g ret s = .ok ret' t) :
    Holding r dirty (base ++ ret'.blocksToSwapOut) (runningPlaces ret' + held) t.board := by
  unfold preemptVictim at call
  obtain ⟨done, u, processed, call⟩ := bind_ok call
  have after := finishedByOutput_holding holding processed
  cases done with
  | true =>
    cases call
    exact after
  | false =>
    rw [if_neg Bool.false_ne_true] at call after
    obtain ⟨⟨mode, mapping⟩, v, preempted, last⟩ := bind_ok call
    have moved := preempt_holding after (onScheduler_call preempted)
    cases mode with
    | recompute =>
      have nothing := (preempt_placed after.placed (onScheduler_call preempted)).2.2.1 rfl
      cases last
      have places : runningPlaces { ret with preempted := ret.preempted ++ [g] } + held =
          (g, .waiting) ::ₘ (runningPlaces ret + held) := by
        simp only [runningPlaces, placesOf_append, placesOf_cons, placesOf_nil,
          ← Multiset.singleton_add]
        abel
      rw [nothing, List.append_nil] at moved
      rw [places]
      exact moved
    | swap =>
      cases last
      have places : runningPlaces { ret with
          swappedOut := ret.swappedOut ++ [g], blocksToSwapOut := ret.blocksToSwapOut ++ mapping } + held =
          (g, .swapped) ::ₘ (runningPlaces ret + held) := by
        simp only [runningPlaces, placesOf_append, placesOf_cons, placesOf_nil,
          ← Multiset.singleton_add]
        abel
      rw [List.append_assoc] at moved
      rw [places]
      exact moved

theorem preemptItself_holding {fits : Bool} (holding : Holding r dirty (base ++ ret.blocksToSwapOut)
      ((g, .running) ::ₘ (runningPlaces ret + held)) s.board)
    (call : preemptItself g ret s = .ok (fits, ret') t) :
    fits = false ∧ Holding r dirty (base ++ ret'.blocksToSwapOut) (runningPlaces ret' + held) t.board := by
  unfold preemptItself at call
  obtain ⟨ret'', u, preempted, last⟩ := bind_ok call
  cases last
  exact ⟨rfl, preemptVictim_holding holding preempted⟩

/-- The places after a round that made room for `g`, or gave up on it. -/
def roomPlaces (g : GroupRef) (fits : Bool) (ret : SchedulerRunningOutputs) : Multiset Place :=
  if fits then (g, .running) ::ₘ runningPlaces ret else runningPlaces ret

theorem dropLast_places {queue : List GroupRef} {victim : GroupRef}
    (last : queue.getLast? = some victim) :
    placesOf status queue = (victim, status) ::ₘ placesOf status queue.dropLast := by
  have split : queue = queue.dropLast ++ [victim] :=
    (List.dropLast_append_getLast? victim last).symm
  conv_lhs => rw [split]
  rw [placesOf_append, placesOf_cons, placesOf_nil, Multiset.add_cons, add_zero]

theorem makeRoom_holding {numRunningTokens : ℤ} {fits : Bool}
    (holding : Holding r dirty (base ++ ret.blocksToSwapOut)
      ((g, .running) ::ₘ (runningPlaces ret + held)) s.board)
    (call : makeRoom g numRunningTokens enableChunking rounds ret s = .ok (fits, ret') t) :
    Holding r dirty (base ++ ret'.blocksToSwapOut) (roomPlaces g fits ret' + held) t.board := by
  induction rounds generalizing ret s with
  | zero =>
    unfold makeRoom at call
    obtain ⟨can, u, asked, call⟩ := bind_ok call
    have same := onScheduler_board (canAppendSlots_board _ _) _ _ _ asked
    rw [← same] at holding
    cases can with
    | true =>
      cases call
      rw [roomPlaces, if_pos rfl, Multiset.cons_add]
      exact holding
    | false =>
      rw [if_neg Bool.false_ne_true] at call
      obtain ⟨_, v, withdrawn, last⟩ := bind_ok call
      have again := withdraw_board _ _ _ _ _ withdrawn
      rw [← again] at holding
      obtain ⟨rfl, after⟩ := preemptItself_holding holding last
      exact after
  | succ rounds ih =>
    unfold makeRoom at call
    obtain ⟨can, u, asked, call⟩ := bind_ok call
    have same := onScheduler_board (canAppendSlots_board _ _) _ _ _ asked
    rw [← same] at holding
    cases can with
    | true =>
      cases call
      rw [roomPlaces, if_pos rfl, Multiset.cons_add]
      exact holding
    | false =>
      rw [if_neg Bool.false_ne_true] at call
      obtain ⟨_, v, withdrawn, call⟩ := bind_ok call
      have again := withdraw_board _ _ _ _ _ withdrawn
      rw [← again] at holding
      obtain ⟨s', w, read, call⟩ := bind_ok call
      obtain ⟨rfl, rfl⟩ := getScheduler_call read
      cases last : w.scheduler.running.getLast? with
      | none =>
        simp only [last] at call
        obtain ⟨rfl, after⟩ := preemptItself_holding holding call
        exact after
      | some victim =>
        simp only [last] at call
        obtain ⟨_, x, popped, call⟩ := bind_ok call
        obtain ⟨ret'', y, preempted, call⟩ := bind_ok call
        have board : x.board = { w.board with running := w.board.running.dropLast } := by
          cases popped
          rfl
        have ready : Holding r dirty (base ++ ret.blocksToSwapOut)
            ((victim, .running) ::ₘ (runningPlaces ret + (g, .running) ::ₘ held)) x.board := by
          rw [board]
          refine holding.requeue _ rfl ?_
          have split : placesOf .running w.board.running = _ := dropLast_places last
          simp only [Board.places, split, ← Multiset.singleton_add]
          abel
        have next := preemptVictim_holding ready preempted
        rw [Multiset.add_cons] at next
        exact ih next call

omit [OutputProcessor M] [LawfulOutputProcessor M] in
theorem scheduleRunningGroup_holding {numRunningTokens : ℤ}
    (holding : Holding r dirty (base ++ ret.blocksToSwapOut)
      ((g, .running) ::ₘ (runningPlaces ret + held)) s.board)
    (call : scheduleRunningGroup g numRunningTokens enableChunking ret s = .ok ret' t) :
    Holding r dirty (base ++ ret'.blocksToSwapOut) (runningPlaces ret' + held) t.board := by
  unfold scheduleRunningGroup at call
  obtain ⟨cows, u, appended, call⟩ := bind_ok call
  obtain ⟨seqGroup, v, read, call⟩ := bind_ok call
  obtain ⟨_, w, counted, call⟩ := bind_ok call
  obtain ⟨_, x, adapted, call⟩ := bind_ok call
  have first := onScheduler_board (appendSlots_board _ _) _ _ _ appended
  have second := onScheduler_board (group_board _) _ _ _ read
  have third := countScheduled_board _ _ _ _ _ _ counted
  have fourth := addLora_board _ _ _ _ adapted
  have same : x.board = s.board := fourth.trans (third.trans (second.trans first))
  rw [← same] at holding
  split at call
  · cases call
    have places : runningPlaces { ret with
        blocksToCopy := ret.blocksToCopy ++ cows
        prefillSeqGroups := ret.prefillSeqGroups ++ [⟨g, numRunningTokens⟩] } + held =
        (g, .running) ::ₘ (runningPlaces ret + held) := by
      simp only [runningPlaces, seqGroupsOf, List.map_append, List.map_cons, List.map_nil,
        placesOf_append, placesOf_cons, placesOf_nil, ← Multiset.singleton_add]
      abel
    rw [places]
    exact holding
  · cases call
    have places : runningPlaces { ret with
        blocksToCopy := ret.blocksToCopy ++ cows
        decodeSeqGroups := ret.decodeSeqGroups ++ [⟨g, 1⟩] } + held =
        (g, .running) ::ₘ (runningPlaces ret + held) := by
      simp only [runningPlaces, seqGroupsOf, List.map_append, List.map_cons, List.map_nil,
        placesOf_append, placesOf_cons, placesOf_nil, ← Multiset.singleton_add]
      abel
    rw [places]
    exact holding

theorem scheduleRunningLoop_holding
    (holding : Holding r dirty (base ++ ret.blocksToSwapOut) (runningPlaces ret + held) s.board)
    (call : scheduleRunningLoop enableChunking rounds ret s = .ok ret' t) :
    Holding r dirty (base ++ ret'.blocksToSwapOut) (runningPlaces ret' + held) t.board := by
  induction rounds generalizing ret s with
  | zero =>
    cases call
    exact holding
  | succ rounds ih =>
    unfold scheduleRunningLoop at call
    obtain ⟨s', u, read, call⟩ := bind_ok call
    obtain ⟨rfl, rfl⟩ := getScheduler_call read
    cases queue : u.scheduler.running with
    | nil =>
      simp only [queue] at call
      cases call
      exact holding
    | cons g rest =>
      simp only [queue] at call
      obtain ⟨⟨numRunningTokens, numCached⟩, v, counted, call⟩ := bind_ok call
      have same := getNumNewUncachedAndCachedTokens_board _ _ _ _ _ _ counted
      split at call
      · cases call
        rw [same]
        exact holding
      obtain ⟨_, w, popped, call⟩ := bind_ok call
      have board : w.board = { u.board with running := rest } := by
        cases popped
        rw [← same]
        rfl
      have taken : Holding r dirty (base ++ ret.blocksToSwapOut)
          ((g, .running) ::ₘ (runningPlaces ret + held)) w.board := by
        rw [board]
        refine holding.requeue _ rfl ?_
        have split : u.board.running = g :: rest := queue
        simp only [Board.places, split, placesOf_cons, ← Multiset.singleton_add]
        abel
      split at call
      · obtain ⟨_, x, stopped, last⟩ := bind_ok call
        refine ih ?_ last
        have board : x.board = { w.board with asyncStopped := w.board.asyncStopped ++ [g] } := by
          cases stopped
          rfl
        rw [board]
        refine taken.requeue _ rfl ?_
        simp only [Board.places, placesOf_append, placesOf_cons, placesOf_nil, ← Multiset.singleton_add]
        abel
      · obtain ⟨⟨fits, ret''⟩, x, made, call⟩ := bind_ok call
        have roomy := makeRoom_holding taken made
        cases fits with
        | false => exact ih roomy call
        | true =>
          rw [roomPlaces, if_pos rfl, Multiset.cons_add] at roomy
          obtain ⟨ret₃, y, scheduled, last⟩ := bind_ok call
          exact ih (scheduleRunningGroup_holding roomy scheduled) last

theorem scheduleRunning_holding (holding : Holding r dirty base held s.board)
    (call : scheduleRunning enableChunking s = .ok ret t) :
    Holding r dirty (base ++ ret.blocksToSwapOut) (runningPlaces ret + held) t.board := by
  unfold scheduleRunning at call
  obtain ⟨s', u, read, call⟩ := bind_ok call
  obtain ⟨rfl, rfl⟩ := getScheduler_call read
  obtain ⟨_, v, checked, call⟩ := bind_ok call
  obtain ⟨-, rfl⟩ := assertThat_call checked
  refine scheduleRunningLoop_holding ?_ call
  rw [List.append_nil]
  simpa [runningPlaces, seqGroupsOf] using holding

end

/-! ### The swapped queue -/

theorem setSwapped_board {swapped : List GroupRef} (call : setSwapped swapped s = .ok u t) :
    t.board = { s.board with swapped } := by
  cases call
  rfl

def swappedInPlaces (ret : SchedulerSwappedInOutputs) : Multiset Place :=
  placesOf .running (seqGroupsOf ret.decodeSeqGroups) +
    placesOf .running (seqGroupsOf ret.prefillSeqGroups)

/-- The sequences of groups that fail keep their tables. -/
def infeasibleIds (r : Registry) (ret : SchedulerSwappedInOutputs) : Set SeqId :=
  {id | ∃ g ∈ ret.infeasibleSeqGroups, id ∈ r.ids g}

variable {ret : SchedulerSwappedInOutputs} {ret' : SchedulerSwappedInOutputs}

theorem resume_holding {isPrefill : Bool} {uncached cached : ℤ}
    (holding : Holding r dirty copies ((g, .swapped) ::ₘ (swappedInPlaces ret + held)) s.board)
    (call : resume g isPrefill uncached cached enableChunking ret s = .ok ret' t) :
    Holding r dirty copies (swappedInPlaces ret' + held) t.board ∧
      ret'.infeasibleSeqGroups = ret.infeasibleSeqGroups := by
  unfold resume at call
  obtain ⟨mapping, u, swapped, call⟩ := bind_ok call
  obtain ⟨cows, v, appended, call⟩ := bind_ok call
  obtain ⟨seqGroup, w, read, call⟩ := bind_ok call
  obtain ⟨_, x, batched, call⟩ := bind_ok call
  obtain ⟨_, y, counted, call⟩ := bind_ok call
  have resumed := swapIn_holding holding (onScheduler_call swapped)
  have first := onScheduler_board (appendSlots_board _ _) _ _ _ appended
  have second := onScheduler_board (group_board _) _ _ _ read
  have third := onBudget_board _ _ _ _ batched
  have fourth := onBudget_board _ _ _ _ counted
  have same : y.board = u.board := fourth.trans (third.trans (second.trans first))
  change Holding r dirty copies _ u.board at resumed
  rw [← same] at resumed
  split at call
  · cases call
    have places : ∀ n, swappedInPlaces { ret with
        blocksToSwapIn := ret.blocksToSwapIn ++ mapping
        blocksToCopy := ret.blocksToCopy ++ cows
        prefillSeqGroups := ret.prefillSeqGroups ++ [⟨g, n⟩] } + held =
        (g, .running) ::ₘ (swappedInPlaces ret + held) := by
      intro n
      simp only [swappedInPlaces, seqGroupsOf, List.map_append, List.map_cons, List.map_nil,
        placesOf_append, placesOf_cons, placesOf_nil, ← Multiset.singleton_add]
      abel
    rw [places]
    exact ⟨resumed, rfl⟩
  · cases call
    have places : swappedInPlaces { ret with
        blocksToSwapIn := ret.blocksToSwapIn ++ mapping
        blocksToCopy := ret.blocksToCopy ++ cows
        decodeSeqGroups := ret.decodeSeqGroups ++ [⟨g, 1⟩] } + held =
        (g, .running) ::ₘ (swappedInPlaces ret + held) := by
      simp only [swappedInPlaces, seqGroupsOf, List.map_append, List.map_cons, List.map_nil,
        placesOf_append, placesOf_cons, placesOf_nil, ← Multiset.singleton_add]
      abel
    rw [places]
    exact ⟨resumed, rfl⟩

theorem ignoreAll_identity (seqGroup : SequenceGroup) :
    (ignoreAll seqGroup).identity = seqGroup.identity := by
  refine SequenceGroup.mapSeqs_identity (fun seq => ?_) seqGroup
  rfl

theorem ignoreAll_live (seqGroup : SequenceGroup) : (ignoreAll seqGroup).live = [] :=
  SequenceGroup.mapSeqs_finished fun _ _ => rfl

theorem scheduleSwappedLoop_holding {leftover leftover' : List GroupRef}
    (holding : Holding r (dirty ∪ infeasibleIds r ret) copies
      (swappedInPlaces ret + (placesOf .swapped leftover + held)) s.board)
    (call : scheduleSwappedLoop enableChunking rounds leftover ret s = .ok (leftover', ret') t) :
    Holding r (dirty ∪ infeasibleIds r ret') copies
      (swappedInPlaces ret' + (placesOf .swapped leftover' + held)) t.board := by
  induction rounds generalizing leftover ret s with
  | zero =>
    cases call
    exact holding
  | succ rounds ih =>
    unfold scheduleSwappedLoop at call
    obtain ⟨s', u, read, call⟩ := bind_ok call
    obtain ⟨rfl, rfl⟩ := getScheduler_call read
    cases queue : u.scheduler.swapped with
    | nil =>
      simp only [queue] at call
      cases call
      exact holding
    | cons g rest =>
      simp only [queue] at call
      obtain ⟨decision, v, decided, call⟩ := bind_ok call
      have same := considerSwapped_board _ _ _ _ _ decided
      rw [← same] at holding
      have queued : v.board.swapped = g :: rest := (congrArg Board.swapped same).trans queue
      cases decision with
      | stop =>
        cases call
        exact holding
      | leave =>
        obtain ⟨_, w, popped, last⟩ := bind_ok call
        refine ih ?_ last
        rw [setSwapped_board popped]
        refine holding.requeue _ rfl ?_
        simp only [Board.places, queued, placesOf_cons, ← Multiset.singleton_add]
        abel
      | fail =>
        obtain ⟨_, w, ignored, call⟩ := bind_ok call
        obtain ⟨_, x, popped, last⟩ := bind_ok call
        refine ih ?_ last
        have taken : Holding r (dirty ∪ infeasibleIds r ret) copies ((g, .swapped) ::ₘ
            (swappedInPlaces ret + (placesOf .swapped leftover + held)))
            { v.board with swapped := rest } := by
          refine holding.requeue _ rfl ?_
          simp only [Board.places, queued, placesOf_cons, ← Multiset.singleton_add]
          abel
        have board : w.board = { v.board with
            groups := Function.update v.board.groups g (ignoreAll (v.board.groups g)) } :=
          updateGroup_board (onScheduler_call ignored)
        have more : infeasibleIds r ret ⊆ infeasibleIds r { ret with
            infeasibleSeqGroups := ret.infeasibleSeqGroups ++ [g] } := by
          rintro id ⟨g', member, own⟩
          exact ⟨g', List.mem_append_left _ member, own⟩
        rw [setSwapped_board popped, board]
        refine taken.placed.finish (Set.union_subset_union_right _ more)
          (ignoreAll_identity _) (ignoreAll_live _) (fun _ _ => Iff.rfl) fun id own clean => ?_
        exact (clean (Or.inr ⟨g, List.mem_append_right _ (List.mem_singleton_self g), own⟩)).elim
      | take uncached cached =>
        obtain ⟨_, w, adapted, call⟩ := bind_ok call
        obtain ⟨_, x, popped, call⟩ := bind_ok call
        obtain ⟨ret'', y, resumed, last⟩ := bind_ok call
        have again := countAdapter_board _ _ _ _ adapted
        rw [← again] at holding
        have taken : Holding r (dirty ∪ infeasibleIds r ret) copies ((g, .swapped) ::ₘ
            (swappedInPlaces ret + (placesOf .swapped leftover + held))) x.board := by
          rw [setSwapped_board popped]
          refine holding.requeue _ rfl ?_
          have queued : w.board.swapped = g :: rest := (congrArg Board.swapped again).trans queued
          simp only [Board.places, queued, placesOf_cons, ← Multiset.singleton_add]
          abel
        obtain ⟨moved, failed⟩ := resume_holding taken resumed
        refine ih ?_ last
        have ids : infeasibleIds r ret'' = infeasibleIds r ret := by
          unfold infeasibleIds
          rw [failed]
        rw [ids]
        exact moved

theorem scheduleSwapped_holding (holding : Holding r dirty copies held s.board)
    (call : scheduleSwapped enableChunking s = .ok ret t) :
    Holding r (dirty ∪ infeasibleIds r ret) copies (swappedInPlaces ret + held) t.board := by
  unfold scheduleSwapped at call
  obtain ⟨s', u, read, call⟩ := bind_ok call
  obtain ⟨rfl, rfl⟩ := getScheduler_call read
  rw [get_bind, modify_bind] at call
  obtain ⟨⟨leftover, ret'⟩, v, looped, call⟩ := bind_ok call
  dsimp only at call
  rw [modify_bind] at call
  obtain ⟨_, w, restored, last⟩ := bind_ok call
  cases last
  have start : Holding r (dirty ∪ infeasibleIds r {}) copies
      (swappedInPlaces {} + (placesOf .swapped [] + held)) u.board := by
    have none : infeasibleIds r {} = ∅ := by
      ext id
      simp [infeasibleIds]
    rw [none, Set.union_empty]
    simpa [swappedInPlaces, seqGroupsOf] using holding
  have after := scheduleSwappedLoop_holding (s := { u with partialPrefillMetadata := none }) start looped
  have board : t.board = { v.board with swapped := leftover.reverse ++ v.board.swapped } := by
    cases restored
    rfl
  rw [board]
  refine after.requeue _ rfl ?_
  simp only [Board.places, placesOf_append, placesOf_reverse]
  abel

/-! ### The waiting queue -/

theorem setWaiting_board {waiting : List GroupRef} (call : setWaiting waiting s = .ok u t) :
    t.board = { s.board with waiting } := by
  cases call
  rfl

def prefillPlaces (ret : SchedulerPrefillOutputs) : Multiset Place :=
  placesOf .running (seqGroupsOf ret.seqGroups)

omit [LawfulBlockSpaceManager M] in
theorem considerPrefill_one {seqGroup : SequenceGroup} {decision : Decision}
    (call : considerPrefill seqGroup enableChunking s = .ok decision t) :
    (seqGroup.getSeqs .waiting).length = 1 := by
  unfold considerPrefill at call
  rw [get_bind] at call
  obtain ⟨_, u, checked, -⟩ := bind_ok call
  exact (assertThat_call checked).1

theorem start_holding {rest : List GroupRef} {uncached cached : ℤ}
    (queue : s.board.waiting = g :: rest) (one : ((s.board.groups g).getSeqs .waiting).length = 1)
    (holding : Holding r dirty copies held s.board)
    (call : start g rest uncached cached enableChunking s = .ok u t) :
    Holding r dirty copies ((g, .running) ::ₘ held) t.board := by
  unfold start at call
  obtain ⟨seqGroup, u, read, call⟩ := bind_ok call
  obtain ⟨_, v, adapted, call⟩ := bind_ok call
  obtain ⟨_, w, popped, call⟩ := bind_ok call
  obtain ⟨_, x, allocated, call⟩ := bind_ok call
  obtain ⟨_, y, prepared, call⟩ := bind_ok call
  obtain ⟨_, z, batched, counted⟩ := bind_ok call
  have first := onScheduler_board (group_board _) _ _ _ read
  have second := countAdapter_board _ _ _ _ adapted
  have same : v.board = s.board := second.trans first
  have taken : Holding r dirty copies ((g, .waiting) ::ₘ held) w.board := by
    rw [setWaiting_board popped, same]
    refine holding.requeue _ rfl ?_
    simp only [Board.places, queue, placesOf_cons, ← Multiset.singleton_add]
    abel
  have groups : w.board.groups = s.board.groups := by rw [setWaiting_board popped, same]
  have placed := allocateAndSetRunning_holding taken (by
    rw [← groups] at one
    exact one) (onScheduler_call allocated)
  have third := prepare_board _ _ _ _ _ _ prepared
  have fourth := onBudget_board _ _ _ _ batched
  have fifth := onBudget_board _ _ _ _ counted
  have last : t.board = x.board := fifth.trans (fourth.trans third)
  rw [last]
  exact placed

theorem ignore_holding {rest : List GroupRef} (queue : s.board.waiting = g :: rest)
    (holding : Holding r dirty copies held s.board) (call : ignore g rest s = .ok u t) :
    Holding r dirty copies held t.board := by
  unfold ignore at call
  obtain ⟨_, v, ignored, popped⟩ := bind_ok call
  have taken : Holding r dirty copies ((g, .waiting) ::ₘ held) { s.board with waiting := rest } := by
    refine holding.requeue _ rfl ?_
    simp only [Board.places, queue, placesOf_cons, ← Multiset.singleton_add]
    abel
  have board : v.board = { s.board with
      groups := Function.update s.board.groups g (.setStatus .waiting .finishedIgnored (s.board.groups g)) } :=
    updateGroup_board (onScheduler_call ignored)
  rw [setWaiting_board popped, board]
  refine taken.placed.finish subset_rfl (SequenceGroup.setStatus_identity _ _ _)
    (SequenceGroup.setStatus_finished rfl taken.placed.statuses) (fun _ _ => Iff.rfl) ?_
  intro id own clean member
  exact ((taken.placed.spread.here own clean).mp member).2 rfl

variable {ret : SchedulerPrefillOutputs}

theorem schedulePrefillsLoop_holding
    {leftover leftover' : List GroupRef} {ret' : SchedulerPrefillOutputs}
    (holding : Holding r dirty copies (prefillPlaces ret + (placesOf .waiting leftover + held)) s.board)
    (call : schedulePrefillsLoop enableChunking rounds leftover ret s = .ok (leftover', ret') t) :
    Holding r dirty copies (prefillPlaces ret' + (placesOf .waiting leftover' + held)) t.board := by
  induction rounds generalizing leftover ret s with
  | zero =>
    unfold schedulePrefillsLoop at call
    obtain ⟨passed, u, asked, last⟩ := bind_ok call
    cases last
    rw [onScheduler_board delayHasPassed_board _ _ _ asked]
    exact holding
  | succ rounds ih =>
    unfold schedulePrefillsLoop at call
    obtain ⟨passed, u, asked, call⟩ := bind_ok call
    obtain ⟨s', v, read, call⟩ := bind_ok call
    obtain ⟨rfl, rfl⟩ := getScheduler_call read
    rw [← onScheduler_board delayHasPassed_board _ _ _ asked] at holding
    cases passed with
    | false =>
      cases call
      exact holding
    | true =>
      cases queue : v.scheduler.waiting with
      | nil =>
        simp only [queue] at call
        cases call
        exact holding
      | cons g rest =>
        simp only [queue] at call
        obtain ⟨decision, w, decided, call⟩ := bind_ok call
        have same := considerPrefill_board _ _ _ _ _ decided
        have one := considerPrefill_one decided
        rw [← same] at holding
        have queued : w.board.waiting = g :: rest := (congrArg Board.waiting same).trans queue
        cases decision with
        | stop =>
          cases call
          exact holding
        | leave =>
          obtain ⟨_, x, popped, last⟩ := bind_ok call
          refine ih ?_ last
          rw [setWaiting_board popped]
          refine holding.requeue _ rfl ?_
          simp only [Board.places, queued, placesOf_cons, ← Multiset.singleton_add]
          abel
        | fail =>
          obtain ⟨_, x, ignored, last⟩ := bind_ok call
          refine ih ?_ last
          exact ignore_holding queued holding ignored
        | take uncached cached =>
          obtain ⟨_, x, started, last⟩ := bind_ok call
          refine ih ?_ last
          have moved := start_holding queued (by
            rw [same]
            exact one) holding started
          have places : prefillPlaces { ret with
              seqGroups := ret.seqGroups ++ [⟨g, uncached + cached⟩] } =
              (g, .running) ::ₘ prefillPlaces ret := by
            simp only [prefillPlaces, seqGroupsOf, List.map_append, List.map_cons, List.map_nil,
              placesOf_append, placesOf_cons, placesOf_nil, ← Multiset.singleton_add]
            abel
          rw [places, Multiset.cons_add]
          exact moved

theorem schedulePrefills_holding (holding : Holding r dirty copies held s.board)
    (call : schedulePrefills enableChunking s = .ok ret t) :
    Holding r dirty copies (prefillPlaces ret + held) t.board := by
  unfold schedulePrefills at call
  rw [get_bind] at call
  split at call
  · cases call
    simpa [prefillPlaces, seqGroupsOf] using holding
  · obtain ⟨⟨leftover, ret'⟩, u, looped, call⟩ := bind_ok call
    obtain ⟨_, v, restored, last⟩ := bind_ok call
    cases last
    have start : Holding r dirty copies (prefillPlaces {} + (placesOf .waiting [] + held)) s.board := by
      simpa [prefillPlaces, seqGroupsOf] using holding
    have after := schedulePrefillsLoop_holding start looped
    have board : t.board = { u.board with waiting := leftover.reverse ++ u.board.waiting } := by
      cases restored
      rfl
    rw [board]
    refine after.requeue _ rfl ?_
    simp only [Board.places, placesOf_append, placesOf_reverse]
    abel

end Scheduling
end Vllm
