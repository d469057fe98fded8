import VllmProofs.Block.PrefixLookup
import VllmProofs.Scheduler.Serving

/-!
Every run of the scheduler: which queue each group is in, and which sequences have a block table.
-/

namespace Vllm
open Exec

structure Serving (M : Type) where
  scheduler : Scheduler M
  added : List GroupRef := []
  /-- The groups dropped from the list of stopped groups. -/
  dropped : List GroupRef := []
  /-- The copies reported in `blocks_to_swap_out`. -/
  reported : List (BlockId × BlockId) := []

inductive Act where
  | addSeqGroup (g : GroupRef) (seqGroup : SequenceGroup)
  | schedule
  | abortSeqGroup (requestIds : List String) (groupIds : Dict String String)
  | processModelOutputs (output : Output) (scheduled : List GroupRef)
  | freeFinishedSeqGroups

namespace Serving
open Scheduler

variable {M β : Type}

/-- The engine adds new groups only. Their request ids are unique, their sequence ids come from a
counter, and their sequences wait. -/
def Admits (s : Serving M) (g : GroupRef) (seqGroup : SequenceGroup) : Prop :=
  g ∉ s.added ∧ seqGroup.seqIds.Nodup ∧ (∀ seq ∈ seqGroup.seqs, seq.status = .waiting) ∧
    ∀ g' ∈ s.added, (s.scheduler.groups g').requestId ≠ seqGroup.requestId ∧
      ∀ id ∈ seqGroup.seqIds, id ∉ (s.scheduler.groups g').seqIds

instance (s : Serving M) (g : GroupRef) (seqGroup : SequenceGroup) :
    Decidable (s.Admits g seqGroup) := by
  unfold Admits
  infer_instance

def returns (s : Serving M) (method : Method (Scheduler M) β) (record : β → Scheduler M → Serving M) :
    Option (Serving M) :=
  match method s.scheduler with
  | .ok b t => some (record b t)
  | .error _ _ => none

theorem returns_eq_some {s t : Serving M} {method : Method (Scheduler M) β}
    {record : β → Scheduler M → Serving M} :
    s.returns method record = some t ↔ ∃ b u, method s.scheduler = .ok b u ∧ record b u = t := by
  unfold returns
  cases method s.scheduler with
  | ok b u => simp
  | error e u => simp

variable [BlockSpaceManager M] [OutputProcessor M]

/-- One call; `none` if it raises, or if the engine does not make it. -/
def act (s : Serving M) : Act → Option (Serving M)
  | .addSeqGroup g seqGroup =>
    if s.Admits g seqGroup then
      s.returns (addSeqGroup g seqGroup) fun _ t => { s with scheduler := t, added := g :: s.added }
    else none
  | .schedule => s.returns schedule fun result t =>
    { s with scheduler := t, reported := s.reported ++ result.2.blocksToSwapOut }
  | .abortSeqGroup requestIds groupIds =>
    s.returns (abortSeqGroup requestIds groupIds) fun _ t => { s with scheduler := t }
  | .processModelOutputs output scheduled =>
    if ∀ g ∈ scheduled, g ∈ s.added then
      s.returns (processModelOutputs output scheduled) fun finishedNow t =>
        { s with
          scheduler := t
          dropped := if finishedNow then s.scheduler.asyncStopped ++ s.dropped else s.dropped }
    else none
  | .freeFinishedSeqGroups => s.returns freeFinishedSeqGroups fun _ t =>
    { s with scheduler := t, dropped := s.scheduler.asyncStopped ++ s.dropped }

/-- The groups at their places, up to the tables of the `dirty` sequences. -/
def Settled [LawfulBlockSpaceManager M] (dirty : Set SeqId) (s : Serving M) : Prop :=
  ∃ r : Registry, (∀ g, g ∈ r.added ↔ g ∈ s.added) ∧ (∀ g, g ∈ r.stopped ↔ g ∈ s.dropped) ∧
    Holding r dirty s.reported 0 s.scheduler.board

/-- The next `schedule` gives up a swapped group. -/
def AbandonsSwapped (s : Scheduler M) : Prop :=
  ∃ result ∈ result? schedule s, ∃ g ∈ result.2.ignoredSeqGroups, g ∈ s.swapped

instance (s : Scheduler M) : Decidable (AbandonsSwapped s) := by
  unfold AbandonsSwapped
  infer_instance

instance (s : Scheduler M) : Decidable (ForcesSwap s) := by
  unfold ForcesSwap
  infer_instance

/-- What a call must not do for the tables to stay in order. -/
def Clean (s : Serving M) (a : Act) (t : Serving M) : Prop :=
  match a with
  | .schedule => ¬AbandonsSwapped s.scheduler
  | .processModelOutputs output scheduled =>
    (output.frees = true ∨ ∀ g ∈ scheduled, g ∉ s.scheduler.swapped) ∧
      ∀ g ∈ s.scheduler.asyncStopped, g ∈ t.dropped → (t.scheduler.groups g).isFinished = true
  | .freeFinishedSeqGroups => ∀ g ∈ s.scheduler.asyncStopped, (s.scheduler.groups g).isFinished = true
  | .addSeqGroup _ _ => True
  | .abortSeqGroup _ _ => True

instance (s : Serving M) (a : Act) (t : Serving M) : Decidable (Clean s a t) :=
  match a with
  | .addSeqGroup _ _ => inferInstanceAs (Decidable True)
  | .schedule => inferInstanceAs (Decidable ¬AbandonsSwapped s.scheduler)
  | .abortSeqGroup _ _ => inferInstanceAs (Decidable True)
  | .processModelOutputs output scheduled => inferInstanceAs (Decidable
      ((output.frees = true ∨ ∀ g ∈ scheduled, g ∉ s.scheduler.swapped) ∧
        ∀ g ∈ s.scheduler.asyncStopped, g ∈ t.dropped → (t.scheduler.groups g).isFinished = true))
  | .freeFinishedSeqGroups => inferInstanceAs (Decidable
      (∀ g ∈ s.scheduler.asyncStopped, (s.scheduler.groups g).isFinished = true))

section
variable [LawfulBlockSpaceManager M] [LawfulOutputProcessor M] {dirty : Set SeqId} {s t : Serving M}

section
variable (settled : Settled dirty s)
include settled

omit [LawfulOutputProcessor M] in
theorem addSeqGroup_settled {g : GroupRef} {seqGroup : SequenceGroup}
    (step : s.act (.addSeqGroup g seqGroup) = some t) : Settled dirty t := by
  obtain ⟨r, added, dropped, holding⟩ := settled
  simp only [act] at step
  split at step
  · rename_i new
    obtain ⟨fresh, distinct, waits, others⟩ := new
    obtain ⟨u, next, call, rfl⟩ := returns_eq_some.mp step
    have known : ∀ g' ∈ r.added, (s.scheduler.groups g').identity = r.identity g' :=
      holding.spread.identity
    have admits : r.Admits g seqGroup := by
      refine ⟨fun member => fresh ((added g).mp member), ?_, distinct, ?_, waits⟩
      · intro g' member
        rw [← known g' member]
        exact (others g' ((added g').mp member)).1
      · intro g' member
        rw [Registry.ids, ← known g' member]
        exact (others g' ((added g').mp member)).2
    refine ⟨r.enter g seqGroup admits, fun g' => ?_, dropped, addSeqGroup_holding holding admits call⟩
    show g' ∈ insert g r.added ↔ _
    rw [Set.mem_insert_iff, added, List.mem_cons]
  · cases step

omit [LawfulOutputProcessor M] in
theorem abortSeqGroup_settled {requestIds : List String} {groupIds : Dict String String} (step : s.act (.abortSeqGroup requestIds groupIds) = some t) :
    Settled dirty t := by
  obtain ⟨r, added, dropped, holding⟩ := settled
  obtain ⟨u, next, call, rfl⟩ := returns_eq_some.mp step
  exact ⟨r, added, dropped, abortSeqGroup_holding holding call⟩

theorem schedule_settled (unforced : ¬ForcesSwap s.scheduler) (step : s.act .schedule = some t) :
    ∃ lost, Settled (dirty ∪ lost) t ∧ (¬AbandonsSwapped s.scheduler → lost = ∅) := by
  obtain ⟨r, added, dropped, holding⟩ := settled
  obtain ⟨⟨metadata, outputs⟩, next, call, rfl⟩ := returns_eq_some.mp step
  obtain ⟨swappedIn, after, infeasible⟩ := schedule_holding holding unforced call
  refine ⟨_, ⟨r, added, dropped, after⟩, fun keeps => ?_⟩
  have none : ∀ g, g ∉ swappedIn.infeasibleSeqGroups := by
    intro g member
    obtain ⟨ignored, swapped⟩ := infeasible g member
    exact keeps ⟨_, result?_eq_some.mpr ⟨next, call⟩, g, ignored, swapped⟩
  rw [Set.eq_empty_iff_forall_notMem]
  rintro id ⟨g, member, -⟩
  exact none g member

omit [LawfulOutputProcessor M] in
theorem processModelOutputs_settled {output : Output} {scheduled : List GroupRef} (step : s.act (.processModelOutputs output scheduled) = some t) :
    ∃ lost, Settled (dirty ∪ lost) t ∧
      (Clean s (.processModelOutputs output scheduled) t → lost = ∅) := by
  obtain ⟨r, added, dropped, holding⟩ := settled
  simp only [act] at step
  split at step
  · rename_i known
    obtain ⟨finishedNow, next, call, rfl⟩ := returns_eq_some.mp step
    obtain ⟨lost, after, nothing⟩ := processModelOutputs_holding holding
      (fun g member => (added g).mpr (known g member)) call
    refine ⟨lost, ⟨_, ?_, ?_, after⟩, ?_⟩
    · intro g
      cases finishedNow with
      | true => exact added g
      | false => exact added g
    · intro g
      cases finishedNow with
      | true =>
        show g ∈ r.stopped ∪ {g | g ∈ s.scheduler.asyncStopped} ↔ g ∈ s.scheduler.asyncStopped ++ s.dropped
        rw [Set.mem_union, dropped, List.mem_append, or_comm]
        rfl
      | false => exact dropped g
    · rintro ⟨apart, ended⟩
      refine nothing apart ?_
      rintro rfl g member
      exact ended g member (List.mem_append_left _ member)
  · cases step

omit [LawfulOutputProcessor M] in
theorem freeFinishedSeqGroups_settled (step : s.act .freeFinishedSeqGroups = some t) :
    ∃ lost, Settled (dirty ∪ lost) t ∧ (Clean s .freeFinishedSeqGroups t → lost = ∅) := by
  obtain ⟨r, added, dropped, holding⟩ := settled
  obtain ⟨u, next, call, rfl⟩ := returns_eq_some.mp step
  have after := freeFinishedSeqGroups_holding holding call
  have known : ∀ g, g ∈ (r.stop {g | g ∈ s.scheduler.asyncStopped}).stopped ↔
      g ∈ s.scheduler.asyncStopped ++ s.dropped := by
    intro g
    show g ∈ r.stopped ∪ {g | g ∈ s.scheduler.asyncStopped} ↔ _
    rw [Set.mem_union, dropped, List.mem_append, or_comm]
    rfl
  refine ⟨_, ⟨r.stop {g | g ∈ s.scheduler.asyncStopped}, added, known,
    after.mono (Set.union_subset_union_left _ Set.sdiff_subset)⟩, ?_⟩
  intro ended
  rw [Set.eq_empty_iff_forall_notMem]
  rintro id ⟨g, member, live⟩
  rw [SequenceGroup.isFinished_iff.mp (ended g member)] at live
  cases live

theorem act_settled {a : Act}
    (unforced : a = .schedule → ¬ForcesSwap s.scheduler) (step : s.act a = some t) :
    ∃ lost, Settled (dirty ∪ lost) t ∧ (Clean s a t → lost = ∅) := by
  cases a with
  | addSeqGroup g seqGroup =>
    refine ⟨∅, ?_, fun _ => rfl⟩
    rw [Set.union_empty]
    exact addSeqGroup_settled settled step
  | schedule => exact schedule_settled settled (unforced rfl) step
  | abortSeqGroup requestIds groupIds =>
    refine ⟨∅, ?_, fun _ => rfl⟩
    rw [Set.union_empty]
    exact abortSeqGroup_settled settled step
  | processModelOutputs output scheduled => exact processModelOutputs_settled settled step
  | freeFinishedSeqGroups => exact freeFinishedSeqGroups_settled settled step

end

end

/-! ### Every run -/

/-- A call that does not swap out a group to make room for one of a higher priority. -/
def Unforced (s : Serving M) (a : Act) (t : Serving M) : Prop :=
  s.act a = some t ∧ (a = .schedule → ¬ForcesSwap s.scheduler)

/-- A call that leaves no tables behind. -/
def Tidy (s : Serving M) (a : Act) (t : Serving M) : Prop := Unforced s a t ∧ Clean s a t

def tidyAct (s : Serving M) (a : Act) : Option (Serving M) :=
  match a with
  | .schedule => if ForcesSwap s.scheduler then none else (s.act a).filter fun t => Clean s a t
  | _ => (s.act a).filter fun t => Clean s a t

theorem tidyAct_sound (s : Serving M) (a : Act) (t : Serving M) (step : tidyAct s a = some t) :
    Tidy s a t := by
  have filtered : (s.act a).filter (fun t => Clean s a t) = some t ∧
      (a = .schedule → ¬ForcesSwap s.scheduler) := by
    unfold tidyAct at step
    split at step
    · split at step
      · cases step
      · rename_i unforced
        exact ⟨step, fun _ => unforced⟩
    · rename_i other
      exact ⟨step, fun same => (other same).elim⟩
  obtain ⟨called, clean⟩ := Option.filter_eq_some_iff.mp filtered.1
  exact ⟨⟨called, filtered.2⟩, of_decide_eq_true clean⟩

/-- The unfinished groups are in one queue each, in the one for their status. A stopped group runs
until it is dropped. -/
structure Orderly (s : Serving M) : Prop where
  once : ∀ g ∈ s.added, g ∉ s.dropped → (s.scheduler.groups g).isFinished = false →
    (s.scheduler.waiting ++ s.scheduler.running ++ s.scheduler.swapped ++
      s.scheduler.asyncStopped).count g = 1
  waiting : ∀ g ∈ s.scheduler.waiting, ∀ seq ∈ (s.scheduler.groups g).seqs,
    seq.isFinished = false → seq.status = .waiting
  running : ∀ g ∈ s.scheduler.running ++ s.scheduler.asyncStopped,
    ∀ seq ∈ (s.scheduler.groups g).seqs, seq.isFinished = false → seq.status = .running
  swapped : ∀ g ∈ s.scheduler.swapped, ∀ seq ∈ (s.scheduler.groups g).seqs,
    seq.isFinished = false → seq.status = .swapped
  reported : s.reported = s.scheduler.copies

section
variable [LawfulBlockSpaceManager M] {dirty : Set SeqId} {s t : Serving M}

omit [OutputProcessor M] in
theorem Settled.orderly (settled : Settled dirty s) : Orderly s := by
  obtain ⟨r, added, dropped, holding⟩ := settled
  have all : (s.scheduler.board.places + 0).map Prod.fst = ↑(s.scheduler.waiting ++
      s.scheduler.running ++ s.scheduler.swapped ++ s.scheduler.asyncStopped) := by
    simp only [Board.places, add_zero, Multiset.map_add, map_placesOf, ← Multiset.coe_add]
    rfl
  have statuses : ∀ p ∈ s.scheduler.board.places, ∀ seq ∈ (s.scheduler.groups p.1).seqs,
      seq.isFinished = false → seq.status = p.2 := by
    intro p member seq among unfinished
    rw [← add_zero s.scheduler.board.places] at member
    exact holding.spread.status p member _ (SequenceGroup.mem_live.mpr ⟨seq, among, unfinished, rfl⟩)
  refine ⟨?_, ?_, ?_, ?_, holding.copied.symm⟩
  · intro g member present unfinished
    have live : (s.scheduler.groups g).live ≠ [] := by
      intro none
      rw [SequenceGroup.isFinished_iff.mpr none] at unfinished
      cases unfinished
    have placed := holding.spread.covered g ((added g).mpr member)
      (fun gone => present ((dropped g).mp gone)) live
    have nodup := holding.spread.nodup
    rw [all] at placed nodup
    exact List.count_eq_one_of_mem (Multiset.coe_nodup.mp nodup) (Multiset.mem_coe.mp placed)
  · intro g member
    refine statuses (g, .waiting) ?_
    simp only [Board.places, Multiset.mem_add, mem_placesOf]
    exact Or.inl (Or.inl (Or.inl ⟨member, trivial⟩))
  · intro g member
    refine statuses (g, .running) ?_
    simp only [Board.places, Multiset.mem_add, mem_placesOf]
    cases List.mem_append.mp member with
    | inl running => exact Or.inl (Or.inl (Or.inr ⟨running, trivial⟩))
    | inr stopped => exact Or.inr ⟨stopped, trivial⟩
  · intro g member
    refine statuses (g, .swapped) ?_
    simp only [Board.places, Multiset.mem_add, mem_placesOf]
    exact Or.inl (Or.inr ⟨member, trivial⟩)

omit [OutputProcessor M] in
theorem Settled.tables (settled : Settled ∅ s) (id : SeqId) :
    id ∈ LawfulBlockSpaceManager.tables s.scheduler.blockManager ↔
      ∃ g ∈ s.scheduler.running ++ s.scheduler.swapped ++ s.scheduler.asyncStopped,
        ∃ seq ∈ (s.scheduler.groups g).seqs, seq.isFinished = false ∧ seq.seqId = id := by
  obtain ⟨r, -, -, holding⟩ := settled
  have places : ∀ p, p ∈ s.scheduler.board.places + 0 ↔ p ∈ s.scheduler.board.places := by simp
  refine ⟨fun member => ?_, ?_⟩
  · obtain ⟨g, known, own⟩ := holding.spread.owned id member (Set.notMem_empty id)
    obtain ⟨live, p, placed, rfl, active⟩ :=
      (holding.spread.tabled g known id own (Set.notMem_empty id)).mp member
    obtain ⟨q, among, rfl⟩ := List.mem_map.mp live
    obtain ⟨seq, present, unfinished, rfl⟩ := SequenceGroup.mem_live.mp among
    exact ⟨p.1, mem_active ((places p).mp placed) active, seq, present, unfinished, rfl⟩
  · rintro ⟨g, queued, seq, among, unfinished, rfl⟩
    have placed : ∃ p ∈ s.scheduler.board.places + 0, p.1 = g ∧ p.2 ≠ .waiting := by
      simp only [Board.places, add_zero, Multiset.mem_add, mem_placesOf]
      simp only [List.mem_append] at queued
      rcases queued with (running | swapped) | stopped
      · exact ⟨(g, .running), Or.inl (Or.inl (Or.inr ⟨running, rfl⟩)), rfl, SequenceStatus.noConfusion⟩
      · exact ⟨(g, .swapped), Or.inl (Or.inr ⟨swapped, rfl⟩), rfl, SequenceStatus.noConfusion⟩
      · exact ⟨(g, .running), Or.inr ⟨stopped, rfl⟩, rfl, SequenceStatus.noConfusion⟩
    have known : g ∈ r.added := by
      obtain ⟨p, member, rfl, -⟩ := placed
      exact holding.spread.known p member
    have live : seq.seqId ∈ (s.scheduler.groups g).live.map Prod.fst :=
      List.mem_map_of_mem (SequenceGroup.mem_live.mpr ⟨seq, among, unfinished, rfl⟩)
    have own : seq.seqId ∈ r.ids g := by
      rw [← holding.spread.seqIds known]
      exact SequenceGroup.seqIds_of_live live
    exact (holding.spread.tabled g known _ own (Set.notMem_empty _)).mpr ⟨live, placed⟩

end
end Serving

/-! ### The scheduler of a decoder-only model -/

/-- What a scheduler is made from, and the clock and the random numbers it will read. -/
structure Setup (α : Type) where
  schedulerConfig : SchedulerConfig
  cacheConfig : CacheConfig
  maxLoras : Option ℕ := none
  useAsyncOutputProc : Bool := false
  enableArtificialPreemption : Bool := false
  numGpuBlocks : ℕ
  numCpuBlocks : ℕ
  slidingWindow : Option ℕ := none
  objects : Objects
  blockAllocator : CpuGpuBlockAllocator α
  groups : GroupRef → SequenceGroup
  clock : Evictor.Clock
  draws : ℕ → ℚ

namespace Setup

variable {α : Type}

def blockManager (setup : Setup α) : Heaped (SelfAttnBlockSpaceManager α) :=
  ⟨setup.objects, .init setup.cacheConfig.blockSize setup.numGpuBlocks setup.numCpuBlocks (1 / 100)
    setup.slidingWindow setup.cacheConfig.enablePrefixCaching setup.blockAllocator⟩

/-- The scheduler before its first request. -/
def start (setup : Setup α) : Serving (Heaped (SelfAttnBlockSpaceManager α)) where
  scheduler := .init setup.schedulerConfig setup.cacheConfig setup.maxLoras setup.useAsyncOutputProc
    setup.enableArtificialPreemption setup.blockManager setup.groups setup.clock setup.draws

end Setup

namespace Serving

variable {α : Type} [BlockAllocator α] [PythonHash]

theorem start_settled (setup : Setup α) : Settled ∅ setup.start := by
  refine ⟨{
    added := ∅
    stopped := ∅
    config := setup.schedulerConfig
    identity := fun g => (setup.groups g).identity
    requests := by simp
    distinct := by simp
    owners := by simp }, by simp [Setup.start], by simp [Setup.start], ?_, rfl, rfl⟩
  have none : ∀ id, id ∉ setup.start.scheduler.board.tables := by
    intro id member
    exact absurd member Bool.false_ne_true
  have empty : setup.start.scheduler.board.places + 0 = 0 := rfl
  rw [empty]
  refine ⟨by simp, by simp, by simp, by simp, by simp, by simp, ?_, by simp⟩
  exact fun id member => (none id member).elim

section
variable [OutputProcessor (Heaped (SelfAttnBlockSpaceManager α))]
  [LawfulOutputProcessor (Heaped (SelfAttnBlockSpaceManager α))]
  {s : Serving (Heaped (SelfAttnBlockSpaceManager α))} {h : List Act}

theorem run_settled {setup : Setup α} (run : Run Unforced setup.start h s) :
    ∃ dirty, Settled dirty s := by
  refine Run.invariant (I := fun _ s => ∃ dirty, Settled dirty s) ⟨∅, start_settled setup⟩ ?_ run
  rintro h t a u ⟨dirty, settled⟩ ⟨step, unforced⟩
  obtain ⟨lost, after, -⟩ := act_settled settled unforced step
  exact ⟨_, after⟩

theorem run_orderly (setup : Setup α) (run : Run Unforced setup.start h s) : Orderly s := by
  obtain ⟨dirty, settled⟩ := run_settled run
  exact settled.orderly

theorem tidy_run_settled {setup : Setup α} (run : Run Tidy setup.start h s) : Settled ∅ s := by
  refine Run.invariant (I := fun _ s => Settled ∅ s) (start_settled setup) ?_ run
  rintro h t a u settled ⟨⟨step, unforced⟩, clean⟩
  obtain ⟨lost, after, nothing⟩ := act_settled settled unforced step
  rw [nothing clean, Set.union_empty] at after
  exact after

/-- The tables are those of the unfinished sequences that do not wait, and no group is stopped once
the finished groups are freed. -/
theorem tidy_run_tables (setup : Setup α) (run : Run Tidy setup.start h s) :
    (∀ id, s.scheduler.blockManager.self.blockTables.contains id = true ↔
      ∃ g ∈ s.scheduler.running ++ s.scheduler.swapped ++ s.scheduler.asyncStopped,
        ∃ seq ∈ (s.scheduler.groups g).seqs, seq.isFinished = false ∧ seq.seqId = id) ∧
      (h.head? = some .freeFinishedSeqGroups → s.scheduler.asyncStopped = []) := by
  refine ⟨(tidy_run_settled run).tables, fun last => ?_⟩
  cases run with
  | start => cases last
  | call before step =>
    cases last
    obtain ⟨u, next, call, rfl⟩ := returns_eq_some.mp step.1.1
    exact congrArg Board.asyncStopped (Scheduler.freeFinishedSeqGroups_board call)

end
end Serving

/-! ### Groups elsewhere -/

namespace Serving
open PrefixCachingBlockAllocator (digitsHash)

abbrev NaiveManager := Heaped (SelfAttnBlockSpaceManager NaiveBlockAllocator)

local instance : PythonHash := digitsHash

/-- No output is pending when a group is preempted. -/
local instance nothingPending : OutputProcessor NaiveManager := ⟨fun _ => pure ()⟩

local instance nothingPending_lawful : LawfulOutputProcessor NaiveManager where
  queues requestId s t u call := by
    cases call
    rfl
  processed r g s t u known identity call := by
    cases call
    exact ⟨fun _ _ => .refl _, fun _ _ _ => rfl, subset_rfl, fun _ _ _ _ kept => kept⟩

def naiveSetup (schedulerConfig : SchedulerConfig) (useAsyncOutputProc : Bool)
    (blockSize numGpuBlocks : ℕ) : Setup NaiveBlockAllocator where
  schedulerConfig
  cacheConfig := { blockSize, enablePrefixCaching := false }
  useAsyncOutputProc
  numGpuBlocks
  numCpuBlocks := 4
  objects := ∅
  blockAllocator := .create (fun device => NaiveBlockAllocator.init device blockSize) false numGpuBlocks 4
  groups _ := { requestId := "", firstSeq := { seqId := 0, promptTokenIds := [] } }
  clock := { readings := fun _ => 0 }
  draws _ := 0

def config (maxModelLen : ℤ) : SchedulerConfig where
  maxNumBatchedTokens := 8
  maxNumSeqs := 8
  maxModelLen

def request (id : ℕ) (priority : ℤ) : SequenceGroup where
  requestId := toString id
  firstSeq := { seqId := id, promptTokenIds := [id] }
  priority

/-- The sequence gets one more token, and decodes. -/
def grow (seq : Sequence) : Sequence :=
  { seq.appendTokenId 7 with numComputedTokens := seq.getLen, stage := .decode }

def decodeOne : Output where
  process _ := SequenceGroup.mapSeqs grow
  progress _ seqGroup := by
    have live := SequenceGroup.mapSeqs_live (f := grow) (g := fun status => status) (s := seqGroup)
      (fun _ _ => rfl) fun _ _ _ => ⟨rfl, rfl⟩
    rw [List.map_id'] at live
    exact ⟨SequenceGroup.mapSeqs_identity (f := grow) (fun _ => rfl) _, live ▸ List.Sublist.refl _⟩
  frees := true

/-- A prompt as long as the model allows, whose first token is out. -/
def stopped : List Act :=
  [.schedule, .processModelOutputs decodeOne [0], .schedule, .addSeqGroup 0 (request 0 0)]

def asynchronous : Setup NaiveBlockAllocator := naiveSetup (config 1) true 4 4

/-- A request of a higher priority comes when one block is all there is. -/
def outranked : List Act :=
  [.schedule, .addSeqGroup 1 (request 1 0), .processModelOutputs decodeOne [0], .schedule,
    .addSeqGroup 0 (request 0 1)]

def prioritized : Setup NaiveBlockAllocator :=
  naiveSetup { config 8 with policy := .priority, preemptionMode := some .swap } false 4 1

/-- A group outgrows the one block of the device while it is swapped out. -/
def outgrown : List Act :=
  [.schedule, .schedule, .processModelOutputs decodeOne [0], .schedule, .addSeqGroup 0 (request 0 0)]

def oneBlock : Setup NaiveBlockAllocator :=
  naiveSetup { config 8 with preemptionMode := some .swap } false 1 1

/-- Neither the list of stopped groups nor a swap-out forced by priority fits the three queues. -/
theorem unfinished_group_elsewhere :
    (∃ s, Run (fun s a t => act s a = some t) asynchronous.start stopped s ∧
      0 ∈ s.added ∧ (s.scheduler.groups 0).isFinished = false ∧
      0 ∉ s.scheduler.waiting ++ s.scheduler.running ++ s.scheduler.swapped) ∧
    ∃ s, Run (fun s a t => act s a = some t) prioritized.start outranked s ∧
      0 ∈ s.scheduler.waiting ∧ (s.scheduler.groups 0).firstSeq.status = .swapped ∧
      s.reported ≠ s.scheduler.copies :=
  ⟨Run.exists_of_execute (by decide +kernel), Run.exists_of_execute (by decide +kernel)⟩

theorem stopped_orderly : ∃ s, Run Unforced asynchronous.start stopped s ∧ Orderly s := by
  obtain ⟨s, run, -⟩ := Run.exists_of_execute (f := tidyAct) (P := fun _ => True)
    (s := asynchronous.start) (h := stopped) (by decide +kernel)
  have unforced := run.mono fun s a t step => (tidyAct_sound s a t step).1
  exact ⟨s, unforced, run_orderly asynchronous unforced⟩

/-- A stopped group keeps its table, and so do a group that waits although it is swapped out and a
swapped group that is given up. -/
theorem tables_without_queue :
    (∃ s, Run (fun s a t => act s a = some t) asynchronous.start stopped s ∧
      s.scheduler.running ++ s.scheduler.swapped = [] ∧
      s.scheduler.blockManager.self.blockTables.contains 0 = true) ∧
    (∃ s, Run (fun s a t => act s a = some t) prioritized.start outranked s ∧
      s.scheduler.running ++ s.scheduler.swapped = [] ∧
      s.scheduler.blockManager.self.blockTables.contains 0 = true) ∧
    ∃ s, Run (fun s a t => act s a = some t) oneBlock.start outgrown s ∧
      (s.scheduler.groups 0).isFinished = true ∧
      s.scheduler.running ++ s.scheduler.swapped = [] ∧
      s.scheduler.blockManager.self.blockTables.contains 0 = true :=
  ⟨Run.exists_of_execute (by decide +kernel), Run.exists_of_execute (by decide +kernel),
    Run.exists_of_execute (by decide +kernel)⟩

/-- A group that runs when the finished groups are freed. -/
def served : List Act := [.freeFinishedSeqGroups, .schedule, .addSeqGroup 0 (request 0 0)]

theorem served_tables : ∃ s, Run Tidy oneBlock.start served s ∧
    (∀ id, s.scheduler.blockManager.self.blockTables.contains id = true ↔
      ∃ g ∈ s.scheduler.running ++ s.scheduler.swapped ++ s.scheduler.asyncStopped,
        ∃ seq ∈ (s.scheduler.groups g).seqs, seq.isFinished = false ∧ seq.seqId = id) ∧
      s.scheduler.asyncStopped = [] := by
  obtain ⟨s, run, -⟩ := Run.exists_of_execute (f := tidyAct) (P := fun _ => True)
    (s := oneBlock.start) (h := served) (by decide +kernel)
  have tidy := run.mono tidyAct_sound
  obtain ⟨tables, last⟩ := tidy_run_tables oneBlock tidy
  exact ⟨s, tidy, tables, last rfl⟩

end Serving
end Vllm
