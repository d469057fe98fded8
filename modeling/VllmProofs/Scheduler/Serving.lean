import VllmProofs.Data.Runs
import VllmProofs.Scheduler.Exits
import VllmProofs.Scheduler.ScheduleMoves

/-!
The scheduler at work: the engine adds and aborts requests, schedules batches, processes their
output and frees what has finished, in any order.
-/

namespace Vllm
open Exec

/-- How the output of a batch is processed. The sequences of a group may finish, and the
single-step processor frees those at once. -/
structure Output where
  process : GroupRef → SequenceGroup → SequenceGroup
  progress : ∀ g seqGroup, SequenceGroup.Progress seqGroup (process g seqGroup)
  frees : Bool

def Registry.afterOutput (r : Registry) (finishedNow : Bool) (asyncStopped : List GroupRef) : Registry :=
  if finishedNow then r.stop {g | g ∈ asyncStopped} else r

namespace Scheduler

variable {M : Type}

def init (schedulerConfig : SchedulerConfig) (cacheConfig : CacheConfig) (maxLoras : Option ℕ)
    (useAsyncOutputProc enableArtificialPreemption : Bool) (blockManager : M)
    (groups : GroupRef → SequenceGroup) (clock : Evictor.Clock) (draws : ℕ → ℚ) : Scheduler M where
  schedulerConfig
  cacheConfig
  maxLoras
  useAsyncOutputProc
  blockManager
  groups
  enableArtificialPreemption
  artificialPreemptCnt := if enableArtificialPreemption then 500 else 0
  clock
  draws

section
variable [BlockSpaceManager M]

/-- One round of the loop of `_process_model_outputs`; whether the group has finished now. -/
def processGroup (output : Output) (g : GroupRef) : Method (Scheduler M) Bool := do
  let seqGroup ← group g
  if seqGroup.isFinished then return false
  else
    updateGroup g (output.process g)
    if output.frees then freeFinishedSeqs g
    let seqGroup ← group g
    return seqGroup.isFinished

/-- `_process_model_outputs` for a whole batch; whether some group has finished now. -/
def processModelOutputs (output : Output) (scheduled : List GroupRef) :
    Method (Scheduler M) Bool := do
  let finished ← scheduled.mapM (processGroup output)
  if true ∈ finished then
    freeFinishedSeqGroups
    return true
  else return false

end

variable [BlockSpaceManager M] [LawfulBlockSpaceManager M] {r : Registry} {dirty : Set SeqId}
  {copies : List (BlockId × BlockId)} {s t : Scheduler M} {g : GroupRef} {output : Output}

structure Proceeds (b b' : Board) : Prop where
  queues : b' = { b with groups := b'.groups, tables := b'.tables }
  progress : ∀ g, SequenceGroup.Progress (b.groups g) (b'.groups g)

theorem Proceeds.refl (b : Board) : Proceeds b b := ⟨rfl, fun _ => .refl _⟩

variable {b b' : Board}

theorem Proceeds.trans {b'' : Board} (first : Proceeds b b') (second : Proceeds b' b'') :
    Proceeds b b'' := by
  refine ⟨?_, fun g => ?_⟩
  · rw [second.queues, first.queues]
  · have one := first.progress g
    have two := second.progress g
    exact ⟨two.identity.trans one.identity, two.live.trans one.live⟩

theorem Proceeds.places (proceeds : Proceeds b b') : b'.places = b.places := by
  rw [proceeds.queues]
  rfl

def activeIds (r : Registry) (b : Board) (g : GroupRef) : Set SeqId :=
  {id | id ∈ r.ids g ∧ g ∈ b.running ++ b.swapped ++ b.asyncStopped}

theorem mem_active {p : Place} (member : p ∈ b.places) (active : p.2 ≠ .waiting) :
    p.1 ∈ b.running ++ b.swapped ++ b.asyncStopped := by
  simp only [Board.places, Multiset.mem_add, mem_placesOf] at member
  simp only [List.mem_append]
  tauto

variable {finished : Bool}

theorem processGroup_board (call : processGroup output g s = .ok finished t) :
    t = s ∧ finished = false ∨
      finished = (t.board.groups g).isFinished ∧
      t.board = { s.board with
        groups := Function.update s.board.groups g (output.process g (s.board.groups g))
        tables := t.board.tables } ∧
      t.board.tables = s.board.tables \ if output.frees then finishedIds t.board [g] else ∅ := by
  unfold processGroup at call
  obtain ⟨seqGroup, u, first, call⟩ := bind_ok call
  obtain ⟨rfl, rfl⟩ := group_call first
  split at call
  · cases call
    exact Or.inl ⟨rfl, rfl⟩
  · refine Or.inr ?_
    obtain ⟨_, v, updated, call⟩ := bind_ok call
    have changed := updateGroup_board updated
    cases frees : output.frees with
    | false =>
      simp only [frees] at call
      obtain ⟨seqGroup, w, again, last⟩ := bind_ok call
      obtain ⟨rfl, rfl⟩ := group_call again
      cases last
      exact ⟨rfl, by rw [changed], by rw [changed]; simp⟩
    | true =>
      simp only [frees] at call
      obtain ⟨_, w, freed, call⟩ := bind_ok call
      obtain ⟨seqGroup, x, again, last⟩ := bind_ok call
      obtain ⟨rfl, rfl⟩ := group_call again
      cases last
      have tidied := freeFinishedSeqs_board freed
      have same : finishedIds t.board [g] = finishedIds v.board [g] := by
        unfold finishedIds
        rw [tidied]
      refine ⟨rfl, by rw [tidied, changed], ?_⟩
      rw [if_pos rfl, same, tidied, changed]

theorem processGroup_proceeds (call : processGroup output g s = .ok finished t) :
    Proceeds s.board t.board := by
  rcases processGroup_board call with ⟨rfl, -⟩ | ⟨-, changed, -⟩
  · exact .refl _
  · refine ⟨by rw [changed], fun g' => ?_⟩
    rw [changed]
    by_cases equal : g' = g
    · subst equal
      dsimp only
      rw [Function.update_self]
      exact output.progress g' _
    · dsimp only
      rw [Function.update_of_ne equal]
      exact .refl _

/-- A group that finishes leaves its tables behind, unless the processor frees them. -/
theorem processGroup_holding (holding : Holding r dirty copies 0 s.board)
    (known : g ∈ r.added) (call : processGroup output g s = .ok finished t) :
    Holding r (dirty ∪ {id | finished = true ∧ output.frees = false ∧ id ∈ activeIds r s.board g})
        copies 0 t.board ∧
      (finished = true → (t.board.groups g).live = []) := by
  have proceeds := processGroup_proceeds call
  rcases processGroup_board call with ⟨rfl, rfl⟩ | ⟨ended, changed, freed⟩
  · exact ⟨holding.mono Set.subset_union_left, nofun⟩
  refine ⟨?_, fun done => SequenceGroup.isFinished_iff.mp (ended ▸ done)⟩
  have advanced := holding.spread.advance fun g' _ => proceeds.progress g'
  have marked : Holding r (dirty ∪ {id | finished = true ∧ id ∈ activeIds r s.board g}) copies 0
      { t.board with tables := s.board.tables } := by
    have places : Board.places { t.board with tables := s.board.tables } = s.board.places :=
      proceeds.places
    refine ⟨?_, ?_, ?_⟩
    · rw [places]
      refine advanced.mono (Set.union_subset_union_right _ ?_)
      rintro id ⟨p, member, active, before, after⟩
      have mine : p.1 = g := by
        by_contra other
        rw [changed] at after
        dsimp only at after
        rw [Function.update_of_ne other] at after
        exact after before
      subst mine
      have single := holding.spread.single p member active
      have done : (t.board.groups p.1).live = [] := by
        by_contra some
        have same := (proceeds.progress p.1).live.eq_of_length_le
          (single.trans (List.length_pos_iff.mpr some))
        rw [same] at after
        exact after before
      rw [add_zero] at member
      refine ⟨ended.trans (SequenceGroup.isFinished_iff.mpr done), ?_, mem_active member active⟩
      rw [← holding.spread.seqIds known]
      exact SequenceGroup.seqIds_of_live before
    · rw [changed]
      exact holding.config
    · rw [changed]
      exact holding.copied
  cases frees : output.frees with
  | false =>
    have same : { t.board with tables := s.board.tables } = t.board := by
      rw [frees, if_neg Bool.false_ne_true, Set.sdiff_empty] at freed
      rw [← freed]
    rw [same] at marked
    refine marked.mono (Set.union_subset_union_right _ ?_)
    rintro id ⟨done, active⟩
    exact ⟨done, rfl, active⟩
  | true =>
    rw [frees, if_pos rfl] at freed
    have alone : ∀ g' ∈ [g], g' ∈ r.added := fun g' member => List.mem_singleton.mp member ▸ known
    have gone := finishedIds_gone marked alone
    have cleaned := marked.spread.clean gone
    refine ⟨?_, marked.config, marked.copied⟩
    rw [freed]
    refine cleaned.mono ?_
    rintro id ⟨old | ⟨done, own, -⟩, spared⟩
    · exact Or.inl old
    · refine (spared ?_).elim
      have none := SequenceGroup.isFinished_iff.mp (ended.symm.trans done)
      rw [← marked.spread.seqIds known] at own
      obtain ⟨seq, among, rfl⟩ := List.mem_map.mp own
      have all := List.all_eq_true.mp (ended.symm.trans done)
      exact ⟨g, List.mem_singleton_self _, seq, among, all seq among, rfl⟩

theorem processGroups_holding {scheduled : List GroupRef} {finished : List Bool}
    (holding : Holding r dirty copies 0 s.board) (known : ∀ g ∈ scheduled, g ∈ r.added)
    (call : scheduled.mapM (processGroup output) s = .ok finished t) :
    Holding r (dirty ∪ {id | true ∈ finished ∧ output.frees = false ∧ ∃ g ∈ scheduled,
        id ∈ activeIds r s.board g ∧ (t.board.groups g).live = []}) copies 0 t.board ∧
      Proceeds s.board t.board := by
  induction scheduled generalizing s dirty finished with
  | nil =>
    cases call
    exact ⟨holding.mono Set.subset_union_left, .refl _⟩
  | cons g rest ih =>
    rw [List.mapM_cons] at call
    obtain ⟨done, u, first, call⟩ := bind_ok call
    obtain ⟨others, v, second, last⟩ := bind_ok call
    cases last
    have proceeds := processGroup_proceeds first
    obtain ⟨here, ended⟩ := processGroup_holding holding (known g List.mem_cons_self) first
    obtain ⟨there, after⟩ := ih here (fun g' member => known g' (List.mem_cons_of_mem _ member)) second
    have active : ∀ g', activeIds r u.board g' = activeIds r s.board g' := by
      intro g'
      unfold activeIds
      rw [proceeds.queues]
    refine ⟨there.mono ?_, proceeds.trans after⟩
    rintro id ((old | ⟨rfl, keeps, own⟩) | ⟨some, keeps, g', member, own, none⟩)
    · exact Or.inl old
    · refine Or.inr ⟨List.mem_cons_self, keeps, g, List.mem_cons_self, own, ?_⟩
      have fewer := (after.progress g).live
      rw [ended rfl] at fewer
      exact List.sublist_nil.mp fewer
    · rw [active] at own
      exact Or.inr ⟨List.mem_cons_of_mem _ some, keeps, g', List.mem_cons_of_mem _ member, own, none⟩

theorem Proceeds.asyncStopped (proceeds : Proceeds b b') :
    b'.asyncStopped = b.asyncStopped := by rw [proceeds.queues]

theorem Proceeds.running (proceeds : Proceeds b b') : b'.running = b.running := by
  rw [proceeds.queues]

/-- Nothing of a batch stays behind if the processor frees, or the batch is not swapped out, and
the stopped groups have finished by the time they are dropped. -/
theorem processModelOutputs_holding {scheduled : List GroupRef} {finishedNow : Bool}
    (holding : Holding r dirty copies 0 s.board) (known : ∀ g ∈ scheduled, g ∈ r.added)
    (call : processModelOutputs output scheduled s = .ok finishedNow t) :
    ∃ lost : Set SeqId,
      Holding (r.afterOutput finishedNow s.asyncStopped) (dirty ∪ lost) copies 0 t.board ∧
      ((output.frees = true ∨ ∀ g ∈ scheduled, g ∉ s.swapped) →
        (finishedNow = true → ∀ g ∈ s.asyncStopped, (t.groups g).isFinished = true) → lost = ∅) := by
  unfold processModelOutputs at call
  obtain ⟨finished, u, first, call⟩ := bind_ok call
  obtain ⟨after, proceeds⟩ := processGroups_holding holding known first
  split at call
  · obtain ⟨_, v, freed, last⟩ := bind_ok call
    cases last
    have dropped := freeFinishedSeqGroups_holding after freed
    have stopped : u.asyncStopped = s.asyncStopped := proceeds.asyncStopped
    have running : u.running = s.running := proceeds.running
    rw [Set.union_sdiff_distrib, Set.union_assoc, stopped] at dropped
    refine ⟨_, dropped.mono (Set.union_subset_union_left _ Set.sdiff_subset), ?_⟩
    intro apart ended
    have groups : t.groups = u.groups := by
      have same := congrArg Board.groups (freeFinishedSeqGroups_board freed)
      exact same
    rw [Set.union_empty_iff, Set.sdiff_eq_empty]
    refine ⟨?_, ?_⟩
    · rintro id ⟨-, keeps, g, member, ⟨own, active⟩, none⟩
      have unswapped : g ∉ s.swapped := by
        rcases apart with frees | away
        · rw [keeps] at frees
          cases frees
        · exact away g member
      have queued : g ∈ u.running ++ s.asyncStopped := by
        rw [running]
        simp only [List.mem_append] at active ⊢
        rcases active with (queued | swapped) | queued
        · exact Or.inl queued
        · exact (unswapped swapped).elim
        · exact Or.inr queued
      rw [← after.spread.seqIds (known g member)] at own
      obtain ⟨seq, among, rfl⟩ := List.mem_map.mp own
      have all := List.all_eq_true.mp (SequenceGroup.isFinished_iff.mpr none)
      exact ⟨g, queued, seq, among, all seq among, rfl⟩
    · rw [Set.eq_empty_iff_forall_notMem]
      rintro id ⟨g, member, live⟩
      have done := ended rfl g member
      rw [groups] at done
      rw [SequenceGroup.isFinished_iff.mp done] at live
      cases live
  · rename_i none
    cases call
    refine ⟨_, after, fun _ _ => ?_⟩
    rw [Set.eq_empty_iff_forall_notMem]
    rintro id ⟨some, -⟩
    exact none some

end Scheduler
end Vllm
