import VllmProofs.Data.Confined
import VllmProofs.Evictor.LruMlBound

/-!
Which methods of `LRUMLEvictor` do no more than score blocks and rebuild the index, and which leave
PDP's counters and the scheduler alone: all but observations and a change of the capacity. None of
these divides.
-/

namespace Vllm.Evictor
open Exec

/-- A division or a modulo by zero, or a range without a step. -/
def Arithmetic (e : PyError) : Prop :=
  e = .zeroDivisionError ∨ e = .valueError "range() arg 3 must not be zero"

instance (e : PyError) : Decidable (Arithmetic e) := inferInstanceAs (Decidable (_ ∨ _))

namespace LRUMLEvictor

variable {α : Type}

/-- A call, and the evictor it is made on. -/
structure Event where
  before : LRUMLEvictor
  call : Call

/-- One call of a run, however it ends. -/
def Made [Numpy] (s : LRUMLEvictor) (e : Event) (t : LRUMLEvictor) : Prop :=
  e.before = s ∧ t = after e.call.run s

/-- The evictor without what scoring and refreshing change. -/
def strip (s : LRUMLEvictor) : LRUMLEvictor :=
  { s with
    freeTable := ∅, sortedDict := ∅, idToLastAccess := ∅, toDeleteBlocks := [], lastRefreshTime := 0
    clock := { readings := fun _ => 0 } }

structure Kept (r s : LRUMLEvictor) : Prop where
  rest : strip s = strip r
  table : Rescored r.freeTable s.freeTable

theorem Kept.refl (s : LRUMLEvictor) : Kept s s := ⟨rfl, .refl _⟩

/-- A method that does no more than that, and raises no arithmetic error. -/
abbrev Tidy (x : Method LRUMLEvictor α) : Prop := ∀ r, Confined (Kept r) (fun e => ¬Arithmetic e) x

theorem time_tidy : Tidy time := fun _ =>
  .read fun _ kept => .bind (.set ⟨kept.rest, kept.table⟩) fun _ => .pure _

theorem noted_tidy (score : Score) : Tidy (noted score) := fun _ =>
  .ite (.bind (.modify fun _ kept => ⟨kept.rest, kept.table⟩) fun _ => .pure _) (.pure _)

theorem calcScore_tidy [Numpy] (b : BlockId) (t : Time) (hint : Option CacheHint) :
    Tidy (calcScore b t hint) := by
  refine fun r => .read fun s kept => ?_
  split
  · exact .pure _
  · exact .pure _
  · split
    · exact .pure _
    · exact .throw (by decide)
  · exact .pure _
  · split
    · exact .pure _
    · exact .throw (by decide)
  · split
    · exact .pure _
    · split
      · exact .throw (by decide)
      · exact .bind (time_tidy r) fun _ => noted_tidy _ r

theorem Kept.rescore {r s : LRUMLEvictor} {b : BlockId} {block : BlockMetaData} (kept : Kept r s)
    (held : (r.freeTable.get? b).map unscored = some (unscored block)) (score : Score) :
    Kept r { s with freeTable := s.freeTable.insert b { block with score } } := by
  refine ⟨kept.rest, fun c => ?_⟩
  show ((s.freeTable.insert b _).get? c).map unscored = _
  rw [Dict.get?_insert]
  split
  · rename_i same
    rw [same, held]
    rfl
  · exact kept.table c

theorem rebuildEach_tidy [Numpy] {r : LRUMLEvictor} {items : List (BlockId × BlockMetaData)}
    (held : ∀ item ∈ items, (r.freeTable.get? item.1).map unscored = some (unscored item.2))
    (d : SortedDict ScoreKey (BlockId × PrefixHash)) :
    Confined (Kept r) (fun e => ¬Arithmetic e) (rebuildEach items d) := by
  induction items generalizing d with
  | nil => exact .pure _
  | cons item rest ih =>
    refine .bind (calcScore_tidy _ _ _ r) fun score => .bind (.modify fun s kept => ?_) fun _ =>
      ih (fun other later => held other (List.mem_cons_of_mem _ later)) _
    exact kept.rescore (held item List.mem_cons_self) score

theorem rebuildSortedDict_tidy [Numpy] : Tidy rebuildSortedDict := by
  refine fun r => .read fun s kept => .bind (rebuildEach_tidy (fun item member => ?_) _) fun _ =>
    .modify fun _ kept => ⟨kept.rest, kept.table⟩
  have same := kept.table item.1
  rw [Dict.mem_items_iff.mp member] at same
  exact same.symm

theorem peekValidCandidate_tidy : Tidy peekValidCandidate := fun _ =>
  .read fun _ kept => .bind (.set ⟨kept.rest, kept.table⟩) fun _ => .pure _

theorem removeFromSortedDict_tidy (b : BlockId) : Tidy (removeFromSortedDict b) := by
  refine fun r => .read fun s kept => ?_
  split
  · exact .throw (by decide)
  · exact .ite (.set ⟨kept.rest, kept.table⟩) (.throw (by decide))

theorem bindSchedulerPolicy_tidy (scheduler : EvictionPolicyScheduler) (hint : Option CacheHint) :
    Tidy (bindSchedulerPolicy scheduler hint) := by
  refine fun r => .ite (.pure _) ?_
  split
  · exact .throw (by decide)
  · split
    · exact .pure _
    · exact .pure _

theorem survivalList_tidy (items : List (BlockId × BlockMetaData)) : Tidy (survivalList items) := by
  intro r
  induction items with
  | nil => exact .pure _
  | cons item rest ih =>
    unfold survivalList
    split
    · exact .throw (by decide)
    · split
      · exact .throw (by decide)
      · exact .bind ih fun _ => .pure _

theorem markOutdated_tidy (survival : List (BlockId × ℤ × Time)) : Tidy (markOutdated survival) := by
  intro r
  induction survival with
  | nil => exact .pure _
  | cons record rest ih =>
    refine .read fun s kept => ?_
    split
    · exact .throw (by decide)
    · refine .ite ih ?_
      split
      · exact .throw (by decide)
      · refine .bind (.set ?_) fun _ => ih
        split
        · exact kept
        · exact ⟨kept.rest, kept.table⟩

theorem refresh_tidy [Numpy] : Tidy refresh := fun r =>
  .bind (rebuildSortedDict_tidy r) fun _ => .bind (time_tidy r) fun _ =>
    .bind (.modify fun _ kept => ⟨kept.rest, kept.table⟩) fun _ => .bind .get fun _ =>
    .bind (survivalList_tidy _ r) fun _ => markOutdated_tidy _ r

theorem refreshIfDue_tidy [Numpy] : Tidy refreshIfDue := fun r =>
  .bind (time_tidy r) fun _ => .bind .get fun _ => .ite (refresh_tidy r) (.pure _)

theorem recordLastAccess_tidy (hint : Option CacheHint) (t : Time) : Tidy (recordLastAccess hint t) := by
  intro r
  unfold recordLastAccess
  split
  · exact .throw (by decide)
  · split
    · exact .throw (by decide)
    · exact .modify fun _ kept => ⟨kept.rest, kept.table⟩

/-- What PDP counts, and the scheduler. -/
def counters (s : LRUMLEvictor) : EvictionPolicyScheduler × PdpSettings × Dict ℤ ℤ :=
  (s.scheduler, s.settings, s.pdpReuseDistanceCounts)

/-- No call of `x` touches the counters or raises an arithmetic error. -/
abbrev Quiet (x : Method LRUMLEvictor α) : Prop :=
  ∀ v, Confined (fun s => counters s = v) (fun e => ¬Arithmetic e) x

theorem Tidy.quiet {x : Method LRUMLEvictor α} (tidy : Tidy x) : Quiet x := fun _ =>
  .of_frames tidy Kept.refl (fun _ _ same kept => (congrArg counters kept.rest).trans same)
    fun _ other => other

theorem ageRripBlocks_quiet [Numpy] : Quiet ageRripBlocks := fun v =>
  .bind (.modify fun _ same => same) fun _ => rebuildSortedDict_tidy.quiet v

theorem selectVictim_quiet [Numpy] (rounds : ℕ) : Quiet (selectVictim rounds) := by
  intro v
  induction rounds with
  | zero => exact .throw (by decide)
  | succ rounds ih =>
    refine .read fun s same => ?_
    split
    · exact .bind (.set same) fun _ => .ite (.pure _) ih
    · refine .bind (peekValidCandidate_tidy.quiet v) fun candidate => ?_
      split
      · exact .throw (by decide)
      · exact .ite (.bind (ageRripBlocks_quiet v) fun _ => ih)
          (.bind ((removeFromSortedDict_tidy _).quiet v) fun _ => .pure _)

theorem takeOut_quiet (b : BlockId) : Quiet (takeOut b) := by
  refine fun v => .read fun s same => ?_
  split
  · exact .throw (by decide)
  · exact .set same

theorem evictPdp_quiet : Quiet evictPdp := by
  refine fun v => .read fun s same => ?_
  split
  · exact .throw (by decide)
  · exact .bind ((removeFromSortedDict_tidy _).quiet v) fun _ => .bind (.modify fun _ same => same) fun _ =>
      .pure _

theorem evict_quiet [Numpy] : Quiet evict := by
  refine fun v => .read fun s same => ?_
  split
  · exact .throw (by decide)
  · exact evictPdp_quiet v
  · exact .bind (selectVictim_quiet _ v) fun _ => .bind (takeOut_quiet _ v) fun _ => .pure _

theorem prepare_counters (b : BlockId) (h : PrefixHash) (t : Time) (policy : Policy)
    (s : LRUMLEvictor) : counters (prepare b h t policy s) = counters s := by
  unfold prepare seedFirstAccess seedPdp seedRrip
  split_ifs <;> rfl

theorem add_quiet [Numpy] (b : BlockId) (h : PrefixHash) (n : ℕ) (t : Time) (hint : Option CacheHint) :
    Quiet (add b h n t hint) := by
  intro v
  exact .bind .get fun _ => .bind ((bindSchedulerPolicy_tidy _ _).quiet v) fun _ =>
    .bind (.modify fun s same => (prepare_counters _ _ _ _ s).trans same) fun _ =>
    .bind ((calcScore_tidy _ _ _).quiet v) fun _ => .bind (.modify fun _ same => same) fun _ =>
    .bind ((recordLastAccess_tidy _ _).quiet v) fun _ => refreshIfDue_tidy.quiet v

theorem touch_quiet (b : BlockId) (policy : Policy) : Quiet (touch b policy) := by
  refine fun v => .ite (.modify fun _ same => same) (.ite (.modify fun s same => ?_) (.pure _))
  unfold protectedNow
  split
  · exact same
  · exact same

theorem update_quiet [Numpy] (b : BlockId) (t : Time) (hint : Option CacheHint) : Quiet (update b t hint) := by
  refine fun v => .read fun s same => ?_
  split
  · exact .throw (by decide)
  · exact .bind ((bindSchedulerPolicy_tidy _ _).quiet v) fun _ => .bind ((removeFromSortedDict_tidy _).quiet v) fun _ =>
      .bind (touch_quiet _ _ v) fun _ => .bind ((calcScore_tidy _ _ _).quiet v) fun _ =>
      .bind (.modify fun _ same => same) fun _ => (recordLastAccess_tidy _ _).quiet v

theorem release_counters (b : BlockId) (h : PrefixHash) (policy : Policy) (s : LRUMLEvictor) :
    counters (release b h policy s) = counters s := by
  unfold release
  split_ifs <;> rfl

theorem remove_quiet (b : BlockId) : Quiet (remove b) := by
  refine fun v => .read fun s same => ?_
  split
  · exact .throw (by decide)
  · exact .bind (.modify fun s same => (release_counters _ _ _ s).trans same) fun _ =>
      .bind ((removeFromSortedDict_tidy _).quiet v) fun _ => .modify fun _ same => same

theorem rebind_quiet [Numpy] : Quiet rebindSchedulerPolicyForExistingBlocks := by
  intro v
  have blocks : ∀ policy items, Confined (fun s => counters s = v) (fun e => ¬Arithmetic e)
      (rebindEach policy items) := by
    intro policy items
    induction items with
    | nil => exact .pure _
    | cons item rest ih =>
      unfold rebindEach
      split
      · exact .throw (by decide)
      · refine .bind (.modify fun s same => ?_) fun _ => ih
        unfold rebindBlock
        split_ifs <;> exact same
  refine .read fun s same => .ite (.pure _) (.bind (.modify fun s same => ?_) fun _ =>
    .bind (blocks _ _) fun _ => .bind (.modify fun _ same => same) fun _ => rebuildSortedDict_tidy.quiet v)
  unfold seed
  split_ifs <;> exact same

end LRUMLEvictor
end Vllm.Evictor
