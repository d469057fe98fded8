import VllmProofs.Data.Runs
import VllmProofs.Evictor.LruMl

/-!
The index of `LRUMLEvictor`. Every resident block stands in the index under its present score and
access time, whatever stale keys stand beside it, so `evict` finds a victim and no call misses
the key it removes. Only the records of `to_delete_blocks` can carry an outdated content hash.
-/

namespace Vllm.Evictor.LRUMLEvictor
open Exec

/-! ### The invariant -/

/-- `calc_score` raises no `KeyError` for a block with this hint. -/
def Scorable (scheduler : EvictionPolicyScheduler) (firstAccess : Dict BlockId Time)
    (blockId : BlockId) (cacheHint : Option CacheHint) : Prop :=
  match getPolicy scheduler cacheHint with
  | .fifo => (firstAccess.get? blockId).isSome
  | .belady => (cacheHint.bind CacheHint.nextTimestamp).isSome
  | .ml => (cacheHint.bind CacheHint.probHasNext).isSome → (cacheHint.bind CacheHint.expScale).isSome
  | _ => True

/-- The hint names a policy by itself. -/
def Bound (cacheHint : Option CacheHint) : Prop := (cacheHint.bind CacheHint.ownPolicy).isSome

structure Indexed (freeTable : Dict BlockId BlockMetaData)
    (sortedDict : SortedDict ScoreKey (BlockId × PrefixHash)) : Prop where
  listed : ∀ b block, freeTable.get? b = some block →
    (block.scoreKey b, (b, block.contentHash)) ∈ sortedDict.items
  filed : ∀ item ∈ sortedDict.items, (ofLex (ofLex item.1).2).2 = item.2.1

structure Inv (s : LRUMLEvictor) : Prop where
  indexed : Indexed s.freeTable s.sortedDict
  scorable : ∀ b block, s.freeTable.get? b = some block →
    Scorable s.scheduler s.idToFirstAccess b block.cacheHint
  bound : s.scheduler.enabled = true → ∀ b block, s.freeTable.get? b = some block →
    Bound block.cacheHint

structure Frame (s u : LRUMLEvictor) : Prop where
  table : u.freeTable = s.freeTable
  index : u.sortedDict = s.sortedDict
  scheduler : u.scheduler = s.scheduler
  firstAccess : u.idToFirstAccess = s.idToFirstAccess

instance : IsPreorder LRUMLEvictor Frame where
  refl _ := ⟨rfl, rfl, rfl, rfl⟩
  trans _ _ _ first second := ⟨second.table.trans first.table, second.index.trans first.index,
    second.scheduler.trans first.scheduler, second.firstAccess.trans first.firstAccess⟩

variable {s u : LRUMLEvictor}

theorem Inv.frame (inv : Inv s) (frame : Frame s u) : Inv u := by
  obtain ⟨table, index, scheduler, firstAccess⟩ := frame
  refine ⟨?_, ?_, ?_⟩
  · rw [table, index]
    exact inv.indexed
  · rw [table, scheduler, firstAccess]
    exact inv.scorable
  · rw [table, scheduler]
    exact inv.bound

def unscored (block : BlockMetaData) : BlockMetaData := { block with score := .number 0 }

/-- The same blocks, possibly scored anew. -/
def Rescored (old new : Dict BlockId BlockMetaData) : Prop :=
  ∀ b, (new.get? b).map unscored = (old.get? b).map unscored

theorem Rescored.refl (table : Dict BlockId BlockMetaData) : Rescored table table := fun _ => rfl

variable {a b : Dict BlockId BlockMetaData}

theorem Rescored.trans {c : Dict BlockId BlockMetaData} (first : Rescored a b)
    (second : Rescored b c) : Rescored a c := fun k => (second k).trans (first k)

theorem Rescored.symm (h : Rescored a b) : Rescored b a :=
  fun k => (h k).symm

variable {old new : Dict BlockId BlockMetaData}

theorem Rescored.erase (h : Rescored old new) (b : BlockId) :
    Rescored (old.erase b) (new.erase b) := by
  intro c
  simp only [Dict.get?_erase]
  split
  · rfl
  · exact h c

variable {b : BlockId} {block : BlockMetaData}

theorem Rescored.resident (h : Rescored old new) (resident : new.get? b = some block) :
    ∃ held, old.get? b = some held ∧ unscored held = unscored block := by
  have same := h b
  rw [resident] at same
  cases found : old.get? b with
  | none => simp [found] at same
  | some held => exact ⟨held, rfl, by simpa [found] using same.symm⟩

theorem unscored_fields {x y : BlockMetaData} (h : unscored x = unscored y) :
    x.contentHash = y.contentHash ∧ x.lastAccessed = y.lastAccessed ∧ x.cacheHint = y.cacheHint := by
  simp only [unscored, BlockMetaData.mk.injEq] at h
  exact ⟨h.1, h.2.2.1, h.2.2.2.1⟩

variable {scheduler scheduler' : EvictionPolicyScheduler} {cacheHint : Option CacheHint}

theorem getPolicy_of_bound (bound : Bound cacheHint) :
    getPolicy scheduler cacheHint = getPolicy scheduler' cacheHint := by
  cases cacheHint with
  | none => rfl
  | some hint =>
    obtain ⟨policy, own⟩ := Option.isSome_iff_exists.mp bound
    have own : hint.ownPolicy = some policy := own
    simp [getPolicy, own]

theorem scorable_of_bound {firstAccess : Dict BlockId Time}
    (bound : Bound cacheHint) (scorable : Scorable scheduler firstAccess b cacheHint) :
    Scorable scheduler' firstAccess b cacheHint := by
  unfold Scorable at scorable ⊢
  rwa [getPolicy_of_bound bound]

variable {table : Dict BlockId BlockMetaData}

theorem scorable_rescored (rescored : Rescored s.freeTable table)
    (scorable : ∀ b block, s.freeTable.get? b = some block →
      Scorable s.scheduler s.idToFirstAccess b block.cacheHint) :
    ∀ b block, table.get? b = some block →
      Scorable s.scheduler s.idToFirstAccess b block.cacheHint := by
  intro b block found
  obtain ⟨held, old, same⟩ := rescored.resident found
  rw [← (unscored_fields same).2.2]
  exact scorable b held old

theorem bound_rescored (rescored : Rescored old new)
    (bound : ∀ b block, old.get? b = some block → Bound block.cacheHint) :
    ∀ b block, new.get? b = some block → Bound block.cacheHint := by
  intro b block found
  obtain ⟨held, resident, same⟩ := rescored.resident found
  rw [← (unscored_fields same).2.2]
  exact bound b held resident

/-! ### Scores -/

variable [Numpy]

omit [Numpy] in
theorem noted_ok (score : Score) (s : LRUMLEvictor) : noted score s =
    .ok score { s with clock := { s.clock with sawNan := s.clock.sawNan || decide (score = .nan) } } := by
  unfold noted
  by_cases nan : score = .nan
  · rw [if_pos nan, decide_eq_true nan, Bool.or_true]
    rfl
  · rw [if_neg nan, decide_eq_false nan, Bool.or_false]
    rfl

variable {hint : Option CacheHint} {t : Time}

theorem calcScore_total (scorable : Scorable s.scheduler s.idToFirstAccess b hint) :
    ∃ score clock, calcScore b t hint s = .ok score { s with clock } := by
  unfold Scorable at scorable
  simp only [calcScore, bind_apply, get_apply]
  cases policy : getPolicy s.scheduler hint with
  | rrip => exact ⟨_, _, rfl⟩
  | lru => exact ⟨_, _, rfl⟩
  | pdp => exact ⟨_, _, rfl⟩
  | fifo =>
    rw [policy] at scorable
    obtain ⟨first, found⟩ := Option.isSome_iff_exists.mp scorable
    simp only [found]
    exact ⟨_, _, rfl⟩
  | belady =>
    rw [policy] at scorable
    obtain ⟨next, found⟩ := Option.isSome_iff_exists.mp scorable
    simp only [found]
    exact ⟨_, _, rfl⟩
  | ml =>
    rw [policy] at scorable
    cases prob : hint.bind CacheHint.probHasNext with
    | none => exact ⟨_, _, rfl⟩
    | some probHasNext =>
      obtain ⟨scale, found⟩ := Option.isSome_iff_exists.mp (scorable (by simp [prob]))
      simp only [found]
      exact ⟨_, _, noted_ok _ _⟩

theorem calcScore_unscorable (unscorable : ¬ Scorable s.scheduler s.idToFirstAccess b hint) :
    calcScore b t hint s = .error .keyError s := by
  unfold Scorable at unscorable
  simp only [calcScore, bind_apply, get_apply]
  cases policy : getPolicy s.scheduler hint <;> rw [policy] at unscorable
  case rrip | lru | pdp => exact (unscorable trivial).elim
  case fifo | belady =>
    rw [Bool.not_eq_true, Option.isSome_eq_false_iff, Option.isNone_iff_eq_none] at unscorable
    simp only [unscorable]
    rfl
  case ml =>
    rw [Classical.not_imp] at unscorable
    obtain ⟨prob, scale⟩ := unscorable
    obtain ⟨probHasNext, prob⟩ := Option.isSome_iff_exists.mp prob
    rw [Bool.not_eq_true, Option.isSome_eq_false_iff, Option.isNone_iff_eq_none] at scale
    simp only [prob, scale]
    rfl

theorem calcScore_ok {score : Score} (call : calcScore b t hint s = .ok score u) :
    Scorable s.scheduler s.idToFirstAccess b hint ∧ ∃ clock, u = { s with clock } := by
  by_cases scorable : Scorable s.scheduler s.idToFirstAccess b hint
  · obtain ⟨score', clock, found⟩ := calcScore_total (t := t) scorable
    rw [found] at call
    cases call
    exact ⟨scorable, clock, rfl⟩
  · rw [calcScore_unscorable scorable] at call
    cases call

theorem calcScore_ne_nan {score : Score}
    (call : calcScore b t hint s = .ok score u) (rrip : getPolicy s.scheduler hint = .rrip) : score ≠ .nan := by
  rw [calcScore, get_bind, rrip] at call
  cases call
  exact Score.number_ne_nan _

theorem calcScore_error
    {e : PyError} (call : calcScore b t hint s = .error e u) : e = .keyError := by
  by_cases scorable : Scorable s.scheduler s.idToFirstAccess b hint
  · obtain ⟨score', clock, found⟩ := calcScore_total (t := t) scorable
    rw [found] at call
    cases call
  · rw [calcScore_unscorable scorable] at call
    cases call
    rfl

/-! ### Rebuilding the index -/

variable {d : SortedDict ScoreKey (BlockId × PrefixHash)}

omit [Numpy] in
theorem filed_insert (filed : ∀ item ∈ d.items, (ofLex (ofLex item.1).2).2 = item.2.1) :
    ∀ item ∈ (d.insert (block.scoreKey b) (b, block.contentHash)).items,
      (ofLex (ofLex item.1).2).2 = item.2.1 := by
  intro item member
  rcases SortedDict.mem_place member with fresh | old
  · rw [fresh]; rfl
  · exact filed item old

omit [Numpy] in
/-- Filing block `b` leaves the entries of other blocks alone. -/
theorem mem_insert_other {c : BlockId}
    {other : BlockMetaData} {v : BlockId × PrefixHash} (different : c ≠ b)
    (listed : (other.scoreKey c, v) ∈ d.items) :
    (other.scoreKey c, v) ∈ (d.insert (block.scoreKey b) (b, block.contentHash)).items := by
  refine (SortedDict.mem_insert_of_ne ?_).mpr listed
  intro same
  exact different (congrArg (fun key : ScoreKey => (ofLex (ofLex key).2).2) same)

structure Rebuilt (items : List (BlockId × BlockMetaData))
    (d : SortedDict ScoreKey (BlockId × PrefixHash)) (s : LRUMLEvictor)
    (d' : SortedDict ScoreKey (BlockId × PrefixHash)) (table : Dict BlockId BlockMetaData) :
    Prop where
  others : ∀ b, b ∉ items.map Prod.fst → table.get? b = s.freeTable.get? b
  kept : ∀ b (block : BlockMetaData) v, b ∉ items.map Prod.fst →
    (block.scoreKey b, v) ∈ d.items → (block.scoreKey b, v) ∈ d'.items
  scored : ∀ b block, (b, block) ∈ items → ∃ score, (getPolicy s.scheduler block.cacheHint = .rrip → score ≠ .nan) ∧
    table.get? b = some { block with score } ∧
    (({ block with score } : BlockMetaData).scoreKey b, (b, block.contentHash)) ∈ d'.items
  filed : (∀ item ∈ d.items, (ofLex (ofLex item.1).2).2 = item.2.1) →
    ∀ item ∈ d'.items, (ofLex (ofLex item.1).2).2 = item.2.1

theorem rebuildEach_ok {items : List (BlockId × BlockMetaData)}
    {d' : SortedDict ScoreKey (BlockId × PrefixHash)}
    (nodup : (items.map Prod.fst).Nodup) (call : rebuildEach items d s = .ok d' u) :
    (∀ b block, (b, block) ∈ items →
      Scorable s.scheduler s.idToFirstAccess b block.cacheHint) ∧
    ∃ table clock, u = { s with freeTable := table, clock } ∧ Rebuilt items d s d' table := by
  induction items generalizing d s with
  | nil =>
    obtain ⟨rfl, rfl⟩ := pure_ok call
    exact ⟨by simp, s.freeTable, s.clock, rfl, ⟨fun _ _ => rfl, fun _ _ _ _ h => h, by simp, id⟩⟩
  | cons item rest ih =>
    obtain ⟨b, block⟩ := item
    simp only [List.map_cons, List.nodup_cons] at nodup
    obtain ⟨score, v, scored, call⟩ := bind_ok call
    obtain ⟨scorable, clock, rfl⟩ := calcScore_ok scored
    rw [modify_bind] at call
    obtain ⟨scorables, table, clock', rfl, built⟩ := ih nodup.2 call
    refine ⟨?_, table, clock', rfl, ?_, ?_, ?_, ?_⟩
    · intro c other member
      rcases List.mem_cons.mp member with same | later
      · cases same
        exact scorable
      · exact scorables c other later
    · intro c absent
      simp only [List.map_cons, List.mem_cons, not_or] at absent
      rw [built.others c absent.2]
      exact Dict.get?_insert_ne absent.1
    · intro c other v absent listed
      simp only [List.map_cons, List.mem_cons, not_or] at absent
      exact built.kept c other v absent.2 (mem_insert_other absent.1 listed)
    · intro c other member
      rcases List.mem_cons.mp member with same | later
      · cases same
        refine ⟨score, calcScore_ne_nan scored, ?_, built.kept _ _ _ nodup.1 (SortedDict.mem_insert_self _ _ _)⟩
        rw [built.others _ nodup.1]
        simp
      · exact built.scored c other later
    · intro filed
      exact built.filed (filed_insert filed)

theorem rebuildEach_total (items : List (BlockId × BlockMetaData))
    (d : SortedDict ScoreKey (BlockId × PrefixHash))
    (scorable : ∀ b block, (b, block) ∈ items →
      Scorable s.scheduler s.idToFirstAccess b block.cacheHint) :
    ∃ d' u, rebuildEach items d s = .ok d' u := by
  induction items generalizing d s with
  | nil => exact ⟨d, s, rfl⟩
  | cons item rest ih =>
    obtain ⟨b, block⟩ := item
    obtain ⟨score, clock, scored⟩ := calcScore_total (t := block.lastAccessed)
      (scorable b block List.mem_cons_self)
    simp only [rebuildEach, bind_apply, scored, modify_apply]
    exact ih _ fun c other later => scorable c other (List.mem_cons_of_mem _ later)

theorem rebuildEach_avoids {e : PyError} (key : .keyError ≠ e)
    (items : List (BlockId × BlockMetaData)) (d : SortedDict ScoreKey (BlockId × PrefixHash)) :
    Avoids e (rebuildEach items d) := by
  induction items generalizing d with
  | nil => exact .pure _
  | cons item rest ih =>
    refine .bind ?_ fun _ => .bind (.modify _) fun _ => ih _
    intro s t raised
    exact key (calcScore_error raised).symm

omit [Numpy] in
theorem rebuilt_indexed (built : Rebuilt s.freeTable.items ∅ s d table) :
    Rescored s.freeTable table ∧ Indexed table d := by
  have resident {b block} (found : s.freeTable.get? b = some block) :=
    built.scored b block (Dict.mem_items_iff.mpr found)
  have absent {b} (missing : s.freeTable.get? b = none) : table.get? b = none := by
    rw [built.others b, missing]
    intro member
    obtain ⟨block, found⟩ := Dict.mem_keys_iff.mp member
    rw [missing] at found
    cases found
  refine ⟨fun b => ?_, fun b block found => ?_, built.filed (by intro item member; cases member)⟩
  · cases old : s.freeTable.get? b with
    | none => rw [absent old]
    | some block =>
      obtain ⟨score, -, new, -⟩ := resident old
      simp [new, unscored]
  · cases old : s.freeTable.get? b with
    | none => rw [absent old] at found; cases found
    | some held =>
      obtain ⟨score, -, new, listed⟩ := resident old
      rw [new] at found
      cases found
      exact listed

theorem rebuildSortedDict_ok (call : rebuildSortedDict s = .ok () u) :
    (∀ b block, s.freeTable.get? b = some block →
      Scorable s.scheduler s.idToFirstAccess b block.cacheHint) ∧
    ∃ table d clock, u = { s with freeTable := table, sortedDict := d, clock } ∧
      Rescored s.freeTable table ∧ Indexed table d := by
  rw [rebuildSortedDict, get_bind] at call
  obtain ⟨d, v, each, call⟩ := bind_ok call
  cases call
  obtain ⟨scorable, table, clock, rfl, built⟩ := rebuildEach_ok s.freeTable.nodup each
  exact ⟨fun b block found => scorable b block (Dict.mem_items_iff.mpr found),
    table, d, clock, rfl, rebuilt_indexed built⟩

/-- An RRIP block is scored by a number. -/
theorem rebuildSortedDict_rrip (call : rebuildSortedDict s = .ok () u) (resident : u.freeTable.get? b = some block)
    (rrip : getPolicy u.scheduler block.cacheHint = .rrip) : block.score ≠ .nan := by
  rw [rebuildSortedDict, get_bind] at call
  obtain ⟨d, v, each, call⟩ := bind_ok call
  cases call
  obtain ⟨-, table, clock, rfl, built⟩ := rebuildEach_ok s.freeTable.nodup each
  obtain ⟨held, old, -⟩ := (rebuilt_indexed built).1.resident resident
  obtain ⟨score, number, new, -⟩ := built.scored b held (Dict.mem_items_iff.mpr old)
  rw [show table.get? b = some block from resident] at new
  cases new
  exact number rrip

theorem rebuildSortedDict_total (scorable : ∀ b block, s.freeTable.get? b = some block →
      Scorable s.scheduler s.idToFirstAccess b block.cacheHint) :
    ∃ u, rebuildSortedDict s = .ok () u := by
  obtain ⟨d, u, each⟩ := rebuildEach_total s.freeTable.items ∅
    fun b block member => scorable b block (Dict.mem_items_iff.mp member)
  simp [rebuildSortedDict, bind_apply, each]

theorem rebuildSortedDict_avoids {e : PyError} (key : .keyError ≠ e) : Avoids e rebuildSortedDict :=
  .bind .get fun _ => .bind (rebuildEach_avoids key _ _) fun _ => .modify _

end Vllm.Evictor.LRUMLEvictor
