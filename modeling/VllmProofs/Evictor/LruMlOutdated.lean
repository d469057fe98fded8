import VllmProofs.Evictor.LruMlRrip

/-!
The records of `to_delete_blocks`. `_refresh` marks a block when the last recorded access of its
conversation has another time, and `evict` takes the block of a record while its time is the recorded
one. Both tests stand for something else, which they decide as long as accesses come in order.
-/

namespace Vllm.Evictor.LRUMLEvictor
open Exec

/-- A record `(block_id, content_hash, last_accessed)`. -/
abbrev Outdated := BlockId × PrefixHash × Time

/-- The conversation and the access time of a resident block. -/
def useOf (s : LRUMLEvictor) (b : BlockId) : Option (Option ℤ × Time) :=
  (s.freeTable.get? b).map fun block => (block.cacheHint.bind CacheHint.id, block.lastAccessed)

/-- The call uses block `b`, of a conversation, at a time. -/
inductive Call.Uses (b : BlockId) (id : ℤ) (time : Time) : Call → Prop
  | add {h : PrefixHash} {n : ℕ} {hint : CacheHint} (named : hint.id = some id) :
      Uses b id time (.op (.add b h n time (some hint)))
  | update {hint : CacheHint} (named : hint.id = some id) :
      Uses b id time (.op (.update b time (some hint)))

section

variable {s t u : LRUMLEvictor}

theorem useOf_rescored (rescored : Rescored s.freeTable t.freeTable) (b : BlockId) :
    useOf t b = useOf s b := by
  have same := congrArg (Option.map fun block : BlockMetaData =>
    (block.cacheHint.bind CacheHint.id, block.lastAccessed)) (rescored b)
  rw [Option.map_map, Option.map_map] at same
  exact same

variable {b : BlockId} {time : Time}

theorem useOf_eq_some {id : Option ℤ} : useOf s b = some (id, time) ↔
    ∃ block, s.freeTable.get? b = some block ∧ block.cacheHint.bind CacheHint.id = id ∧
      block.lastAccessed = time := by
  simp [useOf]

theorem recordValid_iff {r : Outdated} : recordValid s.freeTable r = true ↔
    ∃ id, useOf s r.1 = some (id, r.2.2) := by
  unfold recordValid useOf
  cases s.freeTable.get? r.1 with
  | none => simp
  | some block => simp

/-! ### What `_refresh` marks -/

variable {survival : List (BlockId × ℤ × Time)}

theorem survivalList_named {items : List (BlockId × BlockMetaData)}
    (called : survivalList items s = .ok survival u) :
    ∀ entry ∈ survival, ∃ block, (entry.1, block) ∈ items ∧
      block.cacheHint.bind CacheHint.id = some entry.2.1 := by
  induction items generalizing survival u with
  | nil =>
    obtain ⟨rfl, -⟩ := pure_ok called
    simp
  | cons item rest ih =>
    obtain ⟨b, block⟩ := item
    cases hinted : block.cacheHint with
    | none => simp [survivalList, hinted] at called
    | some hint =>
      cases named : hint.id with
      | none => simp [survivalList, hinted, named] at called
      | some id =>
        simp only [survivalList, hinted, named] at called
        obtain ⟨others, v, each, called⟩ := bind_ok called
        obtain ⟨rfl, -⟩ := pure_ok called
        intro entry member
        rcases List.mem_cons.mp member with rfl | later
        · exact ⟨block, List.mem_cons_self, by simp [hinted, named]⟩
        · obtain ⟨other, among, same⟩ := ih each entry later
          exact ⟨other, List.mem_cons_of_mem _ among, same⟩

/-- The record is about a resident block whose conversation was last recorded at another time. -/
def Superseded (s : LRUMLEvictor) (r : Outdated) : Prop :=
  ∃ id last, useOf s r.1 = some (some id, r.2.2) ∧ s.idToLastAccess.get? id = some last ∧ last ≠ r.2.2

theorem markOutdated_marks
    (named : ∀ entry ∈ survival, ∃ block, s.freeTable.get? entry.1 = some block ∧
      block.cacheHint.bind CacheHint.id = some entry.2.1)
    (called : markOutdated survival s = .ok () u) :
    ∃ new, u = { s with toDeleteBlocks := new ++ s.toDeleteBlocks } ∧ ∀ r ∈ new, Superseded s r := by
  induction survival generalizing s with
  | nil =>
    obtain ⟨-, rfl⟩ := pure_ok called
    exact ⟨[], rfl, by simp⟩
  | cons entry rest ih =>
    obtain ⟨b, id, time⟩ := entry
    have later := fun entry member => named entry (List.mem_cons_of_mem _ member)
    obtain ⟨block, resident, same⟩ := named _ List.mem_cons_self
    have resident : s.freeTable.get? b = some block := resident
    rw [markOutdated, get_bind] at called
    simp only [resident] at called
    split at called
    · exact ih later called
    · cases seen : s.idToLastAccess.get? id with
      | none => simp [seen] at called
      | some last =>
        simp only [seen, set_bind] at called
        split at called
        · exact ih later called
        · rename_i different
          obtain ⟨new, rfl, marks⟩ := ih (s := { s with
            toDeleteBlocks := (b, block.contentHash, block.lastAccessed) :: s.toDeleteBlocks }) later called
          refine ⟨new ++ [(b, block.contentHash, block.lastAccessed)], by simp, fun r member => ?_⟩
          rcases List.mem_append.mp member with before | here
          · exact marks r before
          · obtain rfl := List.mem_singleton.mp here
            exact ⟨id, last, useOf_eq_some.mpr ⟨block, resident, same, rfl⟩, seen, different⟩

variable [Numpy]

theorem refreshIfDue_marks (called : refreshIfDue s = .ok () u) :
    u.idToLastAccess = s.idToLastAccess ∧ (∀ b, useOf u b = useOf s b) ∧
      ∃ new, u.toDeleteBlocks = new ++ s.toDeleteBlocks ∧ ∀ r ∈ new, Superseded s r := by
  rcases refreshIfDue_cases called with rfl | ⟨v, w, survival, -, rebuilt, rfl, listed, marking, -⟩
  · exact ⟨rfl, fun _ => rfl, [], rfl, by simp⟩
  · obtain ⟨-, table, d, clock, rfl, rescored, -⟩ := rebuildSortedDict_ok rebuilt
    obtain ⟨new, rfl, marks⟩ := markOutdated_marks (fun entry member => by
      obtain ⟨block, among, same⟩ := survivalList_named listed entry
        ((List.perm_insertionSort _ _).mem_iff.mp member)
      exact ⟨block, Dict.mem_items_iff.mp among, same⟩) marking
    refine ⟨rfl, useOf_rescored rescored, new, rfl, fun r member => ?_⟩
    obtain ⟨id, last, use, seen, different⟩ := marks r member
    refine ⟨id, last, ?_, seen, different⟩
    rw [← use]
    exact (useOf_rescored rescored r.1).symm

/-! ### What a call does -/

omit [Numpy] in
structure Loses (s t : LRUMLEvictor) : Prop where
  last : t.idToLastAccess = s.idToLastAccess
  uses : ∀ b use, useOf t b = some use → useOf s b = some use
  records : t.toDeleteBlocks <:+ s.toDeleteBlocks

omit [Numpy] in
theorem Loses.refl (s : LRUMLEvictor) : Loses s s := ⟨rfl, fun _ _ same => same, List.suffix_rfl⟩

omit [Numpy] in
theorem Loses.trans (one : Loses s t) (two : Loses t u) : Loses s u :=
  ⟨two.last.trans one.last, fun b use now => one.uses b use (two.uses b use now),
    two.records.trans one.records⟩

structure Gains (s t : LRUMLEvictor) (b : BlockId) (id : ℤ) (time : Time) : Prop where
  last : t.idToLastAccess = s.idToLastAccess.insert id time
  use : useOf t b = some (some id, time)
  others : ∀ c, c ≠ b → useOf t c = useOf s c
  records : ∃ new, t.toDeleteBlocks = new ++ s.toDeleteBlocks ∧ ∀ r ∈ new, Superseded t r

variable {hint : Option CacheHint}

omit [Numpy] in
theorem recordLastAccess_id
    (called : recordLastAccess hint time s = .ok () u) : ∃ id, hint.bind CacheHint.id = some id ∧
      u = { s with idToLastAccess := s.idToLastAccess.insert id time } := by
  cases hint with
  | none => cases called
  | some own =>
    cases named : own.id with
    | none => simp [recordLastAccess, named] at called
    | some id =>
      simp only [recordLastAccess, named, modify_apply, EStateM.Result.ok.injEq, true_and] at called
      exact ⟨id, named, called.symm⟩

omit [Numpy] in
theorem useOf_insertBlock (b : BlockId) (block : BlockMetaData) (s : LRUMLEvictor) :
    useOf (insertBlock b block s) b = some (block.cacheHint.bind CacheHint.id, block.lastAccessed) ∧
      ∀ c, c ≠ b → useOf (insertBlock b block s) c = useOf s c := by
  refine ⟨by simp [useOf, insertBlock], fun c different => ?_⟩
  simp only [useOf, insertBlock]
  rw [Dict.get?_insert_ne different]

theorem add_gains {h : PrefixHash} {n : ℕ} (called : add b h n time hint s = .ok () u) :
    ∃ id, hint.bind CacheHint.id = some id ∧ Gains s u b id time := by
  obtain ⟨hint', score, v, w, bound, scored, recorded, called⟩ := add_cases called
  have named := bindSchedulerPolicy_fields bound CacheHint.id fun _ _ => rfl
  obtain ⟨table, -, -⟩ := prepare_frame b h time (getPolicy s.scheduler hint') s
  have records : (prepare b h time (getPolicy s.scheduler hint') s).toDeleteBlocks = s.toDeleteBlocks ∧
      (prepare b h time (getPolicy s.scheduler hint') s).idToLastAccess = s.idToLastAccess := by
    unfold prepare seedFirstAccess seedPdp seedRrip
    split_ifs <;> exact ⟨rfl, rfl⟩
  generalize prepare b h time (getPolicy s.scheduler hint') s = x at scored table records
  obtain ⟨-, clock, rfl⟩ := calcScore_ok scored
  obtain ⟨id, same, rfl⟩ := recordLastAccess_id recorded
  obtain ⟨last, uses, new, marked, marks⟩ := refreshIfDue_marks called
  obtain ⟨here, elsewhere⟩ := useOf_insertBlock b ⟨h, n, time, hint', score⟩ { x with clock }
  refine ⟨id, named ▸ same, ⟨?_, ?_, fun c different => ?_, new, ?_, fun r member => ?_⟩⟩
  · rw [last, ← records.2]
    rfl
  · rw [uses b, ← same]
    exact here
  · rw [uses c]
    refine (elsewhere c different).trans ?_
    rw [useOf, useOf]
    exact congrArg (fun table : Dict BlockId BlockMetaData => (table.get? c).map _) table
  · rw [marked, ← records.1]
    rfl
  · obtain ⟨id', last', use, seen, different⟩ := marks r member
    exact ⟨id', last', by rw [uses]; exact use, by rw [last]; exact seen, different⟩

theorem update_gains (called : update b time hint s = .ok () u) :
    ∃ id, hint.bind CacheHint.id = some id ∧ Gains s u b id time ∧
      u.toDeleteBlocks = s.toDeleteBlocks := by
  obtain ⟨block, hint', d, v, score, w, -, bound, -, touched, scored, called⟩ := update_cases called
  have named := bindSchedulerPolicy_fields bound CacheHint.id fun _ _ => rfl
  have kept : v.freeTable = s.freeTable ∧ v.idToLastAccess = s.idToLastAccess ∧
      v.toDeleteBlocks = s.toDeleteBlocks := by
    unfold touch at touched
    split at touched
    · cases touched
      exact ⟨rfl, rfl, rfl⟩
    · split at touched
      · cases touched
        show (protectedNow b true _).freeTable = _ ∧ (protectedNow b true _).idToLastAccess = _ ∧
          (protectedNow b true _).toDeleteBlocks = _
        unfold protectedNow
        split <;> exact ⟨rfl, rfl, rfl⟩
      · cases touched
        exact ⟨rfl, rfl, rfl⟩
  obtain ⟨-, clock, rfl⟩ := calcScore_ok scored
  obtain ⟨id, same, rfl⟩ := recordLastAccess_id called
  obtain ⟨here, elsewhere⟩ := useOf_insertBlock b
    { block with lastAccessed := time, cacheHint := hint', score } { v with clock }
  refine ⟨id, named ▸ same, ⟨?_, ?_, fun c different => ?_, [], kept.2.2, by simp⟩, kept.2.2⟩
  · rw [← kept.2.1]
    rfl
  · rw [← same]
    exact here
  · refine (elsewhere c different).trans ?_
    rw [useOf, useOf]
    exact congrArg (fun table : Dict BlockId BlockMetaData => (table.get? c).map _) kept.1

omit [Numpy] in
theorem useOf_erase {c : BlockId} {use : Option ℤ × Time} (table : t.freeTable = s.freeTable.erase b)
    (now : useOf t c = some use) : useOf s c = some use := by
  rw [useOf, table] at now
  rw [useOf]
  obtain ⟨block, found, same⟩ := Option.map_eq_some_iff.mp now
  rw [(get?_of_erase found).2, ← same]
  rfl

omit [Numpy] in
theorem remove_loses (called : remove b s = .ok () u) : Loses s u := by
  obtain ⟨block, d, -, rfl⟩ := remove_cases called
  have released : (release b block.contentHash (getPolicy s.scheduler block.cacheHint) s).idToLastAccess =
        s.idToLastAccess ∧
      (release b block.contentHash (getPolicy s.scheduler block.cacheHint) s).toDeleteBlocks =
        s.toDeleteBlocks := by
    unfold release
    split_ifs <;> exact ⟨rfl, rfl⟩
  exact ⟨released.1, fun c use now => useOf_erase (b := b) rfl now, by rw [← released.2]⟩

theorem evict_loses {victim : BlockId × PrefixHash} (called : evict s = .ok victim u) : Loses s u := by
  refine evict_rule (P := Loses s) ?_ ?_ ?_ ?_ ?_ (.refl s) called
  · intro t record rest records loses
    exact loses.trans ⟨rfl, fun _ _ same => same, ⟨[record], records.symm⟩⟩
  · exact fun t d loses => ⟨loses.last, loses.uses, loses.records⟩
  · intro t u loses called
    rw [ageRripBlocks, modify_bind] at called
    obtain ⟨-, table, d, clock, rfl, rescored, -⟩ := rebuildSortedDict_ok called
    refine loses.trans ⟨rfl, fun b use now => ?_, List.suffix_rfl⟩
    rw [← now]
    exact (useOf_rescored rescored b).symm
  · exact fun t b h loses => loses.trans ⟨rfl, fun _ _ now => useOf_erase rfl now, List.suffix_rfl⟩
  · exact fun t b policy loses => loses.trans ⟨rfl, fun _ _ now => useOf_erase rfl now, List.suffix_rfl⟩

theorem rebind_loses (called : rebindSchedulerPolicyForExistingBlocks s = .ok () u) : Loses s u := by
  rcases rebind_cases called with ⟨-, rfl⟩ | ⟨-, v, bound, -, table, -, called⟩
  · exact .refl _
  have lasts := rebindEach_fixes LRUMLEvictor.idToLastAccess s.scheduler.currentPolicy
    (fun b block hint s => by unfold rebindBlock; dsimp only; split_ifs <;> rfl) s.freeTable.items
  have seeded : (seed s.scheduler.currentPolicy s).idToLastAccess = s.idToLastAccess := by
    unfold seed
    dsimp only
    split_ifs <;> rfl
  obtain ⟨-, new, d, clock, rfl, rescored, -⟩ := rebuildSortedDict_ok called
  refine ⟨(lasts _ _ _ bound).trans seeded, fun b use now => ?_, List.nil_suffix⟩
  have now : useOf v b = some use := (useOf_rescored rescored b).symm.trans now
  rw [useOf, table, Option.map_map] at now
  rw [useOf, ← now]
  congr 1
  funext block
  cases hinted : block.cacheHint <;> simp [reboundTo, hinted, CacheHint.rebound]

theorem observe_loses {h : PrefixHash} {hit : Option Bool}
    (called : observeCacheAccess h hint hit s = .ok () u) : Loses s u := by
  rcases observe_cases called with ⟨scheduler, clock, -, -, rfl⟩ | ⟨scheduler, clock, -, -, rebound⟩ |
    observed | rfl
  · exact ⟨rfl, fun _ _ same => same, List.suffix_rfl⟩
  · have rebound := rebind_loses rebound
    exact ⟨rebound.last, rebound.uses, rebound.records⟩
  · have frame := pdpObserve_keeps h hit _ _ _ observed
    have fixed := congrArg Prod.snd (pdpObserve_fixes h hit _ _ _ observed)
    refine ⟨congrArg Prod.fst fixed, fun b use now => ?_, ?_⟩
    · rwa [useOf, frame.table] at now
    · have records : u.toDeleteBlocks = s.toDeleteBlocks := congrArg Prod.snd fixed
      rw [records]
  · exact .refl _

theorem returned_cases {c : Call} (returned : Returned s c t) :
    (∃ b id time, c.Uses b id time ∧ Gains s t b id time) ∨
      Loses s t ∧ ∀ b id time, ¬c.Uses b id time := by
  cases c with
  | op op =>
    cases op with
    | add b h n time hint =>
      obtain ⟨id, named, gains⟩ := add_gains (show add b h n time hint s = _ from returned)
      obtain ⟨own, rfl, named⟩ := Option.bind_eq_some_iff.mp named
      exact .inl ⟨b, id, time, .add named, gains⟩
    | update b time hint =>
      obtain ⟨id, named, gains, -⟩ := update_gains (show update b time hint s = _ from returned)
      obtain ⟨own, rfl, named⟩ := Option.bind_eq_some_iff.mp named
      exact .inl ⟨b, id, time, .update named, gains⟩
    | remove b => exact .inr ⟨remove_loses (show remove b s = _ from returned), fun _ _ _ uses => nomatch uses⟩
    | observe h hint hit =>
      exact .inr ⟨observe_loses (show observeCacheAccess h hint hit s = _ from returned),
        fun _ _ _ uses => nomatch uses⟩
    | evict =>
      obtain ⟨victim, evicted⟩ := evict_of_call returned
      exact .inr ⟨evict_loses evicted, fun _ _ _ uses => nomatch uses⟩
  | setCapacity capacity =>
    obtain ⟨⟨scheduler, clock⟩, -, rfl⟩ := zoom_ok
      (show onScheduler (EvictionPolicyScheduler.setCapacity capacity) s = _ from returned)
    exact .inr ⟨⟨rfl, fun _ _ same => same, List.suffix_rfl⟩, fun _ _ _ uses => nomatch uses⟩

/-! ### Runs -/

/-- A call that uses a block does so no earlier than the conversation was last recorded, and not at the
time of a record about the block. -/
def InOrder (s : LRUMLEvictor) (c : Call) : Prop := ∀ b id time, c.Uses b id time →
  (∀ last, s.idToLastAccess.get? id = some last → last ≤ time) ∧
  ∀ r ∈ s.toDeleteBlocks, r.1 = b → r.2.2 ≠ time

def OrderedStep (s : LRUMLEvictor) (c : Call) (t : LRUMLEvictor) : Prop := InOrder s c ∧ Returned s c t

/-- The record was put on the list by a call of the run, and no call since has used its block. -/
inductive MarkedSince (start : LRUMLEvictor) (r : Outdated) : List Call → LRUMLEvictor → Prop
  | marked {h : List Call} {s t : LRUMLEvictor} {c : Call} {new : List Outdated}
      (run : Run Returned start h s) (returned : Returned s c t)
      (records : t.toDeleteBlocks = new ++ s.toDeleteBlocks) (among : r ∈ new) :
      MarkedSince start r (c :: h) t
  | kept {h : List Call} {s t : LRUMLEvictor} {c : Call} (before : MarkedSince start r h s)
      (returned : Returned s c t) (other : ∀ id time, ¬c.Uses r.1 id time) :
      MarkedSince start r (c :: h) t

omit [Numpy] in
def Takes (s : LRUMLEvictor) (r : Outdated) : Prop :=
  samplePolicy s ≠ some .pdp ∧ s.toDeleteBlocks.find? (recordValid s.freeTable) = some r

/-- The records a call has put on the list are about blocks of whose conversation one was used strictly
later. -/
def MarksOutdated (s t : LRUMLEvictor) (history : List Call) : Prop :=
  ∀ new, t.toDeleteBlocks = new ++ s.toDeleteBlocks → ∀ r ∈ new, ∃ id,
    useOf t r.1 = some (some id, r.2.2) ∧
    ∃ a ∈ history, ∃ b time, a.Uses b id time ∧ r.2.2 < time

/-- A block that `evict` takes from the list has not been used since it was put there. -/
def TakesOutdated (start : LRUMLEvictor) (history : List Call) (s : LRUMLEvictor) : Prop :=
  ∀ r, Takes s r → (∃ t, evict s = .ok (r.1, r.2.1) t) ∧ MarkedSince start r history s

theorem evict_taken {r : Outdated} (takes : Takes s r) : ∃ t, evict s = .ok (r.1, r.2.1) t := by
  obtain ⟨other, newest⟩ := takes
  obtain ⟨id, use⟩ := recordValid_iff.mp (List.find?_some newest)
  obtain ⟨block, resident, -⟩ := useOf_eq_some.mp use
  obtain ⟨rest, evicted⟩ := evict_recorded other newest resident
  exact ⟨_, evicted⟩

structure Ordered (start : LRUMLEvictor) (h : List Call) (s : LRUMLEvictor) : Prop where
  run : Run Returned start h s
  recorded : ∀ b id time, useOf s b = some (some id, time) →
    ∃ last, s.idToLastAccess.get? id = some last ∧ time ≤ last
  used : ∀ id last, s.idToLastAccess.get? id = some last → ∃ a ∈ h, ∃ b, a.Uses b id last
  valid : ∀ r ∈ s.toDeleteBlocks, recordValid s.freeTable r = true → MarkedSince start r h s

variable {start : LRUMLEvictor} {h : List Call}

theorem Ordered.step {c : Call} (ordered : Ordered start h s)
    (stepped : OrderedStep s c t) : Ordered start (c :: h) t := by
  obtain ⟨inOrder, returned⟩ := stepped
  have earlier {id last} (known : s.idToLastAccess.get? id = some last) :
      ∃ a ∈ c :: h, ∃ b, a.Uses b id last := by
    obtain ⟨a, member, uses⟩ := ordered.used id last known
    exact ⟨a, List.mem_cons_of_mem _ member, uses⟩
  rcases returned_cases returned with ⟨b, id, time, uses, gains⟩ | ⟨loses, idle⟩
  · obtain ⟨later, apart⟩ := inOrder b id time uses
    have grows {id' last} (known : s.idToLastAccess.get? id' = some last) :
        ∃ last', t.idToLastAccess.get? id' = some last' ∧ last ≤ last' := by
      rw [gains.last, Dict.get?_insert]
      split
      · rename_i same
        subst same
        exact ⟨time, rfl, later last known⟩
      · exact ⟨last, known, le_rfl⟩
    refine ⟨.call ordered.run returned, fun d id' time' use => ?_, fun id' last known => ?_,
      fun r member valid => ?_⟩
    · by_cases here : d = b
      · subst here
        rw [gains.use] at use
        cases use
        exact ⟨time, by rw [gains.last, Dict.get?_insert_self], le_rfl⟩
      · rw [gains.others d here] at use
        obtain ⟨last, known, before⟩ := ordered.recorded d id' time' use
        obtain ⟨last', now, since⟩ := grows known
        exact ⟨last', now, before.trans since⟩
    · rw [gains.last, Dict.get?_insert] at known
      split at known
      · rename_i same
        cases known
        subst same
        exact ⟨c, List.mem_cons_self, b, uses⟩
      · exact earlier known
    · obtain ⟨new, records, -⟩ := gains.records
      rw [records] at member
      rcases List.mem_append.mp member with fresh | old
      · exact .marked ordered.run returned records fresh
      · obtain ⟨id', use⟩ := recordValid_iff.mp valid
        have other : r.1 ≠ b := by
          intro same
          rw [same, gains.use] at use
          cases use
          exact apart r old same rfl
        rw [gains.others _ other] at use
        refine .kept (ordered.valid r old (recordValid_iff.mpr ⟨id', use⟩)) returned ?_
        intro id'' time'' again
        refine other ?_
        cases uses <;> cases again <;> rfl
  · refine ⟨.call ordered.run returned, fun d id' time' use => ?_, fun id' last known => ?_,
      fun r member valid => ?_⟩
    · rw [loses.last]
      exact ordered.recorded d id' time' (loses.uses d _ use)
    · rw [loses.last] at known
      exact earlier known
    · obtain ⟨id', use⟩ := recordValid_iff.mp valid
      have before := ordered.valid r (loses.records.subset member)
        (recordValid_iff.mpr ⟨id', loses.uses _ _ use⟩)
      exact .kept before returned fun id'' time'' => idle _ _ _

theorem Ordered.marks {c : Call} (ordered : Ordered start h s)
    (stepped : OrderedStep s c t) : MarksOutdated s t (c :: h) := by
  intro new split r member
  have next := ordered.step stepped
  rcases returned_cases stepped.2 with ⟨b, id, time, uses, gains⟩ | ⟨loses, -⟩
  · obtain ⟨marked, records, superseded⟩ := gains.records
    obtain rfl := List.append_cancel_right (split.symm.trans records)
    obtain ⟨id', last, use, seen, different⟩ := superseded r member
    obtain ⟨last', known, before⟩ := next.recorded r.1 id' r.2.2 use
    obtain rfl := Option.some.inj (seen.symm.trans known)
    obtain ⟨a, among, b', used⟩ := next.used id' last seen
    exact ⟨id', use, a, among, b', last, used, lt_of_le_of_ne before different.symm⟩
  · have shorter := loses.records.length_le
    rw [split, List.length_append] at shorter
    obtain rfl : new = [] := List.length_eq_zero_iff.mp (by omega)
    cases member

theorem Ordered.takes (ordered : Ordered start h s) : TakesOutdated start h s := fun r takes =>
  ⟨evict_taken takes, ordered.valid r (List.mem_of_find?_eq_some takes.2) (List.find?_some takes.2)⟩

/-- As long as the conversations' accesses come in order and no block is used again at the time of a
record about it, what is marked was superseded, and what is taken has not been used since. -/
theorem run_outdated {scheduler : EvictionPolicyScheduler} {settings : PdpSettings}
    {lastRefreshTime : Time} {clock : Clock} {h : List Call} {c : Call}
    (run : Run OrderedStep (init scheduler settings lastRefreshTime clock) h s)
    (stepped : OrderedStep s c t) :
    MarksOutdated s t (c :: h) ∧ TakesOutdated (init scheduler settings lastRefreshTime clock) h s := by
  have ordered : Ordered (init scheduler settings lastRefreshTime clock) h s := by
    refine run.invariant (I := fun h s => Ordered (init scheduler settings lastRefreshTime clock) h s)
      ⟨.start, ?_, ?_, ?_⟩ fun _ _ _ _ ordered stepped => ordered.step stepped
    · intro b id time use
      cases use
    · intro id last known
      cases known
    · intro r member
      cases member
  exact ⟨ordered.marks stepped, ordered.takes⟩

omit [Numpy] in
theorem earlierUse_run : ∃ s t,
    Run (@Returned noPrediction) unscheduled [.op (.add 1 10 16 5 (some { id := some 7 }))] s ∧
    @Returned noPrediction s (.op (.add 2 20 16 3 (some { id := some 7 }))) t ∧
    s.toDeleteBlocks = [] ∧ t.toDeleteBlocks = [(1, 10, 5)] ∧ useOf t 1 = some (some 7, 5) := by
  obtain ⟨s, run, none, found⟩ := Run.exists_of_execute (s := unscheduled)
    (h := [.op (.add 1 10 16 5 (some { id := some 7 }))])
    (f := fun s c => next? (@Call.run noPrediction c) s)
    (P := fun s => s.toDeleteBlocks = [] ∧
      (next? (@Call.run noPrediction (.op (.add 2 20 16 3 (some { id := some 7 })))) s).any (fun t =>
        decide (t.toDeleteBlocks = [(1, 10, 5)] ∧ useOf t 1 = some (some 7, 5))) = true) (by decide +kernel)
  obtain ⟨t, next, ends⟩ := (Option.any_eq_true _ _).mp found
  obtain ⟨_, returned⟩ := next?_eq_some.mp next
  refine ⟨s, t, run.mono fun _ _ _ stepped => ?_, returned, none, of_decide_eq_true ends⟩
  exact (next?_eq_some.mp stepped).elim fun _ returned => returned

omit [Numpy] in
theorem earlierUse_marked : ¬∀ (numpy : Numpy) (scheduler : EvictionPolicyScheduler)
    (settings : PdpSettings) (lastRefreshTime : Time) (clock : Clock) (h : List Call) (c : Call)
    (s t : LRUMLEvictor), Run (@Returned numpy) (init scheduler settings lastRefreshTime clock) h s →
    @Returned numpy s c t → MarksOutdated s t (c :: h) ∧
      @TakesOutdated numpy (init scheduler settings lastRefreshTime clock) h s := by
  intro claim
  obtain ⟨s, t, run, returned, none, marked, use⟩ := earlierUse_run
  obtain ⟨id, use', a, member, b, time, uses, later⟩ := (claim _ _ _ _ _ _ _ _ _ run returned).1
    [(1, 10, 5)] (by rw [marked, none]; rfl) (1, 10, 5) List.mem_cons_self
  rcases List.mem_cons.mp member with rfl | member
  · cases uses
    norm_num at later
  · obtain rfl := List.mem_singleton.mp member
    cases uses
    norm_num at later

omit [Numpy] in
/-- A block is marked and then used again at the time of the record, in another conversation. -/
theorem sameTime_run : ∃ s, Run (@Returned noPrediction) unscheduled
    [.op (.update 1 1 (some { id := some 8 })), .op (.add 2 20 16 2 (some { id := some 7 })),
      .op (.add 1 10 16 1 (some { id := some 7 }))] s ∧ Takes s (1, 10, 1) := by
  obtain ⟨s, run, takes⟩ := Run.exists_of_execute (s := unscheduled)
    (h := [.op (.update 1 1 (some { id := some 8 })), .op (.add 2 20 16 2 (some { id := some 7 })),
      .op (.add 1 10 16 1 (some { id := some 7 }))])
    (f := fun s c => next? (@Call.run noPrediction c) s)
    (P := fun s => samplePolicy s ≠ some .pdp ∧
      s.toDeleteBlocks.find? (recordValid s.freeTable) = some (1, 10, 1)) (by decide +kernel)
  refine ⟨s, run.mono fun _ _ _ stepped => ?_, takes⟩
  exact (next?_eq_some.mp stepped).elim fun _ returned => returned

omit [Numpy] in
theorem sameTime_taken : ¬∀ (numpy : Numpy) (scheduler : EvictionPolicyScheduler)
    (settings : PdpSettings) (lastRefreshTime : Time) (clock : Clock) (h : List Call)
    (s : LRUMLEvictor), Run (@Returned numpy) (init scheduler settings lastRefreshTime clock) h s →
    @TakesOutdated numpy (init scheduler settings lastRefreshTime clock) h s := by
  intro claim
  obtain ⟨s, run, takes⟩ := sameTime_run
  cases (claim _ _ _ _ _ _ _ run _ takes).2 with
  | kept before returned other => exact other 8 1 (.update rfl)
  | marked before returned records among =>
    obtain ⟨-, -, -, same⟩ := @update_gains _ _ _ _ noPrediction _ returned
    rw [same] at records
    obtain rfl := List.append_cancel_right (records.symm.trans (List.nil_append _).symm)
    cases among

omit [Numpy] in
/-- The block of the first access is marked when the second comes. -/
theorem run_outdated_inOrder : ∃ s t, t.toDeleteBlocks = [(1, 10, 5)] ∧
    MarksOutdated s t [.op (.add 2 20 16 6 (some { id := some 7 })),
      .op (.add 1 10 16 5 (some { id := some 7 }))] ∧
    @TakesOutdated noPrediction unscheduled [.op (.add 1 10 16 5 (some { id := some 7 }))] s := by
  obtain ⟨s, run, unmarked, recorded, found⟩ := Run.exists_of_execute (s := unscheduled)
    (h := [.op (.add 1 10 16 5 (some { id := some 7 }))])
    (f := fun s c => next? (@Call.run noPrediction c) s)
    (P := fun s => s.toDeleteBlocks = [] ∧ s.idToLastAccess.get? 7 = some 5 ∧
      (next? (@Call.run noPrediction (.op (.add 2 20 16 6 (some { id := some 7 })))) s).any (fun t =>
        decide (t.toDeleteBlocks = [(1, 10, 5)])) = true) (by decide +kernel)
  obtain ⟨t, next, marked⟩ := (Option.any_eq_true _ _).mp found
  obtain ⟨_, returned⟩ := next?_eq_some.mp next
  have first : Run (@OrderedStep noPrediction) unscheduled
      [.op (.add 1 10 16 5 (some { id := some 7 }))] s := by
    cases run with
    | call before stepped =>
      cases before
      obtain ⟨_, called⟩ := next?_eq_some.mp stepped
      refine .call .start ⟨fun b id time uses => ⟨fun last known => ?_, fun r member => ?_⟩, called⟩
      · cases known
      · cases member
  have stepped : @OrderedStep noPrediction s (.op (.add 2 20 16 6 (some { id := some 7 }))) t := by
    refine ⟨fun b id time uses => ?_, returned⟩
    cases uses with
    | add named =>
      obtain rfl := Option.some.inj named
      refine ⟨fun last known => ?_, fun r member => ?_⟩
      · obtain rfl := Option.some.inj (recorded.symm.trans known)
        norm_num
      · rw [unmarked] at member
        cases member
  obtain ⟨marks, takes⟩ := @run_outdated s t noPrediction _ _ _ _ _ _ first stepped
  exact ⟨s, t, of_decide_eq_true marked, marks, takes⟩

end
end Vllm.Evictor.LRUMLEvictor
