import VllmProofs.Evictor.LruMlIndex

/-!
`evict` of `LRUMLEvictor` over whole runs: it raises exactly on an empty table, and otherwise gives
up one resident block. The content hash it returns with the block is the latest one unless a
record of `to_delete_blocks` with an older hash of the same block is taken first.
-/

namespace Vllm.Evictor.LRUMLEvictor
open Exec

/-! ### One entry of the index -/

variable {table : Dict BlockId BlockMetaData} {d : SortedDict ScoreKey (BlockId × PrefixHash)}

theorem indexed_erase (indexed : Indexed table d) (b : BlockId) (block : BlockMetaData) :
    Indexed (table.erase b) (d.erase (block.scoreKey b)) := by
  refine ⟨fun c other found => ?_, fun item member => ?_⟩
  · rw [Dict.get?_erase] at found
    split at found
    · cases found
    · rename_i different
      refine SortedDict.mem_erase.mpr ⟨indexed.listed c other found, fun same => different ?_⟩
      exact congrArg (fun key : ScoreKey => (ofLex (ofLex key).2).2) same
  · exact indexed.filed item (SortedDict.mem_erase.mp member).1

theorem indexed_erase_stale (indexed : Indexed table d) (b : BlockId) :
    Indexed (table.erase b) d := by
  refine ⟨fun c other found => ?_, indexed.filed⟩
  rw [Dict.get?_erase] at found
  split at found
  · cases found
  · exact indexed.listed c other found

variable {b : BlockId}

theorem indexed_insert (block : BlockMetaData) (indexed : Indexed (table.erase b) d) :
    Indexed (table.insert b block) (d.insert (block.scoreKey b) (b, block.contentHash)) := by
  refine ⟨fun c other found => ?_, filed_insert indexed.filed⟩
  rw [Dict.get?_insert] at found
  by_cases same : c = b
  · subst same
    rw [if_pos rfl] at found
    cases found
    exact SortedDict.mem_insert_self _ _ _
  · rw [if_neg same] at found
    refine mem_insert_other same (indexed.listed c other ?_)
    rw [Dict.get?_erase_ne same, found]

variable {s : LRUMLEvictor} {block : BlockMetaData}

theorem removeFromSortedDict_ok
    (indexed : Indexed s.freeTable s.sortedDict) (resident : s.freeTable.get? b = some block) :
    removeFromSortedDict b s =
      .ok () { s with sortedDict := s.sortedDict.erase (block.scoreKey b) } := by
  have present := SortedDict.contains_iff.mpr ⟨_, indexed.listed b block resident⟩
  simp [removeFromSortedDict, resident, present]

variable {scheduler : EvictionPolicyScheduler} {hint : Option CacheHint}

theorem scorable_mono {first first' : Dict BlockId Time}
    (grows : (first.get? b).isSome → (first'.get? b).isSome)
    (scorable : Scorable scheduler first b hint) : Scorable scheduler first' b hint := by
  unfold Scorable at scorable ⊢
  cases policy : getPolicy scheduler hint <;> rw [policy] at scorable
  case fifo => exact grows scorable
  all_goals exact scorable

variable {u : LRUMLEvictor}

theorem bindSchedulerPolicy_ok
    {hint' : Option CacheHint} (call : bindSchedulerPolicy scheduler hint s = .ok hint' u) :
    u = s ∧ (scheduler.enabled = true → Bound hint') := by
  unfold bindSchedulerPolicy at call
  cases enabled : scheduler.enabled with
  | false =>
    simp only [enabled, Bool.not_false, ↓reduceIte] at call
    obtain ⟨rfl, rfl⟩ := pure_ok call
    exact ⟨rfl, by simp⟩
  | true =>
    simp only [enabled, Bool.not_true, Bool.false_eq_true, ↓reduceIte] at call
    cases hint with
    | none => cases call
    | some hint =>
      dsimp only at call
      cases own : hint.ownPolicy with
      | some policy =>
        rw [own] at call
        obtain ⟨rfl, rfl⟩ := pure_ok call
        exact ⟨rfl, fun _ => by simp [Bound, own]⟩
      | none =>
        rw [own] at call
        obtain ⟨rfl, rfl⟩ := pure_ok call
        exact ⟨rfl, fun _ => by simp [Bound, hint.ownPolicy_bind own]⟩

theorem bindSchedulerPolicy_fields
    {hint' : Option CacheHint} (call : bindSchedulerPolicy scheduler hint s = .ok hint' u) {τ : Type} (f : CacheHint → Option τ)
    (blind : ∀ own policy, f { own with schedulerPolicy := policy } = f own) :
    hint'.bind f = hint.bind f := by
  unfold bindSchedulerPolicy at call
  split at call
  · rw [(pure_ok call).1]
  · cases hint with
    | none => cases call
    | some own =>
      cases named : own.ownPolicy <;> simp only [named] at call
      · rw [← (pure_ok call).1]
        exact blind own _
      · rw [← (pure_ok call).1]

variable {e : PyError}

theorem bindSchedulerPolicy_avoids (attr : .attributeError ≠ e)
    (scheduler : EvictionPolicyScheduler) (hint : Option CacheHint) :
    Avoids e (bindSchedulerPolicy scheduler hint) := by
  refine .ite (.pure _) ?_
  cases hint with
  | none => exact .throw attr
  | some hint => dsimp only; split <;> exact .pure _

theorem recordLastAccess_frame {t : Time}
    (call : recordLastAccess hint t s = .ok () u) : Frame s u := by
  cases hint with
  | none => cases call
  | some hint =>
    cases found : hint.id with
    | none => simp [recordLastAccess, found] at call
    | some id =>
      simp only [recordLastAccess, found, modify_apply, EStateM.Result.ok.injEq, true_and] at call
      subst call
      exact ⟨rfl, rfl, rfl, rfl⟩

theorem recordLastAccess_avoids (key : .keyError ≠ e) (type : .typeError ≠ e)
    (hint : Option CacheHint) (t : Time) : Avoids e (recordLastAccess hint t) := by
  unfold recordLastAccess
  split
  · exact .throw type
  · split
    · exact .throw key
    · exact .modify _

/-! ### Refresh -/

theorem ml_time_ok {now : Time} (call : time s = .ok now u) : now = s.clock.readings s.clock.reads ∧
      u = { s with clock := { s.clock with reads := s.clock.reads + 1 } } := by
  cases call
  exact ⟨rfl, rfl⟩

theorem ml_time_avoids : Avoids e (time : Method LRUMLEvictor Time) :=
  .bind .get fun _ => .bind (.set _) fun _ => .pure _

variable {items : List (BlockId × BlockMetaData)} {survival : List (BlockId × ℤ × Time)}

theorem survivalList_ok (call : survivalList items s = .ok survival u) : u = s := by
  induction items generalizing survival u with
  | nil => exact (pure_ok call).2.symm
  | cons item rest ih =>
    obtain ⟨b, block⟩ := item
    cases hinted : block.cacheHint with
    | none => simp [survivalList, hinted] at call
    | some hint =>
      cases named : hint.id with
      | none => simp [survivalList, hinted, named] at call
      | some id =>
        simp only [survivalList, hinted, named] at call
        obtain ⟨others, v, each, call⟩ := bind_ok call
        rw [← (pure_ok call).2]
        exact ih each

theorem survivalList_avoids (key : .keyError ≠ e) (type : .typeError ≠ e)
    (items : List (BlockId × BlockMetaData)) : Avoids e (survivalList items) := by
  induction items with
  | nil => exact .pure _
  | cons item rest ih =>
    obtain ⟨b, block⟩ := item
    simp only [survivalList]
    split
    · exact .throw type
    · split
      · exact .throw key
      · exact .bind ih fun _ => .pure _

theorem markOutdated_ok (call : markOutdated survival s = .ok () u) :
    ∃ records, u = { s with toDeleteBlocks := records } := by
  induction survival generalizing s with
  | nil => exact ⟨_, (pure_ok call).2.symm⟩
  | cons item rest ih =>
    obtain ⟨b, id, t⟩ := item
    rw [markOutdated, get_bind] at call
    cases found : s.freeTable.get? b with
    | none => simp [found] at call
    | some block =>
      simp only [found] at call
      split at call
      · exact ih call
      · cases seen : s.idToLastAccess.get? id with
        | none => simp [seen] at call
        | some last =>
          simp only [seen, set_bind] at call
          obtain ⟨records, rfl⟩ := ih call
          split
          · exact ⟨records, rfl⟩
          · exact ⟨records, rfl⟩

theorem markOutdated_avoids (key : .keyError ≠ e)
    (survival : List (BlockId × ℤ × Time)) : Avoids e (markOutdated survival) := by
  induction survival with
  | nil => exact .pure _
  | cons item rest ih =>
    obtain ⟨b, id, t⟩ := item
    refine .bind .get fun s => ?_
    split
    · exact .throw key
    · refine .ite ih ?_
      split
      · exact .throw key
      · exact .bind (.set _) fun _ => ih

variable [Numpy]

theorem refresh_ok (call : refresh s = .ok () u) : ∃ table d clock last records,
      u = { s with freeTable := table, sortedDict := d, clock, lastRefreshTime := last,
                   toDeleteBlocks := records } ∧
      Rescored s.freeTable table ∧ Indexed table d := by
  obtain ⟨_, v, rebuilt, call⟩ := bind_ok call
  obtain ⟨-, table, d, clock, rfl, rescored, indexed⟩ := rebuildSortedDict_ok rebuilt
  obtain ⟨now, w, timed, call⟩ := bind_ok call
  obtain ⟨rfl, rfl⟩ := ml_time_ok timed
  rw [modify_bind, get_bind] at call
  obtain ⟨survival, x, listed, call⟩ := bind_ok call
  obtain rfl := survivalList_ok listed
  obtain ⟨records, rfl⟩ := markOutdated_ok call
  exact ⟨table, d, _, _, records, rfl, rescored, indexed⟩

theorem refresh_avoids (key : .keyError ≠ e) (type : .typeError ≠ e) : Avoids e refresh :=
  .bind (rebuildSortedDict_avoids key) fun _ => .bind ml_time_avoids fun _ =>
    .bind (.modify _) fun _ => .bind .get fun _ => .bind (survivalList_avoids key type _) fun _ =>
    markOutdated_avoids key _

/-! ### Finding a victim -/

omit [Numpy] in
/-- The block's RRPV as `calc_score` and `evict` read it. -/
def rrpv (s : LRUMLEvictor) (b : BlockId) : ℕ := (s.rripValues.get? b).getD rripInsertRrpv

omit [Numpy] in
theorem ageEach_other {values : Dict BlockId ℕ}
    (other : ∀ block, (b, block) ∈ items → getPolicy scheduler block.cacheHint ≠ .rrip) :
    (ageEach scheduler items values).get? b = values.get? b := by
  induction items generalizing values with
  | nil => rfl
  | cons item rest ih =>
    obtain ⟨c, block⟩ := item
    have later : ∀ values, (ageEach scheduler rest values).get? b = values.get? b := fun _ =>
      ih fun block member => other block (List.mem_cons_of_mem _ member)
    simp only [ageEach]
    split
    · rename_i rrip
      have different : b ≠ c := by
        rintro rfl
        exact other block List.mem_cons_self rrip
      rw [later, Dict.get?_insert_ne different]
    · exact later values

omit [Numpy] in
theorem ageEach_absent {values : Dict BlockId ℕ} (absent : b ∉ items.map Prod.fst) :
    (ageEach scheduler items values).get? b = values.get? b :=
  ageEach_other fun _ member => absurd (List.mem_map_of_mem (f := Prod.fst) member) absent

omit [Numpy] in
theorem ageEach_rrip (values : Dict BlockId ℕ) (nodup : (items.map Prod.fst).Nodup) (member : (b, block) ∈ items)
    (rrip : getPolicy scheduler block.cacheHint = .rrip) :
    (ageEach scheduler items values).get? b =
      some (min rripMaxRrpv ((values.get? b).getD rripInsertRrpv + 1)) := by
  induction items generalizing values with
  | nil => cases member
  | cons item rest ih =>
    obtain ⟨c, other⟩ := item
    simp only [List.map_cons, List.nodup_cons] at nodup
    rcases List.mem_cons.mp member with same | later
    · cases same
      simp only [ageEach, rrip, ↓reduceIte]
      rw [ageEach_absent nodup.1, Dict.get?_insert_self]
    · have different : b ≠ c := by
        rintro rfl
        exact nodup.1 (List.mem_map_of_mem (f := Prod.fst) later)
      simp only [ageEach]
      split
      · rw [ih _ nodup.2 later, Dict.get?_insert_ne different]
      · exact ih _ nodup.2 later

structure Searched (s u : LRUMLEvictor) : Prop where
  rescored : Rescored s.freeTable u.freeTable
  scheduler : u.scheduler = s.scheduler
  firstAccess : u.idToFirstAccess = s.idToFirstAccess

omit [Numpy] in
theorem Searched.trans {t : LRUMLEvictor} (first : Searched s t) (second : Searched t u) :
    Searched s u :=
  ⟨first.rescored.trans second.rescored, second.scheduler.trans first.scheduler,
    second.firstAccess.trans first.firstAccess⟩

omit [Numpy] in
theorem Searched.inv (searched : Searched s u) (inv : Inv s)
    (indexed : Indexed u.freeTable u.sortedDict) : Inv u := by
  refine ⟨indexed, ?_, ?_⟩
  · rw [searched.scheduler, searched.firstAccess]
    exact scorable_rescored searched.rescored inv.scorable
  · rw [searched.scheduler]
    exact fun enabled => bound_rescored searched.rescored (inv.bound enabled)

theorem ageRripBlocks_ok (inv : Inv s) : ∃ u, ageRripBlocks s = .ok () u ∧ Searched s u ∧ Inv u ∧
      u.toDeleteBlocks = s.toDeleteBlocks ∧
      ∀ b block, u.freeTable.get? b = some block → getPolicy u.scheduler block.cacheHint = .rrip →
          block.score ≠ .nan ∧ min rripMaxRrpv (rrpv s b + 1) ≤ rrpv u b := by
  let aged := { s with rripValues := ageEach s.scheduler s.freeTable.items s.rripValues }
  obtain ⟨u, rebuilt⟩ := rebuildSortedDict_total (s := aged) inv.scorable
  obtain ⟨-, table, d, clock, rfl, rescored, indexed⟩ := rebuildSortedDict_ok rebuilt
  have searched : Searched s { aged with freeTable := table, sortedDict := d, clock } :=
    ⟨rescored, rfl, rfl⟩
  refine ⟨_, by rw [ageRripBlocks, modify_bind]; exact rebuilt, searched,
    searched.inv inv indexed, rfl, ?_⟩
  intro b block found rrip
  refine ⟨rebuildSortedDict_rrip rebuilt found rrip, ?_⟩
  obtain ⟨held, old, same⟩ := rescored.resident found
  rw [← (unscored_fields same).2.2] at rrip
  have value := ageEach_rrip s.rripValues s.freeTable.nodup
    (Dict.mem_items_iff.mpr old) rrip
  simp [rrpv, aged, value]

omit [Numpy] in
/-- There is a resident block whose score is not nan. -/
def Comparable (s : LRUMLEvictor) : Prop := ∃ b block, s.freeTable.get? b = some block ∧ block.score ≠ .nan

omit [Numpy] in
/-- The index leads to the resident block of least key, with the block's present content hash. -/
theorem peekValidCandidate_ok (indexed : Indexed s.freeTable s.sortedDict)
    (comparable : Comparable s) :
    ∃ b block d, s.freeTable.get? b = some block ∧
      peekValidCandidate s = .ok (some (b, block.contentHash)) { s with sortedDict := d } ∧
      Indexed s.freeTable d ∧
      ∀ c other, s.freeTable.get? c = some other → block.scoreKey b ≤ other.scoreKey c := by
  obtain ⟨b, block, found, number⟩ := comparable
  have own : (!current s.freeTable (block.scoreKey b, b, block.contentHash)) = false := by
    simp [current, found, number, BlockMetaData.scoreKey]
  obtain ⟨⟨key, c, hash⟩, first, member, isCurrent⟩ :=
    SortedDict.first?_dropWhile (p := fun item => !current s.freeTable item) (indexed.listed b block found) own
  cases held : s.freeTable.get? c with
  | none => simp [current, held] at isCurrent
  | some other =>
    have fails := isCurrent
    simp only [current, held, Bool.not_eq_false', Bool.decide_and, Bool.and_eq_true,
      decide_eq_true_eq] at isCurrent
    have keyed : key = other.scoreKey c := by
      have filed := indexed.filed _ member
      apply ofLex.injective
      refine Prod.ext isCurrent.2.1.symm (ofLex.injective ?_)
      exact Prod.ext isCurrent.2.2.symm filed
    subst keyed
    have latest := SortedDict.mem_unique member (indexed.listed c other held)
    cases latest
    -- an entry that is not current for its score alone has nan in its key, and is not before any other
    have stays : ∀ x y, s.freeTable.get? x = some y → (y.scoreKey x, x, y.contentHash) ∈
        (s.sortedDict.dropWhile fun item => !current s.freeTable item).items := by
      intro x y kept
      by_cases nan : y.score = .nan
      · refine SortedDict.mem_dropWhile_of_le (indexed.listed x y kept) member fails ?_
        refine (Prod.Lex.toLex_lt_toLex.mpr (Or.inl ?_)).le
        rw [nan]
        exact lt_top_iff_ne_top.mpr isCurrent.1
      · exact SortedDict.mem_dropWhile (indexed.listed x y kept) (by simp [current, kept, nan, BlockMetaData.scoreKey])
    refine ⟨c, other, _, held, by simp only [peekValidCandidate, get_bind, set_bind, pure_apply, first]; rfl,
      ⟨stays, ?_⟩, ?_⟩
    · exact fun item kept => indexed.filed item (SortedDict.mem_of_mem_dropWhile kept)
    · exact fun x y kept => SortedDict.first?_le first (stays x y kept)

/-- Enough rounds are left for the RRIP blocks to reach the greatest RRPV. -/
def Aged (rounds : ℕ) (s : LRUMLEvictor) : Prop :=
  ∀ b block, s.freeTable.get? b = some block → getPolicy s.scheduler block.cacheHint = .rrip →
    rripMaxRrpv ≤ rrpv s b + rounds

variable {rounds : ℕ}

theorem selectVictim_peeked (none : s.toDeleteBlocks = [])
    (resident : s.freeTable.get? b = some block)
    (peeked : peekValidCandidate s =
      .ok (some (b, block.contentHash)) { s with sortedDict := d }) :
    selectVictim (rounds + 1) s =
      if getPolicy s.scheduler block.cacheHint = .rrip ∧ rrpv s b < rripMaxRrpv then
        (do ageRripBlocks; selectVictim rounds) { s with sortedDict := d }
      else (do removeFromSortedDict b; return (b, block.contentHash)) { s with sortedDict := d } := by
  conv_lhs => rw [selectVictim, get_bind, none]
  simp only [bind_of_ok peeked, resident, Option.bind_some, rrpv]
  exact ite_apply _ _ _ _

/-- Without records to take first, the search ends at a resident block under its present hash. -/
theorem selectVictim_candidate (inv : Inv s)
    (none : s.toDeleteBlocks = []) (comparable : Comparable s) (aged : Aged rounds s) :
    ∃ b block u, selectVictim (rounds + 1) s = .ok (b, block.contentHash) u ∧
      s.freeTable.get? b = some block ∧ Searched s u ∧
      Indexed (u.freeTable.erase b) u.sortedDict := by
  induction rounds generalizing s with
  | zero =>
    obtain ⟨b, block, d, resident, peeked, indexed, -⟩ :=
      peekValidCandidate_ok inv.indexed comparable
    rw [selectVictim_peeked none resident peeked, if_neg]
    · exact ⟨b, block, _, bind_of_ok (removeFromSortedDict_ok indexed resident), resident,
        ⟨.refl _, rfl, rfl⟩, indexed_erase indexed b block⟩
    · rintro ⟨rrip, young⟩
      exact absurd (aged b block resident rrip) (not_le.mpr young)
  | succ rounds ih =>
    obtain ⟨b, block, d, resident, peeked, indexed, -⟩ :=
      peekValidCandidate_ok inv.indexed comparable
    have peekedInv : Inv { s with sortedDict := d } := ⟨indexed, inv.scorable, inv.bound⟩
    rw [selectVictim_peeked none resident peeked]
    split
    · rename_i young
      -- one more round of ageing, and one less is needed
      obtain ⟨t, ageing, searched, agedInv, records, older⟩ := ageRripBlocks_ok peekedInv
      obtain ⟨held, again, same⟩ := searched.rescored.symm.resident resident
      have rrip : getPolicy t.scheduler held.cacheHint = .rrip := by
        rw [searched.scheduler, (unscored_fields same).2.2]
        exact young.1
      have stillComparable : Comparable t := ⟨b, held, again, (older b held again rrip).1⟩
      obtain ⟨c, other, u, selected, found, again, left⟩ := ih agedInv (records.trans none)
        stillComparable fun x y kept rrip => by
          have enough := (older x y kept rrip).2
          obtain ⟨held, old, same⟩ := searched.rescored.resident kept
          rw [searched.scheduler, ← (unscored_fields same).2.2] at rrip
          have before := aged x held old rrip
          have same : rrpv { s with sortedDict := d } x = rrpv s x := rfl
          omega
      obtain ⟨held, old, same⟩ := searched.rescored.resident found
      have before : Searched s t := ⟨searched.rescored, searched.scheduler, searched.firstAccess⟩
      refine ⟨c, held, u, ?_, old, before.trans again, left⟩
      rw [bind_of_ok ageing, (unscored_fields same).1, selected]
    · exact ⟨b, block, _, bind_of_ok (removeFromSortedDict_ok indexed resident), resident,
        ⟨.refl _, rfl, rfl⟩, indexed_erase indexed b block⟩

/-- The newest record about a resident block, if there is one, carries its present hash. -/
def RecordCurrent (s : LRUMLEvictor) : Prop :=
  ∀ record, s.toDeleteBlocks.find? (recordValid s.freeTable) = some record →
    ∀ block, s.freeTable.get? record.1 = some block → block.contentHash = record.2.1

theorem selectVictim_ok (inv : Inv s) (comparable : Comparable s) (aged : Aged rounds s) :
    ∃ b hash block u, selectVictim (s.toDeleteBlocks.length + rounds + 1) s = .ok (b, hash) u ∧
      s.freeTable.get? b = some block ∧ (block.contentHash = hash ↔ RecordCurrent s) ∧
      Searched s u ∧ Indexed (u.freeTable.erase b) u.sortedDict := by
  induction records : s.toDeleteBlocks generalizing s with
  | nil =>
    obtain ⟨b, block, u, selected, resident, searched, indexed⟩ :=
      selectVictim_candidate inv records comparable aged
    refine ⟨b, _, block, u, by simpa using selected, resident, ⟨fun _ => ?_, fun _ => rfl⟩, searched,
      indexed⟩
    intro record found
    rw [records] at found
    cases found
  | cons record rest ih =>
    have unfolded : selectVictim ((record :: rest).length + rounds + 1) s =
        (if recordValid s.freeTable record then pure (record.1, record.2.1)
          else selectVictim (rest.length + rounds + 1)) { s with toDeleteBlocks := rest } := by
      conv_lhs => rw [selectVictim, get_bind, records]
      simp only [set_bind, List.length_cons, Nat.add_right_comm _ 1 rounds]
    rw [unfolded]
    cases valid : recordValid s.freeTable record with
    | true =>
      simp only [recordValid] at valid
      cases resident : s.freeTable.get? record.1 with
      | none => simp [resident] at valid
      | some block =>
        refine ⟨record.1, record.2.1, block, _, rfl, resident, ?_, ⟨.refl _, rfl, rfl⟩,
          indexed_erase_stale inv.indexed _⟩
        have taken : s.toDeleteBlocks.find? (recordValid s.freeTable) = some record := by
          rw [records, List.find?_cons_of_pos]
          simpa [recordValid, resident] using valid
        refine ⟨fun same other found held resident' => ?_, fun fresh => fresh record taken block resident⟩
        rw [taken] at found
        cases found
        rw [resident] at resident'
        cases resident'
        exact same
    | false =>
      have popped : Inv { s with toDeleteBlocks := rest } := ⟨inv.indexed, inv.scorable, inv.bound⟩
      obtain ⟨b, hash, block, u, selected, resident, fresh, searched, indexed⟩ :=
        ih popped comparable aged rfl
      refine ⟨b, hash, block, u, by simpa using selected, resident, fresh.trans ?_,
        ⟨searched.rescored, searched.scheduler, searched.firstAccess⟩, indexed⟩
      simp [RecordCurrent, records, valid]

/-! ### Records of `to_delete_blocks` -/

theorem selectVictim_invalid (rounds : ℕ)
    (invalid : ∀ record ∈ s.toDeleteBlocks, recordValid s.freeTable record = false) :
    selectVictim (s.toDeleteBlocks.length + rounds) s =
      selectVictim rounds { s with toDeleteBlocks := [] } := by
  induction records : s.toDeleteBlocks generalizing s with
  | nil =>
    rw [List.length_nil, Nat.zero_add]
    congr 1
    rw [← records]
  | cons record rest ih =>
    rw [records] at invalid
    rw [List.length_cons, Nat.add_right_comm, selectVictim, get_bind, records]
    simp only [set_bind, invalid record List.mem_cons_self, Bool.false_eq_true, ↓reduceIte]
    exact ih (s := { s with toDeleteBlocks := rest })
      (fun other later => invalid other (List.mem_cons_of_mem _ later)) rfl

variable {record : BlockId × PrefixHash × Time}

theorem selectVictim_valid (rounds : ℕ)
    (newest : s.toDeleteBlocks.find? (recordValid s.freeTable) = some record) :
    ∃ rest, selectVictim (s.toDeleteBlocks.length + rounds) s =
      .ok (record.1, record.2.1) { s with toDeleteBlocks := rest } := by
  induction records : s.toDeleteBlocks generalizing s with
  | nil =>
    rw [records] at newest
    cases newest
  | cons first rest ih =>
    rw [records, List.find?_cons] at newest
    rw [List.length_cons, Nat.add_right_comm, selectVictim, get_bind, records]
    simp only [set_bind]
    cases valid : recordValid s.freeTable first with
    | true =>
      rw [valid] at newest
      cases newest
      exact ⟨rest, by simp⟩
    | false =>
      rw [valid] at newest
      exact ih (s := { s with toDeleteBlocks := rest }) newest rfl

/-! ### Evicting -/

omit [Numpy] in
theorem takeOut_ok (resident : u.freeTable.get? b = some block) :
    takeOut b u = .ok () (takenOut b (getPolicy u.scheduler block.cacheHint) u) := by
  simp [takeOut, resident]

omit [Numpy] in
theorem erase_inv {t : LRUMLEvictor} (table : t.freeTable = u.freeTable.erase b)
    (first : t.idToFirstAccess = u.idToFirstAccess.erase b) (scheduler : t.scheduler = u.scheduler)
    (indexed : Indexed (u.freeTable.erase b) t.sortedDict)
    (scorable : ∀ c block, u.freeTable.get? c = some block →
      Scorable u.scheduler u.idToFirstAccess c block.cacheHint)
    (bound : u.scheduler.enabled = true → ∀ c block, u.freeTable.get? c = some block →
      Bound block.cacheHint) : Inv t := by
  refine ⟨by rwa [table], ?_, ?_⟩
  · intro c block found
    rw [table, Dict.get?_erase] at found
    split at found
    · cases found
    · rename_i different
      rw [first, scheduler]
      refine scorable_mono (fun present => ?_) (scorable c block found)
      rwa [Dict.get?_erase_ne different]
  · intro enabled c block found
    rw [table, Dict.get?_erase] at found
    split at found
    · cases found
    · exact bound (scheduler ▸ enabled) c block found

omit [Numpy] in
theorem evictPdp_ok (inv : Inv s) (nonempty : s.freeTable.size ≠ 0) :
    ∃ b block t, evictPdp s = .ok (b, block.contentHash) t ∧ s.freeTable.get? b = some block ∧
      t.freeTable = s.freeTable.erase b ∧ Inv t := by
  cases least : s.freeTable.items.argmin fun item => pdpVictimKey s item.1 item.2 with
  | none =>
    rw [List.argmin_eq_none] at least
    exact (nonempty (by simp [Dict.size, least])).elim
  | some item =>
    obtain ⟨b, block⟩ := item
    have resident := Dict.mem_items_iff.mp (List.argmin_mem least)
    have removed := removeFromSortedDict_ok inv.indexed resident
    let found := { s with sortedDict := s.sortedDict.erase (block.scoreKey b) }
    refine ⟨b, block, takeOutPdp b block.contentHash found, ?_, resident, rfl, ?_⟩
    · rw [evictPdp, get_bind, least]
      exact bind_of_ok removed
    · exact erase_inv (u := s) rfl rfl rfl (indexed_erase inv.indexed b block) inv.scorable
        inv.bound

omit [Numpy] in
theorem samplePolicy_some (nonempty : s.freeTable.size ≠ 0) :
    ∃ policy, samplePolicy s = some policy := by
  cases listed : s.freeTable.items with
  | nil => exact (nonempty (by simp [Dict.size, listed])).elim
  | cons item rest => exact ⟨_, by simp [samplePolicy, Dict.values, listed]; rfl⟩

omit [Numpy] in
theorem samplePolicy_none (empty : s.freeTable.size = 0) : samplePolicy s = none := by
  have listed : s.freeTable.items = [] := List.length_eq_zero_iff.mp empty
  simp [samplePolicy, Dict.values, listed]

theorem evict_empty (empty : s.freeTable.size = 0) : evict s = .error noUsableMemory s := by
  simp [evict, samplePolicy_none empty]

theorem evict_search {policy : Policy} (sampled : samplePolicy s = some policy)
    (other : policy ≠ .pdp) : evict s = (do
      let victim ← selectVictim (s.toDeleteBlocks.length + rripMaxRrpv + 1)
      takeOut victim.1
      return victim) s := by
  cases policy with
  | pdp => exact (other rfl).elim
  | _ => rw [evict, get_bind, sampled]

theorem evict_recorded (other : samplePolicy s ≠ some .pdp)
    (newest : s.toDeleteBlocks.find? (recordValid s.freeTable) = some record)
    (resident : s.freeTable.get? record.1 = some block) :
    ∃ rest, evict s = .ok (record.1, record.2.1) (takenOut record.1
      (getPolicy s.scheduler block.cacheHint) { s with toDeleteBlocks := rest }) := by
  obtain ⟨policy, sampled⟩ := samplePolicy_some (Dict.size_pos_of_get? resident).ne'
  obtain ⟨rest, selected⟩ := selectVictim_valid (rripMaxRrpv + 1) newest
  refine ⟨rest, ?_⟩
  rw [evict_search sampled fun pdp => other (pdp ▸ sampled), Nat.add_assoc, bind_of_ok selected]
  exact bind_of_ok (takeOut_ok (u := { s with toDeleteBlocks := rest }) resident)

/-- The content hash `evict` returns is the present one. -/
def HashCurrent (s : LRUMLEvictor) : Prop := samplePolicy s = some .pdp ∨ RecordCurrent s

omit [Numpy] in
/-- No resident block's score is nan. -/
def Numeric (s : LRUMLEvictor) : Prop := ∀ b block, s.freeTable.get? b = some block → block.score ≠ .nan

omit [Numpy] in
theorem Numeric.comparable (numeric : Numeric s) (nonempty : s.freeTable.size ≠ 0) :
    Comparable s := by
  by_contra none
  refine nonempty (Dict.size_eq_zero_iff.mpr fun b => Option.eq_none_iff_forall_ne_some.mpr fun block found => ?_)
  exact none ⟨b, block, found, numeric b block found⟩

theorem evict_ok (inv : Inv s) (numeric : Numeric s) (nonempty : s.freeTable.size ≠ 0) :
    ∃ b hash block t, evict s = .ok (b, hash) t ∧ s.freeTable.get? b = some block ∧
      (block.contentHash = hash ↔ HashCurrent s) ∧
      Rescored (s.freeTable.erase b) t.freeTable ∧ Inv t := by
  obtain ⟨policy, sampled⟩ := samplePolicy_some nonempty
  by_cases pdp : policy = .pdp
  · subst pdp
    obtain ⟨b, block, t, evicted, resident, table, left⟩ := evictPdp_ok inv nonempty
    refine ⟨b, block.contentHash, block, t, ?_, resident, by simp [HashCurrent, sampled], ?_, left⟩
    · rw [evict, get_bind, sampled]
      exact evicted
    · rw [table]
      exact .refl _
  · have aged : Aged rripMaxRrpv s := fun b block _ _ => Nat.le_add_left _ _
    obtain ⟨b, hash, block, u, selected, resident, fresh, searched, indexed⟩ :=
      selectVictim_ok inv (numeric.comparable nonempty) aged
    obtain ⟨held, found, -⟩ := searched.rescored.symm.resident resident
    refine ⟨b, hash, block, takenOut b (getPolicy u.scheduler held.cacheHint) u, ?_, resident,
      ?_, ?_, ?_⟩
    · rw [evict_search sampled pdp, bind_of_ok selected]
      exact bind_of_ok (takeOut_ok found)
    · simp [HashCurrent, sampled, pdp, fresh]
    · exact searched.rescored.erase b
    · refine erase_inv (u := u) rfl rfl rfl indexed ?_ ?_
      · rw [searched.scheduler, searched.firstAccess]
        exact scorable_rescored searched.rescored inv.scorable
      · rw [searched.scheduler]
        exact fun enabled => bound_rescored searched.rescored (inv.bound enabled)

end Vllm.Evictor.LRUMLEvictor
