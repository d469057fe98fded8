import VllmProofs.Evictor.LruMlResidue

/-!
When `LRUMLEvictor.add` returns. It looks the hint up while it writes, and now and then it goes
through all resident blocks, so one missing key is enough for it to raise halfway.
-/

namespace Vllm.Evictor.LRUMLEvictor
open Exec

def scoreReads (scheduler : EvictionPolicyScheduler) (hint : Option CacheHint) : ℕ :=
  if getPolicy scheduler hint = .ml ∧ (hint.bind CacheHint.probHasNext).isSome then 1 else 0

/-- Does `add` refresh, after it has scored a block with this hint? -/
def RefreshDue (s : LRUMLEvictor) (hint : Option CacheHint) : Prop :=
  inspectInterval < s.clock.readings (s.clock.reads + scoreReads s.scheduler hint) - s.lastRefreshTime

/-- `_refresh` finds what it looks up about a resident block. -/
def Refreshable (s : LRUMLEvictor) (lastAccesses : Dict ℤ Time) (b : BlockId) (block : BlockMetaData) :
    Prop :=
  Scorable s.scheduler s.idToFirstAccess b block.cacheHint ∧
    ∃ id, block.cacheHint.bind CacheHint.id = some id ∧
      (getPolicy s.scheduler block.cacheHint = .rrip ∨ getPolicy s.scheduler block.cacheHint = .pdp ∨
        (lastAccesses.get? id).isSome)

/-- The hint has an id and what its policy scores by, and no other resident block stops a refresh
that is due. -/
def Addable (s : LRUMLEvictor) (b : BlockId) (lastAccessed : Time) (hint : Option CacheHint) : Prop :=
  ∃ id, hint.bind CacheHint.id = some id ∧
    Scorable s.scheduler (s.idToFirstAccess.insert b lastAccessed) b hint ∧
    (RefreshDue s hint → ∀ c block, c ≠ b → s.freeTable.get? c = some block →
      Refreshable s (s.idToLastAccess.insert id lastAccessed) c block)

variable {hint : Option CacheHint} {lastAccessed : Time}

section
variable {s t u : LRUMLEvictor} {b : BlockId}

/-! ### The steps of a refresh -/

theorem recordLastAccess_of_id {id : ℤ}
    (named : hint.bind CacheHint.id = some id) : recordLastAccess hint lastAccessed s =
      .ok () { s with idToLastAccess := s.idToLastAccess.insert id lastAccessed } := by
  obtain ⟨own, rfl, found⟩ := Option.bind_eq_some_iff.mp named
  simp only [recordLastAccess, found]
  rfl

theorem recordLastAccess_raises
    (unnamed : hint.bind CacheHint.id = none) : ∃ e, recordLastAccess hint lastAccessed s = .error e s := by
  cases hint with
  | none => exact ⟨.typeError, rfl⟩
  | some own =>
    have unnamed : own.id = none := unnamed
    exact ⟨.keyError, by simp [recordLastAccess, unnamed]⟩

variable {items : List (BlockId × BlockMetaData)}

theorem survivalList_returns_iff : (∃ survival, survivalList items s = .ok survival s) ↔
      ∀ item ∈ items, (item.2.cacheHint.bind CacheHint.id).isSome := by
  induction items with
  | nil => simp [survivalList]
  | cons item rest ih =>
    obtain ⟨b, block⟩ := item
    rw [List.forall_mem_cons, ← ih]
    cases hinted : block.cacheHint with
    | none => simp [survivalList, hinted]
    | some hint =>
      cases named : hint.id with
      | none => simp [survivalList, hinted, named]
      | some id =>
        simp only [survivalList, hinted, named, Option.bind_some, Option.isSome_some, true_and]
        constructor
        · rintro ⟨survival, call⟩
          obtain ⟨others, v, each, -⟩ := bind_ok call
          obtain rfl := survivalList_ok each
          exact ⟨others, each⟩
        · rintro ⟨others, each⟩
          exact ⟨(b, id, block.lastAccessed) :: others, bind_of_ok each⟩

variable {survival : List (BlockId × ℤ × Time)}

theorem mem_survivalList
    (call : survivalList items s = .ok survival u) {b : BlockId} {id : ℤ} {last : Time} :
    (b, id, last) ∈ survival ↔ ∃ block, (b, block) ∈ items ∧
      block.cacheHint.bind CacheHint.id = some id ∧ block.lastAccessed = last := by
  induction items generalizing survival u with
  | nil =>
    rw [← (pure_ok call).1]
    simp
  | cons item rest ih =>
    obtain ⟨c, block⟩ := item
    cases hinted : block.cacheHint with
    | none => simp [survivalList, hinted] at call
    | some hint =>
      cases named : hint.id with
      | none => simp [survivalList, hinted, named] at call
      | some own =>
        simp only [survivalList, hinted, named] at call
        obtain ⟨others, v, each, call⟩ := bind_ok call
        rw [← (pure_ok call).1, List.mem_cons, ih each]
        constructor
        · rintro (same | ⟨other, member, rest⟩)
          · cases same
            exact ⟨block, List.mem_cons_self, by simp [hinted, named], rfl⟩
          · exact ⟨other, List.mem_cons_of_mem _ member, rest⟩
        · rintro ⟨other, member, same, last⟩
          rcases List.mem_cons.mp member with first | later
          · cases first
            rw [hinted, Option.bind_some, named] at same
            cases same
            exact .inl (by rw [last])
          · exact .inr ⟨other, later, same, last⟩

theorem markOutdated_returns_iff :
    (∃ u, markOutdated survival s = .ok () u) ↔ ∀ item ∈ survival, ∃ block,
      s.freeTable.get? item.1 = some block ∧
        (getPolicy s.scheduler block.cacheHint = .rrip ∨ getPolicy s.scheduler block.cacheHint = .pdp ∨
          (s.idToLastAccess.get? item.2.1).isSome) := by
  induction survival generalizing s with
  | nil => simp [markOutdated]
  | cons item rest ih =>
    obtain ⟨b, id, last⟩ := item
    rw [List.forall_mem_cons, markOutdated, get_bind]
    cases found : s.freeTable.get? b with
    | none => simp
    | some block =>
      simp only [Option.some.injEq, exists_eq_left']
      split
      · rename_i spared
        rw [ih, iff_and_self]
        exact fun _ => spared.imp_right .inl
      · rename_i kept
        obtain ⟨rrip, pdp⟩ := not_or.mp kept
        cases recorded : s.idToLastAccess.get? id with
        | none => simp [rrip, pdp]
        | some access =>
          simp only [set_bind, Option.isSome_some, or_true, true_and]
          rw [ih]
          split <;> rfl

end

variable [Numpy] {s t u : LRUMLEvictor} {b : BlockId}

theorem refresh_returns_iff : (∃ u, refresh s = .ok () u) ↔
    ∀ c block, s.freeTable.get? c = some block → Refreshable s s.idToLastAccess c block := by
  constructor
  · rintro ⟨u, call⟩ c block found
    obtain ⟨_, v, rebuilt, call⟩ := bind_ok call
    obtain ⟨scorable, table, d, clock, rfl, rescored, -⟩ := rebuildSortedDict_ok rebuilt
    obtain ⟨now, w, timed, call⟩ := bind_ok call
    obtain ⟨rfl, rfl⟩ := ml_time_ok timed
    rw [modify_bind, get_bind] at call
    obtain ⟨survival, x, listed, call⟩ := bind_ok call
    obtain rfl := survivalList_ok listed
    obtain ⟨held, resident, same⟩ := rescored.symm.resident found
    have hint := (unscored_fields same).2.2
    have member : (c, held) ∈ table.items := Dict.mem_items_iff.mpr resident
    obtain ⟨own, named⟩ := Option.isSome_iff_exists.mp
      (survivalList_returns_iff.mp ⟨survival, listed⟩ (c, held) member)
    have survives := (mem_survivalList listed).mpr ⟨held, member, named, rfl⟩
    obtain ⟨again, resident', recorded⟩ := markOutdated_returns_iff.mp ⟨u, call⟩ _
      ((List.perm_insertionSort _ survival).mem_iff.mpr survives)
    obtain rfl := Option.some.inj (resident.symm.trans resident')
    rw [hint] at named recorded
    exact ⟨scorable c block found, own, named, recorded⟩
  · intro each
    obtain ⟨v, rebuilt⟩ := rebuildSortedDict_total (s := s) fun c block found => (each c block found).1
    obtain ⟨-, table, d, clock, rfl, rescored, -⟩ := rebuildSortedDict_ok rebuilt
    rw [refresh, bind_of_ok rebuilt, bind_of_ok (by rfl : time _ = _), modify_bind, get_bind]
    have listable : ∀ item ∈ table.items, (item.2.cacheHint.bind CacheHint.id).isSome := by
      rintro ⟨c, held⟩ member
      obtain ⟨block, found, same⟩ := rescored.resident (Dict.mem_items_iff.mp member)
      obtain ⟨-, own, named, -⟩ := each c block found
      rw [← (unscored_fields same).2.2, named]
      rfl
    obtain ⟨survival, listed⟩ := survivalList_returns_iff.mpr listable
    rw [bind_of_ok listed]
    refine markOutdated_returns_iff.mpr fun item member => ?_
    obtain ⟨held, resident, named, -⟩ :=
      (mem_survivalList listed).mp ((List.perm_insertionSort _ survival).mem_iff.mp member)
    obtain ⟨block, found, same⟩ := rescored.resident (Dict.mem_items_iff.mp resident)
    obtain ⟨-, own, named', recorded⟩ := each _ block found
    have hint := (unscored_fields same).2.2
    rw [hint, named] at named'
    obtain rfl := Option.some.inj named'
    exact ⟨held, Dict.mem_items_iff.mp resident, by rw [← hint]; exact recorded⟩

theorem refreshIfDue_returns_iff : (∃ u, refreshIfDue s = .ok () u) ↔
    (inspectInterval < s.clock.readings s.clock.reads - s.lastRefreshTime →
      ∀ c block, s.freeTable.get? c = some block → Refreshable s s.idToLastAccess c block) := by
  rw [refreshIfDue, bind_of_ok (by rfl : time _ = _), get_bind]
  split
  · rename_i due
    exact refresh_returns_iff.trans ⟨fun each _ => each, fun each => each due⟩
  · rename_i recent
    exact iff_of_true ⟨_, rfl⟩ fun due => absurd due recent

/-! ### The steps of `add` -/

omit [Numpy] in
theorem scorable_congr {scheduler : EvictionPolicyScheduler} {first first' : Dict BlockId Time} (same : (first.get? b).isSome = (first'.get? b).isSome) :
    Scorable scheduler first b hint ↔ Scorable scheduler first' b hint :=
  ⟨scorable_mono fun known => same ▸ known, scorable_mono fun known => same.symm ▸ known⟩

/-- `calc_score` reads the clock for a probability only. -/
theorem calcScore_reads {score : Score} (call : calcScore b lastAccessed hint s = .ok score u) :
    ∃ sawNan, u = { s with
      clock := { s.clock with reads := s.clock.reads + scoreReads s.scheduler hint, sawNan } } := by
  rw [calcScore, get_bind] at call
  unfold scoreReads
  cases policy : getPolicy s.scheduler hint <;> simp only [policy] at call
  case rrip | lru | pdp => cases call; exact ⟨_, rfl⟩
  case fifo =>
    cases found : s.idToFirstAccess.get? b <;> simp only [found] at call <;> cases call
    exact ⟨_, rfl⟩
  case belady =>
    cases found : hint.bind CacheHint.nextTimestamp <;> simp only [found] at call <;> cases call
    exact ⟨_, rfl⟩
  case ml =>
    cases prob : hint.bind CacheHint.probHasNext with
    | none =>
      simp only [prob] at call
      cases call
      exact ⟨_, rfl⟩
    | some probHasNext =>
      simp only [prob] at call
      cases scale : hint.bind CacheHint.expScale <;> simp only [scale] at call
      · cases call
      · obtain ⟨now, v, read, call⟩ := bind_ok call
        cases read
        rw [noted_ok] at call
        cases call
        exact ⟨_, rfl⟩

omit [Numpy] in
theorem scorable_bind {hint' : Option CacheHint} {first : Dict BlockId Time}
    (call : bindSchedulerPolicy s.scheduler hint s = .ok hint' u) :
    Scorable s.scheduler first b hint' ↔ Scorable s.scheduler first b hint := by
  unfold Scorable
  rw [(getPolicy_bind call).2, bindSchedulerPolicy_fields call _ fun _ _ => rfl,
    bindSchedulerPolicy_fields call CacheHint.probHasNext fun _ _ => rfl,
    bindSchedulerPolicy_fields call CacheHint.expScale fun _ _ => rfl]

omit [Numpy] in
theorem refreshable_congr {lasts : Dict ℤ Time} {block : BlockMetaData}
    (scheduler : t.scheduler = s.scheduler)
    (first : (t.idToFirstAccess.get? b).isSome = (s.idToFirstAccess.get? b).isSome) :
    Refreshable t lasts b block ↔ Refreshable s lasts b block := by
  unfold Refreshable
  rw [scheduler, scorable_congr first]

omit [Numpy] in
theorem prepare_rest (b : BlockId) (h : PrefixHash) (t : Time) (policy : Policy) (s : LRUMLEvictor) :
    (prepare b h t policy s).clock = s.clock ∧
    (prepare b h t policy s).idToLastAccess = s.idToLastAccess ∧
    (prepare b h t policy s).lastRefreshTime = s.lastRefreshTime := by
  unfold prepare seedFirstAccess seedPdp seedRrip
  split_ifs <;> exact ⟨rfl, rfl, rfl⟩

omit [Numpy] in
theorem prepare_firstAccess_isSome (b : BlockId) (h : PrefixHash) (t : Time) (policy : Policy)
    (s : LRUMLEvictor) (c : BlockId) :
    ((prepare b h t policy s).idToFirstAccess.get? c).isSome =
      ((s.idToFirstAccess.insert b t).get? c).isSome := by
  have same : (seedPdp b h policy (seedRrip b policy s)).idToFirstAccess = s.idToFirstAccess := by
    unfold seedPdp seedRrip
    split_ifs <;> rfl
  simp only [prepare, seedFirstAccess, same]
  split
  · rename_i known
    rw [same, Dict.get?_insert]
    split
    · rename_i here
      rw [here]
      exact known
    · rfl
  · rfl

/-- `add` returns just when nothing it looks up is missing. -/
theorem add_returns_iff {h : PrefixHash} {n : ℕ} :
    (∃ u, add b h n lastAccessed hint s = .ok () u) ↔ Addable s b lastAccessed hint := by
  rw [add, get_bind]
  cases binding : bindSchedulerPolicy s.scheduler hint s with
  | error e u =>
    refine iff_of_false ?_ ?_
    · rintro ⟨v, call⟩
      rw [bind_of_error binding] at call
      cases call
    · rintro ⟨id, named, -⟩
      cases hint with
      | none => cases named
      | some own =>
        unfold bindSchedulerPolicy at binding
        split at binding
        · cases binding
        · cases own : own.ownPolicy <;> simp only [own] at binding <;> cases binding
  | ok hint' u =>
    obtain ⟨rfl, policy⟩ := getPolicy_bind binding
    rw [bind_of_ok binding, modify_bind, policy]
    obtain ⟨table, -, scheduler⟩ := prepare_frame b h lastAccessed (getPolicy u.scheduler hint) u
    obtain ⟨clock, lasts, refreshed⟩ := prepare_rest b h lastAccessed (getPolicy u.scheduler hint) u
    have first := prepare_firstAccess_isSome b h lastAccessed (getPolicy u.scheduler hint) u
    generalize prepare b h lastAccessed (getPolicy u.scheduler hint) u = w
      at table scheduler clock lasts refreshed first ⊢
    have scorable : Scorable w.scheduler w.idToFirstAccess b hint' ↔
        Scorable u.scheduler (u.idToFirstAccess.insert b lastAccessed) b hint := by
      rw [scheduler, scorable_congr (first b)]
      exact scorable_bind binding
    have named := bindSchedulerPolicy_fields binding CacheHint.id fun _ _ => rfl
    have reads : scoreReads w.scheduler hint' = scoreReads u.scheduler hint := by
      unfold scoreReads
      rw [scheduler, policy, bindSchedulerPolicy_fields binding CacheHint.probHasNext fun _ _ => rfl]
    by_cases rated : Scorable w.scheduler w.idToFirstAccess b hint'
    · obtain ⟨score, clock', scored⟩ := calcScore_total (t := lastAccessed) rated
      obtain ⟨sawNan, moved⟩ := calcScore_reads scored
      rw [bind_of_ok scored, moved, modify_bind, reads]
      cases id : hint.bind CacheHint.id with
      | none =>
        refine iff_of_false ?_ ?_
        · rintro ⟨v, call⟩
          obtain ⟨e, raised⟩ := recordLastAccess_raises (named.trans id)
          rw [bind_of_error raised] at call
          cases call
        · rintro ⟨id', found, -⟩
          rw [id] at found
          cases found
      | some id' =>
        rw [bind_of_ok (recordLastAccess_of_id (named.trans id)), refreshIfDue_returns_iff]
        simp only [insertBlock, table, clock, lasts, refreshed]
        constructor
        · intro each
          refine ⟨id', id, scorable.mp rated, fun due c block other found => ?_⟩
          have first := (first c).trans (by rw [Dict.get?_insert_ne other])
          exact (refreshable_congr scheduler first).mp
            (each due c block (by rw [Dict.get?_insert_ne other]; exact found))
        · rintro ⟨id'', found, -, each⟩ due c block resident
          obtain rfl := Option.some.inj (id.symm.trans found)
          rw [Dict.get?_insert] at resident
          split at resident
          · rename_i here
            obtain rfl := here
            cases resident
            exact ⟨rated, id', named.trans id, .inr (.inr (by simp))⟩
          · rename_i other
            have first := (first c).trans (by rw [Dict.get?_insert_ne other])
            exact (refreshable_congr scheduler first).mpr (each due c block other resident)
    · refine iff_of_false ?_ ?_
      · rintro ⟨v, call⟩
        rw [bind_of_error (calcScore_unscorable rated)] at call
        cases call
      · rintro ⟨_, _, enough, -⟩
        exact rated (scorable.mpr enough)

end Vllm.Evictor.LRUMLEvictor
