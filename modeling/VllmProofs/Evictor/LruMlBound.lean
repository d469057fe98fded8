import VllmProofs.Evictor.LruMlNan
import VllmProofs.Evictor.SchedulerRuns

/-!
`LRUMLEvictor` under its scheduler, as long as no hint names a policy of its own. Every resident
block follows the scheduler's present policy, its score is the one `calc_score` gave it when it was
last scored, and the policy `evict` samples is the policy of all blocks.
-/

namespace Vllm.Evictor.LRUMLEvictor
open Exec

/-! ### What a score is made of -/

structure SameInputs (b : BlockId) (s t : LRUMLEvictor) : Prop where
  scheduler : t.scheduler = s.scheduler
  rrip : t.rripValues.get? b = s.rripValues.get? b
  firstAccess : t.idToFirstAccess.get? b = s.idToFirstAccess.get? b
  epoch : t.pdpRequestEpoch = s.pdpRequestEpoch
  protectedUntil : t.pdpProtectedUntilEpoch.get? b = s.pdpProtectedUntilEpoch.get? b
  lastAccess : t.pdpLastAccessEpoch.get? b = s.pdpLastAccessEpoch.get? b
  reused : t.pdpReused.get? b = s.pdpReused.get? b

theorem SameInputs.refl (b : BlockId) (s : LRUMLEvictor) : SameInputs b s s :=
  ⟨rfl, rfl, rfl, rfl, rfl, rfl, rfl⟩

/-- The evictor when `n` readings of its clock were spent, without a nan. -/
def rewound (s : LRUMLEvictor) (n : ℕ) : LRUMLEvictor := { s with clock := { s.clock with reads := n, sawNan := false } }

variable [Numpy] {b : BlockId} {s t : LRUMLEvictor} {hint : Option CacheHint}

theorem calcScore_same {s' : LRUMLEvictor} {lastAccessed : Time} {score : Score} (same : SameInputs b s t)
    (readings : t.clock.readings = s.clock.readings) (reads : t.clock.reads = s.clock.reads)
    (called : calcScore b lastAccessed hint s = .ok score s') :
    ∃ t', calcScore b lastAccessed hint t = .ok score t' ∧ t'.clock.reads = s'.clock.reads := by
  rw [calcScore, get_bind] at called
  rw [calcScore, get_bind, same.scheduler]
  cases policy : getPolicy s.scheduler hint with
  | rrip =>
    simp only [policy] at called ⊢
    cases called
    exact ⟨t, by rw [same.rrip]; rfl, reads⟩
  | lru =>
    simp only [policy] at called ⊢
    cases called
    exact ⟨t, rfl, reads⟩
  | fifo =>
    simp only [policy] at called ⊢
    rw [same.firstAccess]
    cases found : s.idToFirstAccess.get? b with
    | none => rw [found] at called; cases called
    | some first =>
      rw [found] at called
      cases called
      exact ⟨t, rfl, reads⟩
  | pdp =>
    simp only [policy] at called ⊢
    cases called
    refine ⟨t, ?_, reads⟩
    simp only [pdpScore, same.epoch, same.protectedUntil, same.lastAccess, same.reused]
    rfl
  | belady =>
    simp only [policy] at called ⊢
    cases found : hint.bind CacheHint.nextTimestamp with
    | none => rw [found] at called; cases called
    | some next =>
      rw [found] at called
      cases called
      exact ⟨t, rfl, reads⟩
  | ml =>
    simp only [policy] at called ⊢
    cases prob : hint.bind CacheHint.probHasNext with
    | none =>
      simp only [prob] at called ⊢
      cases called
      exact ⟨t, rfl, reads⟩
    | some probHasNext =>
      simp only [prob] at called ⊢
      cases scale : hint.bind CacheHint.expScale with
      | none => simp only [scale] at called; cases called
      | some expScale =>
        simp only [scale] at called ⊢
        obtain ⟨now, v, timed, called⟩ := bind_ok called
        obtain ⟨rfl, rfl⟩ := ml_time_ok timed
        rw [noted_ok] at called
        cases called
        have ticked : time t = .ok (s.clock.readings s.clock.reads)
            { t with clock := { t.clock with reads := t.clock.reads + 1 } } := by
          rw [← readings, ← reads]
          rfl
        exact ⟨_, (bind_of_ok ticked).trans (noted_ok _ _), congrArg (· + 1) reads⟩

theorem calcScore_ticks (b : BlockId) (lastAccessed : Time) (hint : Option CacheHint) :
    Keeps (fun s t : LRUMLEvictor => Ticks s.clock t.clock) (calcScore b lastAccessed hint) := by
  refine .bind .get fun s => ?_
  split
  · exact .pure _
  · exact .pure _
  · split
    · exact .pure _
    · exact .throw _
  · exact .pure _
  · split
    · exact .pure _
    · exact .throw _
  · split
    · exact .pure _
    · split
      · exact .throw _
      · refine .bind ml_time_ticks fun _ => ?_
        intro s _ t called
        rw [noted_ok] at called
        cases called
        exact ⟨rfl, le_refl _, fun saw => by simp [saw]⟩

/-- The block's score is what `calc_score` returns on readings of the clock from `start` on. -/
def ScoredSince (start : ℕ) (s : LRUMLEvictor) (b : BlockId) (block : BlockMetaData) : Prop :=
  ∃ n u, start ≤ n ∧
    calcScore b block.lastAccessed block.cacheHint (s.rewound n) = .ok block.score u ∧
    u.clock.reads ≤ s.clock.reads

variable {block : BlockMetaData}

theorem ScoredSince.mono {start start' : ℕ} (scored : ScoredSince start s b block) (same : SameInputs b s t)
    (ticks : Ticks s.clock t.clock) (earlier : start' ≤ start) : ScoredSince start' t b block := by
  obtain ⟨n, u, after, called, before⟩ := scored
  have inputs : SameInputs b (s.rewound n) (t.rewound n) := { same with }
  obtain ⟨v, again, spent⟩ := calcScore_same inputs ticks.readings rfl called
  exact ⟨n, v, earlier.trans after, again, by rw [spent]; exact before.trans ticks.reads⟩

variable {u : LRUMLEvictor}

theorem scoredSince_now
    (called : calcScore b block.lastAccessed block.cacheHint s = .ok block.score t)
    (same : SameInputs b s u) (clock : u.clock = t.clock) :
    ScoredSince s.clock.reads u b block := by
  have ticks := calcScore_ticks _ _ _ _ _ _ called
  have inputs : SameInputs b s (u.rewound s.clock.reads) := { same with }
  have readings : u.clock.readings = s.clock.readings := by rw [clock, ticks.readings]
  obtain ⟨v, again, spent⟩ := calcScore_same inputs readings rfl called
  exact ⟨s.clock.reads, v, le_refl _, again, by rw [spent, clock]⟩

/-! ### Scoring every block -/

theorem rebuildEach_scored {items : List (BlockId × BlockMetaData)}
    {d d' : SortedDict ScoreKey (BlockId × PrefixHash)}
    (nodup : (items.map Prod.fst).Nodup) (call : rebuildEach items d s = .ok d' u) :
    Ticks s.clock u.clock ∧ ∀ b ∈ items.map Prod.fst, ∀ block, u.freeTable.get? b = some block →
      ScoredSince s.clock.reads u b block := by
  induction items generalizing d s with
  | nil =>
    obtain ⟨rfl, rfl⟩ := pure_ok call
    exact ⟨.refl _, by simp⟩
  | cons item rest ih =>
    obtain ⟨b, block⟩ := item
    simp only [List.map_cons, List.nodup_cons] at nodup
    obtain ⟨score, v, scored, call⟩ := bind_ok call
    have ticks := calcScore_ticks _ _ _ _ _ _ scored
    obtain ⟨-, clock, rfl⟩ := calcScore_ok scored
    rw [modify_bind] at call
    obtain ⟨later, each⟩ := ih nodup.2 call
    obtain ⟨-, table, clock', rfl, built⟩ := rebuildEach_ok nodup.2 call
    refine ⟨ticks.trans later, ?_⟩
    intro c member other found
    rcases List.mem_cons.mp member with rfl | member
    · have kept := built.others c nodup.1
      rw [Dict.get?_insert_self] at kept
      rw [show table.get? c = some other from found] at kept
      cases kept
      have now : ScoredSince s.clock.reads { s with clock } c { block with score } :=
        scoredSince_now scored ⟨rfl, rfl, rfl, rfl, rfl, rfl, rfl⟩ rfl
      exact now.mono ⟨rfl, rfl, rfl, rfl, rfl, rfl, rfl⟩ later (le_refl _)
    · exact (each c member other found).mono (.refl _ _) (.refl _) ticks.reads

theorem rebuildSortedDict_scored (call : rebuildSortedDict s = .ok () u) :
    Ticks s.clock u.clock ∧ ∀ b block, u.freeTable.get? b = some block →
      ScoredSince s.clock.reads u b block := by
  rw [rebuildSortedDict, get_bind] at call
  obtain ⟨d, v, each, call⟩ := bind_ok call
  cases call
  obtain ⟨ticks, scored⟩ := rebuildEach_scored s.freeTable.nodup each
  obtain ⟨-, table, clock, rfl, built⟩ := rebuildEach_ok s.freeTable.nodup each
  refine ⟨ticks, fun b block found => ?_⟩
  obtain ⟨held, old, -⟩ := (rebuilt_indexed built).1.resident found
  have member : b ∈ s.freeTable.items.map Prod.fst := Dict.mem_keys_iff.mpr ⟨held, old⟩
  exact (scored b member block found).mono ⟨rfl, rfl, rfl, rfl, rfl, rfl, rfl⟩ (.refl _) (le_refl _)

/-! ### The invariant, in the middle of a call -/

omit [Numpy] in
structure Governed (s : LRUMLEvictor) : Prop where
  enabled : s.scheduler.enabled = true
  bound : ∀ b block, s.freeTable.get? b = some block →
    block.cacheHint.bind CacheHint.ownPolicy = some s.scheduler.currentPolicy

omit [Numpy] in
theorem Governed.rescored (governed : Governed s)
    (rescored : Rescored s.freeTable t.freeTable) (scheduler : t.scheduler = s.scheduler) :
    Governed t := by
  refine ⟨by rw [scheduler]; exact governed.enabled, fun b block found => ?_⟩
  obtain ⟨held, old, same⟩ := rescored.resident found
  rw [← (unscored_fields same).2.2, scheduler]
  exact governed.bound b held old

structure Midway (r s : LRUMLEvictor) : Prop where
  ticks : Ticks r.clock s.clock
  governed : Governed s
  scored : ∀ b block, s.freeTable.get? b = some block →
    r.freeTable.get? b = some block ∨ ScoredSince r.clock.reads s b block

variable {r : LRUMLEvictor}

theorem midway_kept (governed : Governed r) (ticks : Ticks r.clock s.clock)
    (enabled : s.scheduler.enabled = r.scheduler.enabled)
    (policy : s.scheduler.currentPolicy = r.scheduler.currentPolicy)
    (kept : ∀ b block, s.freeTable.get? b = some block → r.freeTable.get? b = some block) :
    Midway r s where
  ticks := ticks
  governed := by
    refine ⟨enabled.trans governed.enabled, fun b block found => ?_⟩
    rw [policy]
    exact governed.bound b block (kept b block found)
  scored b block found := .inl (kept b block found)

theorem Midway.frame (midway : Midway r s) (ticks : Ticks s.clock t.clock)
    (scheduler : t.scheduler = s.scheduler)
    (kept : ∀ b block, t.freeTable.get? b = some block →
      s.freeTable.get? b = some block ∧ SameInputs b s t) : Midway r t where
  ticks := midway.ticks.trans ticks
  governed := by
    refine ⟨by rw [scheduler]; exact midway.governed.enabled, fun b block found => ?_⟩
    rw [scheduler]
    exact midway.governed.bound b block (kept b block found).1
  scored b block found := by
    obtain ⟨old, same⟩ := kept b block found
    rcases midway.scored b block old with unchanged | scored
    · exact .inl unchanged
    · exact .inr (scored.mono same ticks (le_refl _))

theorem midway_rebuilt (governed : Governed s) (ticks : Ticks r.clock s.clock)
    (call : rebuildSortedDict s = .ok () u) : Midway r u := by
  obtain ⟨later, scored⟩ := rebuildSortedDict_scored call
  obtain ⟨-, table, d, clock, rfl, rescored, -⟩ := rebuildSortedDict_ok call
  refine ⟨ticks.trans later, governed.rescored rescored rfl, fun b block found => ?_⟩
  exact .inr ((scored b block found).mono (.refl _ _) (.refl _) ticks.reads)

theorem Midway.refreshed (midway : Midway r s) (call : refreshIfDue s = .ok () u) : Midway r u := by
  have later : Midway r { s with clock := { s.clock with reads := s.clock.reads + 1 } } :=
    midway.frame ⟨rfl, Nat.le_succ _, id⟩ rfl
      fun _ _ found => ⟨found, rfl, rfl, rfl, rfl, rfl, rfl, rfl⟩
  rcases refreshIfDue_cases call with rfl | ⟨v, w, survival, records, rebuilt, rfl, -, -, rfl⟩
  · exact later
  · have rebuilt := midway_rebuilt later.governed later.ticks rebuilt
    exact rebuilt.frame ⟨rfl, Nat.le_succ _, id⟩ rfl
      fun _ _ found => ⟨found, rfl, rfl, rfl, rfl, rfl, rfl, rfl⟩

theorem Midway.filed (block : BlockMetaData) (midway : Midway r s) (called : calcScore b block.lastAccessed block.cacheHint s = .ok block.score t)
    (bound : block.cacheHint.bind CacheHint.ownPolicy = some s.scheduler.currentPolicy) :
    Midway r (insertBlock b block t) := by
  have ticks := calcScore_ticks _ _ _ _ _ _ called
  obtain ⟨-, clock, rfl⟩ := calcScore_ok called
  refine ⟨midway.ticks.trans ticks, ⟨midway.governed.enabled, ?_⟩, ?_⟩
  · intro c other found
    simp only [insertBlock, Dict.get?_insert] at found
    split at found
    · cases found
      exact bound
    · exact midway.governed.bound c other found
  · intro c other found
    simp only [insertBlock, Dict.get?_insert] at found
    split at found
    · rename_i same
      cases found
      subst same
      have now : ScoredSince s.clock.reads (insertBlock c block { s with clock }) c block :=
        scoredSince_now called ⟨rfl, rfl, rfl, rfl, rfl, rfl, rfl⟩ rfl
      exact .inr (now.mono (.refl _ _) (.refl _) midway.ticks.reads)
    · rcases midway.scored c other found with unchanged | scored
      · exact .inl unchanged
      · exact .inr (scored.mono ⟨rfl, rfl, rfl, rfl, rfl, rfl, rfl⟩ ticks (le_refl _))

/-! ### One call -/

variable {scheduler : EvictionPolicyScheduler}

omit [Numpy] in
theorem bindSchedulerPolicy_bound {hint' : Option CacheHint} (enabled : scheduler.enabled = true)
    (unbound : ∀ own ∈ hint, own.ownPolicy = none)
    (call : bindSchedulerPolicy scheduler hint s = .ok hint' u) :
    u = s ∧ hint'.bind CacheHint.ownPolicy = some scheduler.currentPolicy := by
  simp only [bindSchedulerPolicy, enabled, Bool.not_true, Bool.false_eq_true, ↓reduceIte] at call
  cases hint with
  | none => cases call
  | some own =>
    simp only [unbound own rfl] at call
    obtain ⟨rfl, rfl⟩ := pure_ok call
    exact ⟨rfl, own.ownPolicy_bind (unbound own rfl)⟩

theorem add_midway {h : PrefixHash} {n : ℕ} {t : Time} (governed : Governed s)
    (unbound : ∀ own ∈ hint, own.ownPolicy = none)
    (called : add b h n t hint s = .ok () u) : Midway s u := by
  obtain ⟨hint', score, v, w, bound, scored, recorded, called⟩ := add_cases called
  obtain ⟨-, bound⟩ := bindSchedulerPolicy_bound governed.enabled unbound bound
  obtain ⟨table, index, scheduler⟩ := prepare_frame b h t (getPolicy s.scheduler hint') s
  have clock := prepare_clock b h t (getPolicy s.scheduler hint') s
  generalize prepare b h t (getPolicy s.scheduler hint') s = x at scored table scheduler clock
  have prepared : Midway s x := by
    apply midway_kept governed
    · rw [clock]
      exact .refl _
    · rw [scheduler]
    · rw [scheduler]
    · intro c block found
      rwa [← table]
  rw [← scheduler] at bound
  have filed := prepared.filed ⟨h, n, t, hint', score⟩ scored bound
  obtain ⟨last, rfl⟩ := recordLastAccess_ok recorded
  have recorded := filed.frame (t := { insertBlock b ⟨h, n, t, hint', score⟩ v with
    idToLastAccess := last }) (.refl _) rfl
    fun _ _ found => ⟨found, rfl, rfl, rfl, rfl, rfl, rfl, rfl⟩
  exact recorded.refreshed called

theorem update_midway {t : Time}
    (governed : Governed s) (unbound : ∀ own ∈ hint, own.ownPolicy = none)
    (called : update b t hint s = .ok () u) : Midway s u := by
  obtain ⟨block, hint', d, v, score, w, -, bound, -, touched, scored, called⟩ := update_cases called
  obtain ⟨-, bound⟩ := bindSchedulerPolicy_bound governed.enabled unbound bound
  have clock := touch_clock touched
  obtain ⟨table, -, scheduler, -⟩ := touch_frame touched
  have prepared : Midway s v := by
    apply midway_kept governed
    · rw [clock]
      exact .refl _
    · rw [scheduler]
    · rw [scheduler]
    · intro c other found
      rwa [table] at found
  rw [show s.scheduler = v.scheduler from scheduler.symm] at bound
  have filed := prepared.filed { block with lastAccessed := t, cacheHint := hint', score }
    scored bound
  obtain ⟨last, rfl⟩ := recordLastAccess_ok called
  exact filed.frame (.refl _) rfl fun _ _ found => ⟨found, rfl, rfl, rfl, rfl, rfl, rfl, rfl⟩

theorem remove_midway (governed : Governed s) (called : remove b s = .ok () u) : Midway s u := by
  obtain ⟨block, d, -, rfl⟩ := remove_cases called
  have clock := release_clock b block.contentHash (getPolicy s.scheduler block.cacheHint) s
  have scheduler := (release_frame b block.contentHash (getPolicy s.scheduler block.cacheHint) s).scheduler
  apply midway_kept governed
  · exact clock ▸ .refl _
  · exact congrArg _ scheduler
  · exact congrArg _ scheduler
  · exact fun c other found => (get?_of_erase found).2

/-! ### Evicting -/

theorem Midway.aged (midway : Midway r s) (called : ageRripBlocks s = .ok () u) : Midway r u := by
  rw [ageRripBlocks, modify_bind] at called
  have older : Governed { s with
      rripValues := ageEach s.scheduler s.freeTable.items s.rripValues } :=
    ⟨midway.governed.enabled, midway.governed.bound⟩
  exact midway_rebuilt older midway.ticks called

theorem evict_midway {victim : BlockId × PrefixHash} (governed : Governed s)
    (called : evict s = .ok victim u) : Midway s u := by
  have start : Midway s s := midway_kept governed (.refl _) rfl rfl fun _ _ found => found
  refine evict_rule (P := Midway s) ?_ ?_ (fun t u midway called => midway.aged called) ?_ ?_ start called
  · exact fun t record rest _ midway => midway.frame (.refl _) rfl
      fun _ _ found => ⟨found, rfl, rfl, rfl, rfl, rfl, rfl, rfl⟩
  · exact fun t d midway => midway.frame (.refl _) rfl
      fun _ _ found => ⟨found, rfl, rfl, rfl, rfl, rfl, rfl, rfl⟩
  · refine fun t b h midway => midway.frame (.refl _) rfl fun c block found => ?_
    obtain ⟨different, old⟩ := get?_of_erase found
    exact ⟨old, rfl, rfl, Dict.get?_erase_ne different, rfl, Dict.get?_erase_ne different,
      Dict.get?_erase_ne different, Dict.get?_erase_ne different⟩
  · refine fun t b policy midway => midway.frame (.refl _) rfl fun c block found => ?_
    obtain ⟨different, old⟩ := get?_of_erase found
    refine ⟨old, rfl, ?_, Dict.get?_erase_ne different, rfl, rfl, rfl, rfl⟩
    simp only [takenOut]
    split
    · exact Dict.get?_erase_ne different
    · rfl

/-! ### Observing -/

theorem rebind_midway (enabled : s.scheduler.enabled = true)
    (called : rebindSchedulerPolicyForExistingBlocks s = .ok () u) : Midway s u := by
  rcases rebind_cases called with ⟨disabled, -⟩ | ⟨-, v, bound, scheduler, table, hinted, called⟩
  · rw [enabled] at disabled
    cases disabled
  have clocks := rebindEach_fixes LRUMLEvictor.clock s.scheduler.currentPolicy
    (fun b block hint s => by unfold rebindBlock; dsimp only; split_ifs <;> rfl) s.freeTable.items
  have clock : v.clock = s.clock := (clocks _ _ _ bound).trans (seed_clock _ s)
  have governed : Governed { v with toDeleteBlocks := [] } := by
    refine ⟨by rw [scheduler]; exact enabled, fun b block found => ?_⟩
    rw [table] at found
    obtain ⟨held, old, rfl⟩ := Option.map_eq_some_iff.mp found
    obtain ⟨hint, same⟩ := hinted b held old
    simp [reboundTo, same, rebound_ownPolicy, scheduler]
  have ticks : Ticks s.clock v.clock := by
    rw [clock]
    exact .refl _
  exact midway_rebuilt governed ticks called

theorem observe_midway {h : PrefixHash} {hit : Option Bool} (governed : Governed s)
    (called : observeCacheAccess h hint hit s = .ok () u) : Midway s u := by
  have timely := EvictionPolicyScheduler.observe_timely h hint hit (s.scheduler, s.clock)
  rcases observe_cases called with ⟨scheduler, clock, enabled, observed, rfl⟩ |
    ⟨scheduler, clock, enabled, observed, rebound⟩ | observed | rfl
  · have spec := (EvictionPolicyScheduler.observe_wp enabled).ok observed
    have same : scheduler.enabled = s.scheduler.enabled ∧
        scheduler.currentPolicy = s.scheduler.currentPolicy := by
      cases spec <;> exact ⟨rfl, rfl⟩
    exact midway_kept governed (timely _ _ observed) same.1 same.2 fun _ _ found => found
  · have ticks := timely _ _ observed
    have spec := (EvictionPolicyScheduler.observe_wp enabled).ok observed
    have enabled : scheduler.enabled = true := by
      cases spec
      exact governed.enabled
    have rebound := rebind_midway (s := { s with scheduler, clock }) enabled rebound
    refine ⟨ticks.trans rebound.ticks, rebound.governed, fun b block found => ?_⟩
    rcases rebound.scored b block found with unchanged | scored
    · exact .inl unchanged
    · exact .inr (scored.mono (.refl _ _) (.refl _) ticks.reads)
  · have frame := pdpObserve_keeps h hit _ _ _ observed
    apply midway_kept governed
    · exact pdpObserve_ticks h hit _ _ _ observed
    · rw [frame.scheduler]
    · rw [frame.scheduler]
    · intro b block found
      rwa [← frame.table]
  · exact midway_kept governed (.refl _) rfl rfl fun _ _ found => found

/-! ### Runs -/

omit [Numpy] in
inductive Call where
  | op (op : Op)
  | setCapacity (capacity : ℤ)

def Call.run : Call → Method LRUMLEvictor Unit
  | .op o => LRUMLEvictor.call o
  | .setCapacity capacity => LRUMLEvictor.setCapacity capacity

omit [Numpy] in
/-- The hint the call brings for a block names no policy. -/
def Call.Unbound : Call → Prop
  | .op (.add _ _ _ _ hint) => ∀ own ∈ hint, own.ownPolicy = none
  | .op (.update _ _ hint) => ∀ own ∈ hint, own.ownPolicy = none
  | _ => True

/-- A call of a run returns, and leaves the policy to the scheduler. -/
def UnboundStep (s : LRUMLEvictor) (c : Call) (t : LRUMLEvictor) : Prop :=
  c.Unbound ∧ c.run s = .ok () t

def mode (s : Timed EvictionPolicyScheduler) : Bool × Policy := (s.1.enabled, s.1.currentPolicy)

omit [Numpy] in
theorem forShadows_mode (method : Method (Timed ShadowPolicyCache) Unit) (policies : List Policy) :
    Fixes mode (EvictionPolicyScheduler.forShadows method policies) := by
  induction policies with
  | nil => exact Keeps.pure _
  | cons policy rest ih =>
    refine Keeps.bind (.bind .get fun s => ?_) fun _ => ih
    dsimp only
    split
    · exact .throw _
    · exact .apart _ fun _ _ => rfl

theorem setCapacity_mode (capacity : ℤ) : Fixes mode (EvictionPolicyScheduler.setCapacity capacity) :=
  Keeps.bind (.modify fun _ => rfl) fun _ => .bind .get fun _ => forShadows_mode _ _

variable {c : Call}

theorem step_midway (governed : Governed s) (stepped : UnboundStep s c u) : Midway s u := by
  obtain ⟨unbound, called⟩ := stepped
  cases c with
  | op op =>
    cases op with
    | add b h n t hint => exact add_midway governed unbound (show add b h n t hint s = _ from called)
    | update b t hint => exact update_midway governed unbound (show update b t hint s = _ from called)
    | remove b => exact remove_midway governed (show remove b s = _ from called)
    | observe h hint hit =>
      exact observe_midway governed (show observeCacheAccess h hint hit s = _ from called)
    | evict =>
      obtain ⟨victim, evicted⟩ := evict_of_call called
      exact evict_midway governed evicted
  | setCapacity capacity =>
    obtain ⟨⟨scheduler, clock⟩, set, rfl⟩ := zoom_ok
      (show onScheduler (EvictionPolicyScheduler.setCapacity capacity) s = _ from called)
    have ticks := EvictionPolicyScheduler.setCapacity_timely capacity _ _ _ set
    have same := setCapacity_mode capacity _ _ _ set
    exact midway_kept governed ticks (congrArg Prod.fst same) (congrArg Prod.snd same)
      fun _ _ found => found

omit [Numpy] in
theorem getPolicy_mode {scheduler' : EvictionPolicyScheduler}
    (enabled : scheduler'.enabled = scheduler.enabled)
    (policy : scheduler'.currentPolicy = scheduler.currentPolicy) (hint : Option CacheHint) :
    getPolicy scheduler' hint = getPolicy scheduler hint := by
  unfold getPolicy
  rw [enabled, policy]

theorem run_inv (inv : Inv s) (numeric : Numeric s) (called : c.run s = .ok () u) : Inv u := by
  cases c with
  | op op => exact call_inv inv numeric called
  | setCapacity capacity =>
    obtain ⟨⟨scheduler, clock⟩, set, rfl⟩ := zoom_ok
      (show onScheduler (EvictionPolicyScheduler.setCapacity capacity) s = _ from called)
    have same := setCapacity_mode capacity _ _ _ set
    have enabled : scheduler.enabled = s.scheduler.enabled := congrArg Prod.fst same
    refine ⟨inv.indexed, fun b block found => ?_, fun on => inv.bound (enabled ▸ on)⟩
    have scorable := inv.scorable b block found
    rwa [Scorable, getPolicy_mode enabled (congrArg Prod.snd same)]

theorem run_noted (called : c.run s = .ok () u) : NotedStep s u := by
  cases c with
  | op op => exact call_noted called
  | setCapacity capacity =>
    obtain ⟨⟨scheduler, clock⟩, set, rfl⟩ := zoom_ok
      (show onScheduler (EvictionPolicyScheduler.setCapacity capacity) s = _ from called)
    exact noted_frame (EvictionPolicyScheduler.setCapacity_timely capacity _ _ _ set).sawNan
      fun _ block found => ⟨block, found, rfl⟩

/-- The block's record dates from a call of the run that scored it, and no call since has changed
it. -/
inductive LastScored (start : LRUMLEvictor) (b : BlockId) (block : BlockMetaData) :
    List Call → LRUMLEvictor → Prop
  | scored {h : List Call} {s t : LRUMLEvictor} {c : Call} (run : Run UnboundStep start h s)
      (stepped : UnboundStep s c t) (resident : t.freeTable.get? b = some block)
      (score : ScoredSince s.clock.reads t b block) : LastScored start b block (c :: h) t
  | kept {h : List Call} {s t : LRUMLEvictor} {c : Call} (before : LastScored start b block h s)
      (stepped : UnboundStep s c t) (resident : t.freeTable.get? b = some block) :
      LastScored start b block (c :: h) t

omit [Numpy] in
theorem current_unique (indexed : Indexed s.freeTable s.sortedDict) (found : s.freeTable.get? b = some block) (number : block.score ≠ .nan) :
    ∃! item, item ∈ s.sortedDict.items ∧ item.2.1 = b ∧ current s.freeTable item = true := by
  have listed := indexed.listed b block found
  refine ⟨(block.scoreKey b, b, block.contentHash), ⟨listed, rfl, ?_⟩, ?_⟩
  · simp [current, found, number, BlockMetaData.scoreKey]
  · rintro ⟨key, c, hash⟩ ⟨member, rfl, isCurrent⟩
    simp only [current, found, Bool.decide_and, Bool.and_eq_true, decide_eq_true_eq] at isCurrent
    have keyed : key = block.scoreKey c := by
      have filed := indexed.filed _ member
      apply ofLex.injective
      refine Prod.ext isCurrent.2.1.symm (ofLex.injective ?_)
      exact Prod.ext isCurrent.2.2.symm filed
    subst keyed
    rw [SortedDict.mem_unique member listed]

/-- What is to hold after every call of a run that began at `start`. -/
structure Bounds (start : LRUMLEvictor) (h : List Call) (s : LRUMLEvictor) : Prop where
  policy : ∀ b block, s.freeTable.get? b = some block →
    block.cacheHint.bind CacheHint.ownPolicy = some s.scheduler.currentPolicy
  score : ∀ b block, s.freeTable.get? b = some block → LastScored start b block h s
  entry : ∀ b block, s.freeTable.get? b = some block →
    ∃! item, item ∈ s.sortedDict.items ∧ item.2.1 = b ∧ current s.freeTable item = true
  sampled : ∀ policy, samplePolicy s = some policy → ∀ b block, s.freeTable.get? b = some block →
    getPolicy s.scheduler block.cacheHint = policy

omit [Numpy] in
theorem Governed.getPolicy (governed : Governed s) (found : s.freeTable.get? b = some block) :
    LRUMLEvictor.getPolicy s.scheduler block.cacheHint = s.scheduler.currentPolicy := by
  have own := governed.bound b block found
  cases hinted : block.cacheHint with
  | none => rw [hinted] at own; cases own
  | some hint =>
    rw [hinted, Option.bind_some] at own
    simp [LRUMLEvictor.getPolicy, own]

omit [Numpy] in
theorem Governed.sampled (governed : Governed s) {policy : Policy}
    (sampled : samplePolicy s = some policy) : s.scheduler.currentPolicy = policy := by
  obtain ⟨block, first, rfl⟩ := Option.map_eq_some_iff.mp sampled
  obtain ⟨⟨b, held⟩, item, rfl⟩ := List.mem_map.mp (List.mem_of_head? first)
  exact (governed.getPolicy (Dict.mem_items_iff.mp item)).symm

/-- Such a call without a nan. -/
def NumericUnboundStep (s : LRUMLEvictor) (c : Call) (t : LRUMLEvictor) : Prop :=
  UnboundStep s c t ∧ t.clock.sawNan = false

/-- Whenever no hint names a policy and no score is nan, every resident block follows the scheduler's present one,
under the score it was last given, with one current entry in the index. -/
theorem run_bounds {scheduler : EvictionPolicyScheduler} {settings : PdpSettings}
    {lastRefreshTime : Time} {clock : Clock} {h : List Call} {s : LRUMLEvictor}
    (enabled : scheduler.enabled = true)
    (run : Run NumericUnboundStep (init scheduler settings lastRefreshTime clock) h s) :
    Bounds (init scheduler settings lastRefreshTime clock) h s := by
  have whole : Run UnboundStep (init scheduler settings lastRefreshTime clock) h s ∧ Governed s ∧
      Inv s ∧ Numeric s ∧ ∀ b block, s.freeTable.get? b = some block →
        LastScored (init scheduler settings lastRefreshTime clock) b block h s := by
    induction run with
    | start =>
      refine ⟨.start, ⟨enabled, ?_⟩, init_inv _ _ _ _, ?_, ?_⟩
      all_goals
        intro b block found
        cases found
    | call before stepped ih =>
      obtain ⟨unmarked, governed, inv, numeric, scored⟩ := ih
      obtain ⟨stepped, clean⟩ := stepped
      have midway := step_midway governed stepped
      refine ⟨.call unmarked stepped, midway.governed, run_inv inv numeric stepped.2,
        run_noted stepped.2 (fun _ => numeric) clean, ?_⟩
      intro b block found
      rcases midway.scored b block found with unchanged | now
      · exact .kept (scored b block unchanged) stepped found
      · exact .scored unmarked stepped found now
  obtain ⟨-, governed, inv, numeric, scored⟩ := whole
  refine ⟨governed.bound, scored, fun b block found => current_unique inv.indexed found (numeric b block found), ?_⟩
  intro policy sampled b block found
  rw [governed.getPolicy found]
  exact governed.sampled sampled

/-- A scheduler that watches LRU beside the model and decides on its first access. -/
def hasty : EvictionPolicyScheduler where
  enabled := true
  warmupS := 0
  observeStride := 1
  shadowPolicies := [.lru]
  shadowCaches := EvictionPolicyScheduler.freshCaches 4 {} [.lru]

/-- A block is added, and the first observed access, which the real cache misses, decides. -/
def missedAccess : List Call :=
  [.op (.observe 7 none (some false)), .op (.add 1 10 16 1 (some { id := some 9 }))]

omit [Numpy] in
instance : DecidablePred Call.Unbound := fun c => by
  unfold Call.Unbound
  split <;> infer_instance

def nextUnbound? (s : LRUMLEvictor) (c : Call) : Option LRUMLEvictor := if c.Unbound then next? c.run s else none

theorem nextUnbound?_step (next : nextUnbound? s c = some t) : UnboundStep s c t := by
  unfold nextUnbound? at next
  split at next
  · rename_i unbound
    obtain ⟨_, called⟩ := next?_eq_some.mp next
    exact ⟨unbound, called⟩
  · cases next

omit [Numpy] in
theorem run_bounds_missedAccess : ∃ s,
    @Bounds noPrediction (init hasty {} 0 { readings := fun _ => 0 }) missedAccess s ∧
      s.scheduler.currentPolicy = .lru ∧ (s.freeTable.get? 1).isSome := by
  obtain ⟨s, run, holds⟩ := Run.exists_of_execute (s := init hasty {} 0 { readings := fun _ => 0 }) (h := missedAccess)
    (f := fun s c => (@nextUnbound? noPrediction s c).filter fun t => t.clock.sawNan = false)
    (P := fun s => s.scheduler.currentPolicy = .lru ∧ (s.freeTable.get? 1).isSome) (by decide +kernel)
  have run : Run (@NumericUnboundStep noPrediction) (init hasty {} 0 { readings := fun _ => 0 }) missedAccess s :=
    run.mono fun _ _ _ next => by
      obtain ⟨stepped, clean⟩ := Option.filter_eq_some_iff.mp next
      exact ⟨@nextUnbound?_step noPrediction _ _ _ stepped, of_decide_eq_true clean⟩
  exact ⟨s, @run_bounds noPrediction _ _ _ _ _ _ rfl run, holds⟩

/-- An `exp` that underflows where numpy's does, for runs that ask for nothing else. -/
abbrev underflowing : Numpy := ⟨fun x => if x < -746 then 0 else 1⟩

/-- A block that is sure to be used again was so 1000 seconds ago. -/
def overdue : List Call :=
  [.op (.add 1 10 16 0 (some { id := some 9, probHasNext := some (.number 1), expScale := some 1 }))]

omit [Numpy] in
/-- Its score is 0 by 0, and no entry of the index is current. -/
theorem overdue_unlisted : ¬∀ (numpy : Numpy) (scheduler : EvictionPolicyScheduler) (settings : PdpSettings)
    (lastRefreshTime : Time) (clock : Clock) (h : List Call) (s : LRUMLEvictor), scheduler.enabled = true →
    Run (@UnboundStep numpy) (init scheduler settings lastRefreshTime clock) h s →
    @Bounds numpy (init scheduler settings lastRefreshTime clock) h s := by
  intro claim
  obtain ⟨s, run, resident, stale⟩ := Run.exists_of_execute (s := init hasty {} 1000 { readings := fun _ => 1000 })
    (h := overdue) (f := @nextUnbound? underflowing)
    (P := fun s => (s.freeTable.get? 1).isSome ∧ ∀ item ∈ s.sortedDict.items, current s.freeTable item = false)
    (by decide +kernel)
  obtain ⟨block, found⟩ := Option.isSome_iff_exists.mp resident
  have run := run.mono fun _ _ _ next => @nextUnbound?_step underflowing _ _ _ next
  have bounds := claim underflowing _ _ _ _ _ s rfl run
  obtain ⟨item, ⟨member, -, isCurrent⟩, -⟩ := @Bounds.entry underflowing _ _ _ bounds 1 block found
  rw [stale item member] at isCurrent
  cases isCurrent

end Vllm.Evictor.LRUMLEvictor
