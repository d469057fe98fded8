import VllmProofs.Evictor.LruMlRun

/-!
`LRUMLEvictor` under the final policy PDP, beside `PDPEvictor`. The two keep the same epochs,
histogram, protecting distance and protection of every block; their victims can differ when
every block is protected, because `LRUMLEvictor._pdp_victim_key` does not look at the last access.
-/

namespace Vllm.Evictor.PdpSimulation
open Exec LRUMLEvictor

inductive Op where
  | observe (contentHash : PrefixHash) (cacheHint : Option CacheHint) (realHit : Option Bool)
  | add (blockId : BlockId) (contentHash : PrefixHash) (numHashedTokens : ℕ) (lastAccessed : Time)
      (cacheHint : Option CacheHint)
  | update (blockId : BlockId) (lastAccessed : Time) (cacheHint : Option CacheHint)
  | remove (blockId : BlockId)
  | evict
  deriving DecidableEq

/-- A hint with an id and without a policy of its own. -/
def Plain (cacheHint : Option CacheHint) : Prop :=
  ∃ hint, cacheHint = some hint ∧ hint.id.isSome ∧ hint.ownPolicy = none

def Op.Plain : Op → Prop
  | .add _ _ _ _ hint | .update _ _ hint => PdpSimulation.Plain hint
  | _ => True

def callMl [Numpy] : Op → Method LRUMLEvictor (Option (BlockId × PrefixHash))
  | .observe h hint hit => do LRUMLEvictor.observeCacheAccess h hint hit; return none
  | .add b h n t hint => do LRUMLEvictor.add b h n t hint; return none
  | .update b t hint => do LRUMLEvictor.update b t hint; return none
  | .remove b => do LRUMLEvictor.remove b; return none
  | .evict => do let victim ← LRUMLEvictor.evict; return some victim

def callPdp : Op → Method PDPEvictor (Option (BlockId × PrefixHash))
  | .observe h hint hit => do PDPEvictor.observeCacheAccess h hint hit; return none
  | .add b h n t hint => do PDPEvictor.add b h n t hint; return none
  | .update b t hint => do PDPEvictor.update b t hint; return none
  | .remove b => do PDPEvictor.remove b; return none
  | .evict => do let victim ← PDPEvictor.evict; return some victim

/-! ### The simulation relation -/

structure SameBlock (l : LRUMLEvictor) (b : BlockId) (block : BlockMetaData)
    (record : PDPBlockMetaData) : Prop where
  contentHash : block.contentHash = record.contentHash
  lastAccessed : block.lastAccessed = record.lastAccessed
  protectedUntil : l.pdpProtectedUntilEpoch.get? b = some record.protectedUntilEpoch
  lastAccessEpoch : l.pdpLastAccessEpoch.get? b = some record.lastAccessEpoch
  reused : l.pdpReused.get? b = some record.reused

structure SamePdp (l : LRUMLEvictor) (p : PDPEvictor) : Prop where
  settings : l.settings = p.settings
  epoch : l.pdpRequestEpoch = p.requestEpoch
  distance : l.pdpProtectingDistance = p.protectingDistance
  lastSeen : l.pdpLastSeenEpoch = p.lastSeenEpoch
  counts : l.pdpReuseDistanceCounts = p.reuseDistanceCounts
  total : l.pdpTotalAccesses = p.totalObservedAccesses
  mapping : l.pdpContentHashToBlockId = p.contentHashToBlockId

def SameTable (l : LRUMLEvictor) (p : PDPEvictor) : Prop :=
  ∀ b, l.freeTable.get? b = none ∧ p.freeTable.get? b = none ∨
    ∃ block record, l.freeTable.get? b = some block ∧ p.freeTable.get? b = some record ∧
      SameBlock l b block record

/-- A resident block bound to PDP, whose hint has an id. -/
def FollowsPdp (block : BlockMetaData) : Prop :=
  ∃ hint, block.cacheHint = some hint ∧ hint.id.isSome ∧ hint.ownPolicy = some .pdp

structure Finalized (l : LRUMLEvictor) : Prop where
  enabled : l.scheduler.enabled = true
  finalized : l.scheduler.finalized = true
  policy : l.scheduler.currentPolicy = .pdp

structure Related (l : LRUMLEvictor) (p : PDPEvictor) : Prop where
  finalized : Finalized l
  pdp : SamePdp l p
  table : SameTable l p
  follow : ∀ b block, l.freeTable.get? b = some block → FollowsPdp block
  index : Indexed l.freeTable l.sortedDict

structure SameState (l l' : LRUMLEvictor) : Prop where
  scheduler : l'.scheduler = l.scheduler
  settings : l'.settings = l.settings
  epoch : l'.pdpRequestEpoch = l.pdpRequestEpoch
  distance : l'.pdpProtectingDistance = l.pdpProtectingDistance
  lastSeen : l'.pdpLastSeenEpoch = l.pdpLastSeenEpoch
  counts : l'.pdpReuseDistanceCounts = l.pdpReuseDistanceCounts
  total : l'.pdpTotalAccesses = l.pdpTotalAccesses
  mapping : l'.pdpContentHashToBlockId = l.pdpContentHashToBlockId
  protectedUntil : l'.pdpProtectedUntilEpoch = l.pdpProtectedUntilEpoch
  lastAccessEpoch : l'.pdpLastAccessEpoch = l.pdpLastAccessEpoch
  reused : l'.pdpReused = l.pdpReused

variable {l : LRUMLEvictor} {block : BlockMetaData}

theorem getPolicy_pdp (follows : FollowsPdp block) :
    getPolicy l.scheduler block.cacheHint = .pdp := by
  obtain ⟨hint, hinted, -, own⟩ := follows
  simp [getPolicy, hinted, own]

theorem followsPdp_rescored {old new : Dict BlockId BlockMetaData} (rescored : Rescored old new)
    (follow : ∀ b block, old.get? b = some block → FollowsPdp block) :
    ∀ b block, new.get? b = some block → FollowsPdp block := by
  intro b block found
  obtain ⟨held, resident, same⟩ := rescored.resident found
  obtain ⟨hint, hinted, rest⟩ := follow b held resident
  exact ⟨hint, (unscored_fields same).2.2 ▸ hinted, rest⟩

variable {p : PDPEvictor}

theorem Related.inv (related : Related l p) : Inv l := by
  refine ⟨related.index, fun b block found => ?_, fun _ b block found => ?_⟩
  · simp [Scorable, getPolicy_pdp (related.follow b block found)]
  · obtain ⟨hint, hinted, -, own⟩ := related.follow b block found
    simp [Bound, hinted, own]

variable {l' : LRUMLEvictor}

theorem Related.rescored (related : Related l p)
    (same : SameState l l') (rescored : Rescored l.freeTable l'.freeTable)
    (index : Indexed l'.freeTable l'.sortedDict) : Related l' p := by
  obtain ⟨⟨enabled, final, policy⟩, pdp, table, follow, -⟩ := related
  refine ⟨⟨?_, ?_, ?_⟩, ⟨?_, ?_, ?_, ?_, ?_, ?_, ?_⟩, fun b => ?_,
    followsPdp_rescored rescored follow, index⟩
  · rw [same.scheduler, enabled]
  · rw [same.scheduler, final]
  · rw [same.scheduler, policy]
  · rw [same.settings, pdp.settings]
  · rw [same.epoch, pdp.epoch]
  · rw [same.distance, pdp.distance]
  · rw [same.lastSeen, pdp.lastSeen]
  · rw [same.counts, pdp.counts]
  · rw [same.total, pdp.total]
  · rw [same.mapping, pdp.mapping]
  · rcases table b with ⟨absent, missing⟩ | ⟨block, record, resident, recorded, both⟩
    · refine Or.inl ⟨?_, missing⟩
      have gone := rescored b
      simpa [absent] using gone
    · obtain ⟨held, found, eq⟩ := rescored.symm.resident resident
      obtain ⟨hash, time, -⟩ := unscored_fields eq
      exact Or.inr ⟨held, record, found, recorded, hash.trans both.contentHash,
        time.trans both.lastAccessed, by rw [same.protectedUntil, both.protectedUntil],
        by rw [same.lastAccessEpoch, both.lastAccessEpoch], by rw [same.reused, both.reused]⟩

variable {p' : PDPEvictor}

theorem Related.restate (related : Related l p)
    (frame : Frame l l') (protectedUntil : l'.pdpProtectedUntilEpoch = l.pdpProtectedUntilEpoch)
    (lastAccessEpoch : l'.pdpLastAccessEpoch = l.pdpLastAccessEpoch)
    (reused : l'.pdpReused = l.pdpReused) (table : p'.freeTable = p.freeTable)
    (pdp : SamePdp l' p') : Related l' p' := by
  obtain ⟨⟨enabled, final, policy⟩, -, same, follow, index⟩ := related
  refine ⟨⟨?_, ?_, ?_⟩, pdp, fun b => ?_, ?_, ?_⟩
  · rw [frame.scheduler, enabled]
  · rw [frame.scheduler, final]
  · rw [frame.scheduler, policy]
  · rw [frame.table, table]
    rcases same b with neither | ⟨block, record, resident, recorded, both⟩
    · exact Or.inl neither
    · exact Or.inr ⟨block, record, resident, recorded, both.contentHash, both.lastAccessed,
        by rw [protectedUntil, both.protectedUntil], by rw [lastAccessEpoch, both.lastAccessEpoch],
        by rw [reused, both.reused]⟩
  · rw [frame.table]
    exact follow
  · rw [frame.table, frame.index]
    exact index

/-! ### Observing -/

theorem protect_related (related : Related l p) (b : BlockId) (reused : Bool) :
    Related (LRUMLEvictor.protectedNow b reused l) (PDPEvictor.protectedNow b reused p) := by
  rcases related.table b with ⟨absent, missing⟩ | ⟨block, record, resident, recorded, both⟩
  · have gone : l.freeTable.contains b = false := Dict.not_contains_iff.mpr absent
    simpa [LRUMLEvictor.protectedNow, PDPEvictor.protectedNow, gone, missing] using related
  · have present : l.freeTable.contains b = true := Dict.contains_iff.mpr ⟨block, resident⟩
    obtain ⟨final, pdp, table, follow, index⟩ := related
    simp only [LRUMLEvictor.protectedNow, PDPEvictor.protectedNow, present, recorded, ↓reduceIte]
    refine ⟨⟨final.enabled, final.finalized, final.policy⟩,
      ⟨pdp.settings, pdp.epoch, pdp.distance, pdp.lastSeen, pdp.counts, pdp.total, pdp.mapping⟩,
      fun c => ?_, follow, index⟩
    by_cases same : c = b
    · subst same
      refine Or.inr ⟨block, _, resident, Dict.get?_insert_self _ _ _, both.contentHash,
        both.lastAccessed, ?_, ?_, ?_⟩
      · simp [PDPBlockMetaData.protect, pdp.epoch, pdp.distance]
      · simp [PDPBlockMetaData.protect, pdp.epoch]
      · cases reused <;> simp [PDPBlockMetaData.protect, both.reused]
    · rcases table c with ⟨absent, missing⟩ | ⟨other, record', resident', recorded', both'⟩
      · exact Or.inl ⟨absent, by rw [Dict.get?_insert_ne same, missing]⟩
      · refine Or.inr ⟨other, record', resident', by rw [Dict.get?_insert_ne same, recorded'],
          both'.contentHash, both'.lastAccessed, ?_, ?_, ?_⟩
        · simpa [Dict.get?_insert_ne same] using both'.protectedUntil
        · simpa [Dict.get?_insert_ne same] using both'.lastAccessEpoch
        · cases reused <;> simpa [Dict.get?_insert_ne same] using both'.reused

/-- Both sides step, and stay related. -/
def StepTogether {α : Type} (x : Method LRUMLEvictor α) (y : Method PDPEvictor α)
    (l : LRUMLEvictor) (p : PDPEvictor) : Prop :=
  ∃ a l' p', x l = .ok a l' ∧ y p = .ok a p' ∧ Related l' p'

variable {α β : Type}

theorem StepTogether.bind {x : Method LRUMLEvictor α} {y : Method PDPEvictor α}
    {f : α → Method LRUMLEvictor β} {g : α → Method PDPEvictor β} (first : StepTogether x y l p)
    (next : ∀ a l' p', Related l' p' → x l = .ok a l' → y p = .ok a p' →
      StepTogether (f a) (g a) l' p') : StepTogether (x >>= f) (y >>= g) l p := by
  obtain ⟨a, l', p', left, right, related⟩ := first
  obtain ⟨b, l'', p'', left', right', related'⟩ := next a l' p' related left right
  exact ⟨b, l'', p'', (bind_of_ok left).trans left', (bind_of_ok right).trans right', related'⟩

theorem recordReuse_together (related : Related l p)
    (h : PrefixHash) : StepTogether (LRUMLEvictor.recordReuse h) (PDPEvictor.recordReuse h) l p := by
  have pdp := related.pdp
  cases seen : p.lastSeenEpoch.get? h with
  | none =>
    refine ⟨(), l, p, ?_, ?_, related⟩
    · simp [LRUMLEvictor.recordReuse, pdp.lastSeen, seen]
    · simp [PDPEvictor.recordReuse, seen]
  | some previous =>
    obtain ⟨bucket, bucketed⟩ := bucketed_positive p.positive (p.requestEpoch - previous)
    refine ⟨(), { l with pdpReuseDistanceCounts := countReuse l.pdpReuseDistanceCounts bucket },
      { p with reuseDistanceCounts := countReuse p.reuseDistanceCounts bucket }, ?_, ?_, ?_⟩
    · simp [LRUMLEvictor.recordReuse, pdpBucketDistance, pdp.lastSeen, seen, pdp.settings, pdp.epoch,
        bucketed, bind_apply]
    · simp [PDPEvictor.recordReuse, PDPEvictor.bucketDistance, seen, bucketed, bind_apply]
    · exact related.restate ⟨rfl, rfl, rfl, rfl⟩ rfl rfl rfl rfl ⟨pdp.settings, pdp.epoch,
        pdp.distance, pdp.lastSeen, by simp [pdp.counts], pdp.total, pdp.mapping⟩

theorem protectHolder_together (related : Related l p) (h : PrefixHash) (reused : Bool) :
    StepTogether (LRUMLEvictor.protectHolder h reused) (PDPEvictor.protectHolder h reused) l p := by
  cases held : p.contentHashToBlockId.get? h with
  | none =>
    refine ⟨(), l, p, ?_, ?_, related⟩
    · simp [LRUMLEvictor.protectHolder, related.pdp.mapping, held]
    · simp [PDPEvictor.protectHolder, held]
  | some b =>
    refine ⟨(), LRUMLEvictor.protectedNow b reused l, PDPEvictor.protectedNow b reused p, ?_, ?_,
      protect_related related b reused⟩
    · cases present : l.freeTable.contains b <;>
        simp [LRUMLEvictor.protectHolder, related.pdp.mapping, held, present, pdpProtectBlock,
          LRUMLEvictor.protectedNow]
    · simp [PDPEvictor.protectHolder, held, PDPEvictor.protectBlock]

theorem recompute_together (related : Related l p) :
    StepTogether LRUMLEvictor.recomputeIfDue PDPEvictor.recomputeIfDue l p := by
  have pdp := related.pdp
  obtain ⟨best, computed⟩ := bestProtectingDistance_positive p.positive p.reuseDistanceCounts
    p.totalObservedAccesses p.protectingDistance
  by_cases due : p.totalObservedAccesses % p.settings.recomputeInterval = 0
  · refine ⟨(), { l with pdpProtectingDistance := best }, { p with protectingDistance := best },
      ?_, ?_, ?_⟩
    · simp [LRUMLEvictor.recomputeIfDue, divides_positive _ p.positive.2.1, pdp.settings, pdp.total,
        due, pdpRecomputeProtectingDistance, pdp.counts, pdp.distance, computed]
    · simp [PDPEvictor.recomputeIfDue, divides_positive _ p.positive.2.1, due,
        PDPEvictor.recomputeProtectingDistance, computed]
    · exact related.restate ⟨rfl, rfl, rfl, rfl⟩ rfl rfl rfl rfl ⟨pdp.settings, pdp.epoch,
        rfl, pdp.lastSeen, pdp.counts, pdp.total, pdp.mapping⟩
  · refine ⟨(), l, p, ?_, ?_, related⟩
    · simp [LRUMLEvictor.recomputeIfDue, divides_positive _ p.positive.2.1, pdp.settings, pdp.total,
        due]
    · simp [PDPEvictor.recomputeIfDue, divides_positive _ p.positive.2.1, due]

/-- One more access, counted on either side. -/
def countMl (l : LRUMLEvictor) : LRUMLEvictor :=
  { l with pdpRequestEpoch := l.pdpRequestEpoch + 1, pdpTotalAccesses := l.pdpTotalAccesses + 1 }

def countPdp (p : PDPEvictor) : PDPEvictor :=
  { p with requestEpoch := p.requestEpoch + 1, totalObservedAccesses := p.totalObservedAccesses + 1 }

theorem count_related (related : Related l p) : Related (countMl l) (countPdp p) := by
  have pdp := related.pdp
  exact related.restate ⟨rfl, rfl, rfl, rfl⟩ rfl rfl rfl rfl ⟨pdp.settings,
    by simp [countMl, countPdp, pdp.epoch], pdp.distance, pdp.lastSeen, pdp.counts,
    by simp [countMl, countPdp, pdp.total], pdp.mapping⟩

theorem recordSeen_together (related : Related l p)
    (h : PrefixHash) : StepTogether (LRUMLEvictor.recordSeen h) (PDPEvictor.recordSeen h) l p := by
  have pdp := related.pdp
  exact ⟨(), _, _, rfl, rfl, related.restate ⟨rfl, rfl, rfl, rfl⟩ rfl rfl rfl rfl ⟨pdp.settings,
    pdp.epoch, pdp.distance, by simp [pdp.lastSeen, pdp.epoch], pdp.counts, pdp.total, pdp.mapping⟩⟩

theorem observeCacheAccess_unfold (p : PDPEvictor) (h : PrefixHash) (hint : Option CacheHint)
    (hit : Option Bool) : PDPEvictor.observeCacheAccess h hint hit p = (do
      PDPEvictor.recordReuse h
      PDPEvictor.recordSeen h
      PDPEvictor.protectHolder h (hit.getD false || (p.lastSeenEpoch.get? h).isSome)
      PDPEvictor.recomputeIfDue) (countPdp p) := by
  have hitAt (q : PDPEvictor) : PDPEvictor.realHitAt (hit.map fun hit => [hit]) 0 q =
      .ok (hit.getD false) q := by
    cases hit <;> rfl
  simp only [PDPEvictor.observeCacheAccess, PDPEvictor.observeCacheAccesses, modify_bind,
    PDPEvictor.observeEach, List.not_mem_nil, ↓reduceIte, bind_assoc, PDPEvictor.observeHash,
    pure_bind]
  rw [bind_of_ok (hitAt _)]
  rfl

theorem observe_together [Numpy] (related : Related l p)
    (h : PrefixHash) (hint : Option CacheHint) (hit : Option Bool) :
    StepTogether (LRUMLEvictor.observeCacheAccess h hint hit)
      (PDPEvictor.observeCacheAccess h hint hit) l p := by
  have final := related.finalized
  have pdp := related.pdp
  have left : LRUMLEvictor.observeCacheAccess h hint hit l = pdpObserve h hit l := by
    simp [LRUMLEvictor.observeCacheAccess, final.enabled, final.finalized, final.policy]
  have counted : LRUMLEvictor.observeCacheAccess h hint hit l = (do
      LRUMLEvictor.recordReuse h
      LRUMLEvictor.recordSeen h
      LRUMLEvictor.protectHolder h (hit.getD false || (p.lastSeenEpoch.get? h).isSome)
      LRUMLEvictor.recomputeIfDue) (countMl l) := by
    rw [left, ← pdp.lastSeen]
    rfl
  unfold StepTogether
  rw [counted, observeCacheAccess_unfold]
  exact (recordReuse_together (count_related related) h).bind fun _ _ _ related _ _ =>
    (recordSeen_together related h).bind fun _ _ _ related _ _ =>
    (protectHolder_together related h _).bind fun _ _ _ related _ _ => recompute_together related

/-! ### Adding, updating and removing -/

theorem bind_plain (final : Finalized l) {hint : CacheHint} (own : hint.ownPolicy = none) :
    bindSchedulerPolicy l.scheduler (some hint) l =
      .ok (some { hint with schedulerPolicy := some .pdp }) l := by
  simp [bindSchedulerPolicy, final.enabled, own, final.policy]

theorem follows_plain {hint : CacheHint} (id : hint.id.isSome) (own : hint.ownPolicy = none)
    (hinted : block.cacheHint = some { hint with schedulerPolicy := some .pdp }) :
    FollowsPdp block :=
  ⟨_, hinted, id, CacheHint.ownPolicy_bind own⟩

theorem recordLastAccess_related (related : Related l p)
    (hint : CacheHint) (id : hint.id.isSome) (t : Time) :
    ∃ l', recordLastAccess (some hint) t l = .ok () l' ∧ Related l' p := by
  obtain ⟨n, named⟩ := Option.isSome_iff_exists.mp id
  refine ⟨{ l with idToLastAccess := l.idToLastAccess.insert n t }, ?_, ?_⟩
  · simp [recordLastAccess, named]
  · exact related.rescored ⟨rfl, rfl, rfl, rfl, rfl, rfl, rfl, rfl, rfl, rfl, rfl⟩ (.refl _)
      related.index

variable {hint : Option CacheHint}

theorem calcScore_pdp [Numpy]
    (policy : getPolicy l.scheduler hint = .pdp) (b : BlockId) (t : Time) :
    calcScore b t hint l = .ok (.number (pdpScore l b)) l := by
  simp [calcScore, policy]

theorem survivalList_follow (items : List (BlockId × BlockMetaData)) (l : LRUMLEvictor)
    (follow : ∀ b block, (b, block) ∈ items → FollowsPdp block) :
    ∃ survival, survivalList items l = .ok survival l ∧
      ∀ x ∈ survival, x.1 ∈ items.map Prod.fst := by
  induction items with
  | nil => exact ⟨[], rfl, by simp⟩
  | cons item rest ih =>
    obtain ⟨b, block⟩ := item
    obtain ⟨hint, hinted, id, -⟩ := follow b block List.mem_cons_self
    obtain ⟨n, named⟩ := Option.isSome_iff_exists.mp id
    obtain ⟨survival, listed, among⟩ := ih fun c other later =>
      follow c other (List.mem_cons_of_mem _ later)
    refine ⟨(b, n, block.lastAccessed) :: survival, ?_, ?_⟩
    · simp only [survivalList, hinted, named]
      rw [bind_of_ok listed]
      rfl
    · intro x member
      rcases List.mem_cons.mp member with same | later
      · simp [same]
      · exact List.mem_cons_of_mem _ (among x later)

theorem markOutdated_follow {survival : List (BlockId × ℤ × Time)}
    (follow : ∀ b block, l.freeTable.get? b = some block → FollowsPdp block)
    (resident : ∀ x ∈ survival, x.1 ∈ l.freeTable.keys) :
    markOutdated survival l = .ok () l := by
  induction survival with
  | nil => rfl
  | cons item rest ih =>
    obtain ⟨b, id, t⟩ := item
    obtain ⟨block, found⟩ := Dict.mem_keys_iff.mp (resident _ List.mem_cons_self)
    rw [markOutdated, get_bind]
    simp only [found, getPolicy_pdp (follow b block found), or_true, ↓reduceIte]
    exact ih fun x later => resident x (List.mem_cons_of_mem _ later)

theorem refresh_related [Numpy] (related : Related l p) :
    ∃ l', refresh l = .ok () l' ∧ Related l' p := by
  obtain ⟨u, rebuilt⟩ := rebuildSortedDict_total related.inv.scorable
  obtain ⟨-, table, d, clock, rfl, rescored, indexed⟩ := rebuildSortedDict_ok rebuilt
  rw [refresh, bind_of_ok rebuilt]
  simp only [LRUMLEvictor.time, bind_assoc, get_bind, set_bind, pure_bind, modify_bind]
  let l' : LRUMLEvictor := { l with
    freeTable := table, sortedDict := d
    clock := { clock with reads := clock.reads + 1 }
    lastRefreshTime := clock.readings clock.reads }
  have follow := followsPdp_rescored rescored related.follow
  obtain ⟨survival, listed, among⟩ := survivalList_follow table.items l'
    fun b block member => follow b block (Dict.mem_items_iff.mp member)
  refine ⟨l', ?_, related.rescored ⟨rfl, rfl, rfl, rfl, rfl, rfl, rfl, rfl, rfl, rfl, rfl⟩ rescored
    indexed⟩
  rw [bind_of_ok listed]
  refine markOutdated_follow follow fun x member => ?_
  exact among x ((List.mem_insertionSort _).mp member)

theorem refreshIfDue_related [Numpy] (related : Related l p) :
    ∃ l', refreshIfDue l = .ok () l' ∧ Related l' p := by
  have ticked : Related { l with clock := { l.clock with reads := l.clock.reads + 1 } } p :=
    related.rescored ⟨rfl, rfl, rfl, rfl, rfl, rfl, rfl, rfl, rfl, rfl, rfl⟩ (.refl _) related.index
  simp only [refreshIfDue, LRUMLEvictor.time, get_bind, bind_assoc, set_bind, pure_bind]
  split
  · exact refresh_related ticked
  · exact ⟨_, rfl, ticked⟩

structure OthersKept (b : BlockId) (l l' : LRUMLEvictor) : Prop where
  protectedUntil : ∀ c, c ≠ b → l'.pdpProtectedUntilEpoch.get? c = l.pdpProtectedUntilEpoch.get? c
  lastAccessEpoch : ∀ c, c ≠ b → l'.pdpLastAccessEpoch.get? c = l.pdpLastAccessEpoch.get? c
  reused : ∀ c, c ≠ b → l'.pdpReused.get? c = l.pdpReused.get? c

variable {b c : BlockId} {record : PDPBlockMetaData}

theorem SameBlock.others (kept : OthersKept b l l') (different : c ≠ b)
    (both : SameBlock l c block record) : SameBlock l' c block record :=
  ⟨both.contentHash, both.lastAccessed, (kept.protectedUntil c different).trans both.protectedUntil,
    (kept.lastAccessEpoch c different).trans both.lastAccessEpoch,
    (kept.reused c different).trans both.reused⟩

theorem Related.insert (b : BlockId)
    (block : BlockMetaData) (record : PDPBlockMetaData) (related : Related l p)
    (scheduler : l'.scheduler = l.scheduler) (pdp : SamePdp l' p')
    (left : l'.freeTable = l.freeTable.insert b block)
    (right : p'.freeTable = p.freeTable.insert b record)
    (index : Indexed l'.freeTable l'.sortedDict) (both : SameBlock l' b block record)
    (kept : OthersKept b l l') (follows : FollowsPdp block) : Related l' p' := by
  obtain ⟨⟨enabled, final, policy⟩, -, table, follow, -⟩ := related
  refine ⟨⟨?_, ?_, ?_⟩, pdp, fun c => ?_, fun c other found => ?_, index⟩
  · rw [scheduler, enabled]
  · rw [scheduler, final]
  · rw [scheduler, policy]
  · rw [left, right]
    by_cases same : c = b
    · subst same
      exact Or.inr ⟨block, record, Dict.get?_insert_self _ _ _, Dict.get?_insert_self _ _ _, both⟩
    · rw [Dict.get?_insert_ne same, Dict.get?_insert_ne same]
      rcases table c with neither | ⟨other, record', resident, recorded, both'⟩
      · exact Or.inl neither
      · exact Or.inr ⟨other, record', resident, recorded, both'.others kept same⟩
  · rw [left, Dict.get?_insert] at found
    split at found
    · cases found
      exact follows
    · exact follow c other found

theorem Related.erase
    (related : Related l p) (scheduler : l'.scheduler = l.scheduler) (pdp : SamePdp l' p')
    (left : l'.freeTable = l.freeTable.erase b) (right : p'.freeTable = p.freeTable.erase b)
    (index : Indexed l'.freeTable l'.sortedDict) (kept : OthersKept b l l') : Related l' p' := by
  obtain ⟨⟨enabled, final, policy⟩, -, table, follow, -⟩ := related
  refine ⟨⟨?_, ?_, ?_⟩, pdp, fun c => ?_, fun c other found => ?_, index⟩
  · rw [scheduler, enabled]
  · rw [scheduler, final]
  · rw [scheduler, policy]
  · rw [left, right]
    by_cases same : c = b
    · subst same
      exact Or.inl ⟨Dict.get?_erase_self _ _, Dict.get?_erase_self _ _⟩
    · rw [Dict.get?_erase_ne same, Dict.get?_erase_ne same]
      rcases table c with neither | ⟨other, record', resident, recorded, both'⟩
      · exact Or.inl neither
      · exact Or.inr ⟨other, record', resident, recorded, both'.others kept same⟩
  · rw [left, Dict.get?_erase] at found
    split at found
    · cases found
    · exact follow c other found

theorem forget_same (related : Related l p) (b : BlockId) :
    PDPEvictor.forgetPrevious b p = .ok () { p with contentHashToBlockId := forgetOld b l } := by
  rcases related.table b with ⟨absent, missing⟩ | ⟨block, record, resident, recorded, both⟩
  · simp [PDPEvictor.forgetPrevious, missing, forgetOld, absent, related.pdp.mapping]
  · simp [PDPEvictor.forgetPrevious, recorded, forgetOld, resident, related.pdp.mapping,
      PDPEvictor.forgetHashMapping, both.contentHash]

theorem prepare_pdp (b : BlockId) (h : PrefixHash) (t : Time) (l : LRUMLEvictor) :
    ∃ first, prepare b h t .pdp l = { l with
      idToFirstAccess := first
      pdpProtectedUntilEpoch :=
        l.pdpProtectedUntilEpoch.insert b (l.pdpRequestEpoch + l.pdpProtectingDistance)
      pdpLastAccessEpoch := l.pdpLastAccessEpoch.insert b
        ((l.pdpLastSeenEpoch.get? h).getD l.pdpRequestEpoch)
      pdpReused := l.pdpReused.insert b (l.pdpLastSeenEpoch.contains h)
      pdpContentHashToBlockId := (forgetOld b l).insert h b } := by
  have noRrip : seedRrip b .pdp l = l := by simp [seedRrip]
  simp only [prepare, noRrip, seedPdp, ↓reduceIte, seedFirstAccess]
  split
  · exact ⟨l.idToFirstAccess, rfl⟩
  · exact ⟨l.idToFirstAccess.insert b t, rfl⟩

theorem add_together [Numpy] (related : Related l p)
    (b : BlockId) (h : PrefixHash) (n : ℕ) (t : Time)
    (plain : Plain hint) :
    StepTogether (LRUMLEvictor.add b h n t hint) (PDPEvictor.add b h n t hint) l p := by
  obtain ⟨hint, rfl, id, own⟩ := plain
  have final := related.finalized
  have pdp := related.pdp
  let hint' : CacheHint := { hint with schedulerPolicy := some .pdp }
  have policy : getPolicy l.scheduler (some hint') = .pdp := by
    simp [getPolicy, hint', CacheHint.ownPolicy_bind own]
  obtain ⟨first, prepared⟩ := prepare_pdp b h t l
  let w := prepare b h t .pdp l
  let block : BlockMetaData := ⟨h, n, t, some hint', .number (pdpScore w b)⟩
  let record : PDPBlockMetaData :=
    { contentHash := h, numHashedTokens := n, lastAccessed := t, cacheHint := some hint
      firstAccessEpoch := (p.lastSeenEpoch.get? h).getD p.requestEpoch
      lastAccessEpoch := (p.lastSeenEpoch.get? h).getD p.requestEpoch
      protectedUntilEpoch := p.requestEpoch + p.protectingDistance
      reused := p.lastSeenEpoch.contains h }
  let p' : PDPEvictor := { p with
    freeTable := p.freeTable.insert b record
    contentHashToBlockId := (forgetOld b l).insert h b }
  have right : PDPEvictor.add b h n t (some hint) p = .ok () p' := by
    rw [PDPEvictor.add, bind_of_ok (forget_same related b)]
    rfl
  have inserted : Related (insertBlock b block w) p' := by
    have table : w.freeTable = l.freeTable := by simp only [w, prepared]
    have index : w.sortedDict = l.sortedDict := by simp only [w, prepared]
    refine related.insert b block record ?_ ?_ ?_ rfl ?_ ?_ ?_
      (follows_plain id own rfl)
    · simp only [insertBlock, w, prepared]
    · constructor <;> simp only [insertBlock, w, prepared, p']
      · exact pdp.settings
      · exact pdp.epoch
      · exact pdp.distance
      · exact pdp.lastSeen
      · exact pdp.counts
      · exact pdp.total
    · simp only [insertBlock, table]
    · simp only [insertBlock, table, index]
      exact indexed_insert block (indexed_erase_stale related.index b)
    · constructor <;> simp only [insertBlock, w, prepared, record, block]
      · simp [pdp.epoch, pdp.distance]
      · simp [pdp.epoch, pdp.lastSeen]
      · simp [pdp.lastSeen]
    · constructor <;> intro c different <;>
        simp only [insertBlock, w, prepared, Dict.get?_insert_ne different]
  obtain ⟨l₁, recorded, related₁⟩ := recordLastAccess_related inserted hint' id t
  obtain ⟨l₂, refreshed, related₂⟩ := refreshIfDue_related related₁
  refine ⟨(), l₂, p', ?_, right, related₂⟩
  have scored : calcScore b t (some hint') w = .ok (.number (pdpScore w b)) w :=
    calcScore_pdp (by simp only [w, prepared, policy]) b t
  rw [LRUMLEvictor.add, get_bind, bind_of_ok (bind_plain final own), policy, modify_bind,
    bind_of_ok scored, modify_bind, bind_of_ok recorded, refreshed]

theorem update_together [Numpy] (related : Related l p) (t : Time) (plain : Plain hint) (resident : l.freeTable.get? b = some block)
    (recorded : p.freeTable.get? b = some record) (both : SameBlock l b block record) :
    StepTogether (LRUMLEvictor.update b t hint) (PDPEvictor.update b t hint) l p := by
  obtain ⟨hint, rfl, id, own⟩ := plain
  have final := related.finalized
  have pdp := related.pdp
  have present : l.freeTable.contains b = true := Dict.contains_iff.mpr ⟨block, resident⟩
  let hint' : CacheHint := { hint with schedulerPolicy := some .pdp }
  have policy : getPolicy l.scheduler (some hint') = .pdp := by
    simp [getPolicy, hint', CacheHint.ownPolicy_bind own]
  let unlisted : LRUMLEvictor := { l with sortedDict := l.sortedDict.erase (block.scoreKey b) }
  let w : LRUMLEvictor := LRUMLEvictor.protectedNow b true unlisted
  have frame : Frame unlisted w := protectedNow_frame b true unlisted
  have shown : w = { unlisted with
      pdpProtectedUntilEpoch :=
        l.pdpProtectedUntilEpoch.insert b (l.pdpRequestEpoch + l.pdpProtectingDistance)
      pdpLastAccessEpoch := l.pdpLastAccessEpoch.insert b l.pdpRequestEpoch
      pdpReused := l.pdpReused.insert b true } := by
    simp [w, LRUMLEvictor.protectedNow, unlisted, present]
  let newBlock : BlockMetaData :=
    ⟨block.contentHash, block.numHashedTokens, t, some hint', .number (pdpScore w b)⟩
  let touched : PDPBlockMetaData := { record with lastAccessed := t, cacheHint := some hint }
  let newRecord := touched.protect p.requestEpoch p.protectingDistance true
  let p' : PDPEvictor := { p with freeTable := p.freeTable.insert b newRecord }
  have right : PDPEvictor.update b t (some hint) p = .ok () p' := by
    simp [PDPEvictor.update, recorded, PDPEvictor.protectBlock, PDPEvictor.protectedNow, p',
      newRecord, touched]
  have inserted : Related (insertBlock b newBlock w) p' := by
    refine related.insert b newBlock newRecord frame.scheduler ?_ ?_
      rfl ?_ ?_ ?_ (follows_plain id own rfl)
    · constructor <;> simp only [insertBlock, shown, unlisted, p']
      · exact pdp.settings
      · exact pdp.epoch
      · exact pdp.distance
      · exact pdp.lastSeen
      · exact pdp.counts
      · exact pdp.total
      · exact pdp.mapping
    · simp only [insertBlock, frame.table, unlisted]
    · simp only [insertBlock, frame.table, frame.index, unlisted]
      exact indexed_insert newBlock (indexed_erase related.index b block)
    · constructor <;> simp only [insertBlock, shown, newBlock, newRecord, touched,
        PDPBlockMetaData.protect]
      · exact both.contentHash
      · simp [pdp.epoch, pdp.distance]
      · simp [pdp.epoch]
      · simp
    · constructor <;> intro c different <;>
        simp only [insertBlock, shown, Dict.get?_insert_ne different]
  obtain ⟨l₁, recorded', related₁⟩ := recordLastAccess_related inserted hint' id t
  refine ⟨(), l₁, p', ?_, right, related₁⟩
  have scored : calcScore b t (some hint') w = .ok (.number (pdpScore w b)) w :=
    calcScore_pdp (by rw [frame.scheduler]; exact policy) b t
  have removed : removeFromSortedDict b l = .ok () unlisted :=
    removeFromSortedDict_ok related.index resident
  have touching : touch b .pdp unlisted = .ok () w := rfl
  rw [LRUMLEvictor.update, get_bind]
  simp only [resident]
  rw [bind_of_ok (bind_plain final own), policy, bind_of_ok removed, bind_of_ok touching,
    bind_of_ok scored, modify_bind, recorded']

theorem othersKept_erase (l : LRUMLEvictor) (b : BlockId)
    (protectedUntil : l'.pdpProtectedUntilEpoch = l.pdpProtectedUntilEpoch.erase b)
    (lastAccessEpoch : l'.pdpLastAccessEpoch = l.pdpLastAccessEpoch.erase b)
    (reused : l'.pdpReused = l.pdpReused.erase b) : OthersKept b l l' := by
  constructor <;> intro c different
  · rw [protectedUntil, Dict.get?_erase_ne different]
  · rw [lastAccessEpoch, Dict.get?_erase_ne different]
  · rw [reused, Dict.get?_erase_ne different]

theorem remove_together [Numpy] (related : Related l p)
    (resident : l.freeTable.get? b = some block) (recorded : p.freeTable.get? b = some record)
    (both : SameBlock l b block record) :
    StepTogether (LRUMLEvictor.remove b) (PDPEvictor.remove b) l p := by
  have pdp := related.pdp
  have policy := getPolicy_pdp (l := l) (related.follow b block resident)
  let w := release b block.contentHash .pdp l
  have frame : Frame l w := release_frame b block.contentHash .pdp l
  let l' : LRUMLEvictor := { w with
    sortedDict := w.sortedDict.erase (block.scoreKey b), freeTable := w.freeTable.erase b }
  let p' : PDPEvictor := { p with
    freeTable := p.freeTable.erase b
    contentHashToBlockId := forget p.contentHashToBlockId record.contentHash b }
  have removed : removeFromSortedDict b w = .ok () _ := removeFromSortedDict_ok
    (by rw [frame.table, frame.index]; exact related.index) (by rw [frame.table]; exact resident)
  refine ⟨(), l', p', ?_, ?_, ?_⟩
  · simp only [LRUMLEvictor.remove, get_bind, resident, policy, modify_bind]
    exact bind_of_ok removed
  · simp [PDPEvictor.remove, recorded, PDPEvictor.forgetHashMapping, p']
  · refine related.erase (b := b) frame.scheduler ?_ rfl rfl ?_ (othersKept_erase l b rfl rfl rfl)
    · exact ⟨pdp.settings, pdp.epoch, pdp.distance, pdp.lastSeen, pdp.counts, pdp.total,
        by simp [l', w, release, p', both.contentHash, pdp.mapping]⟩
    · simp only [l', frame.table, frame.index]
      exact indexed_erase related.index b block

/-! ### Evicting -/

/-- How far a protected block is from being given up, apart from its last access and its id. -/
def rank (p : PDPEvictor) (record : PDPBlockMetaData) : ℕ ×ₗ ℤ ×ₗ ℤ :=
  toLex (record.reused.toNat, toLex (-max 0 (record.protectedUntilEpoch - p.requestEpoch),
    -record.lastAccessEpoch))

/-- The resident blocks of least rank. -/
def Tied (p : PDPEvictor) (b : BlockId) (record : PDPBlockMetaData) : Prop :=
  p.freeTable.get? b = some record ∧
    ∀ c other, p.freeTable.get? c = some other → rank p record ≤ rank p other

/-- Some block's protection has run out, or the tied block with the least id was accessed last. -/
def LeastIdLatest (p : PDPEvictor) : Prop :=
  (∃ b record, p.freeTable.get? b = some record ∧ record.protectedUntilEpoch ≤ p.requestEpoch) ∨
    ∀ b record, Tied p b record → (∀ c other, Tied p c other → b ≤ c) →
      ∀ c other, Tied p c other → other.lastAccessed ≤ record.lastAccessed

/-- The key of `LRUMLEvictor._pdp_victim_key`, read off the record of `PDPEvictor`. -/
def mlKey (p : PDPEvictor) (b : BlockId) (record : PDPBlockMetaData) : MlVictimKey :=
  if record.protectedUntilEpoch ≤ p.requestEpoch then
    toLex (.inl (toLex (record.lastAccessEpoch, toLex (record.lastAccessed, b))))
  else
    toLex (.inr (toLex (record.reused.toNat,
      toLex (-max 0 (record.protectedUntilEpoch - p.requestEpoch),
        toLex (-record.lastAccessEpoch, b)))))

theorem pdpVictimKey_same (related : Related l p) (both : SameBlock l b block record) :
    pdpVictimKey l b block = mlKey p b record := by
  simp [pdpVictimKey, mlKey, both.protectedUntil, both.lastAccessEpoch, both.reused,
    both.lastAccessed, related.pdp.epoch]

/-- The first three components of a key decide, and the rest of it only between equals. -/
theorem lex_rank {γ δ : Type} [LinearOrder α] [LinearOrder β] [LinearOrder γ] [LinearOrder δ]
    {a a' : α} {b b' : β} {c c' : γ} {d d' : δ} :
    (toLex (a, toLex (b, toLex (c, d))) : α ×ₗ β ×ₗ γ ×ₗ δ) ≤
        toLex (a', toLex (b', toLex (c', d'))) ↔
      (toLex (a, toLex (b, c)) : α ×ₗ β ×ₗ γ) < toLex (a', toLex (b', c')) ∨
        (toLex (a, toLex (b, c)) : α ×ₗ β ×ₗ γ) = toLex (a', toLex (b', c')) ∧ d ≤ d' := by
  simp only [Prod.Lex.toLex_le_toLex, Prod.Lex.toLex_lt_toLex, EmbeddingLike.apply_eq_iff_eq,
    Prod.mk.injEq]
  tauto

variable {r q : PDPBlockMetaData}

theorem mlKey_protected
    (left : p.requestEpoch < r.protectedUntilEpoch) (right : p.requestEpoch < q.protectedUntilEpoch) :
    mlKey p b r ≤ mlKey p c q ↔ rank p r < rank p q ∨ rank p r = rank p q ∧ b ≤ c := by
  rw [mlKey, if_neg (not_le.mpr left), mlKey, if_neg (not_le.mpr right), Sum.Lex.toLex_le_toLex,
    Sum.lex_inr_inr]
  exact lex_rank

theorem victimKey_protected
    (left : p.requestEpoch < r.protectedUntilEpoch) (right : p.requestEpoch < q.protectedUntilEpoch) :
    PDPEvictor.victimKey p.requestEpoch b r ≤ PDPEvictor.victimKey p.requestEpoch c q ↔
      rank p r < rank p q ∨ rank p r = rank p q ∧
        (q.lastAccessed < r.lastAccessed ∨ r.lastAccessed = q.lastAccessed ∧ b ≤ c) := by
  rw [PDPEvictor.victimKey, if_neg (not_le.mpr left), PDPEvictor.victimKey,
    if_neg (not_le.mpr right), Sum.Lex.toLex_le_toLex, Sum.lex_inr_inr]
  refine lex_rank.trans ?_
  rw [Prod.Lex.toLex_le_toLex, neg_lt_neg_iff, neg_inj]
  rfl

theorem key_expired
    (expired : r.protectedUntilEpoch ≤ p.requestEpoch) (c : BlockId) (q : PDPBlockMetaData) :
    (mlKey p b r ≤ mlKey p c q ↔
      PDPEvictor.victimKey p.requestEpoch b r ≤ PDPEvictor.victimKey p.requestEpoch c q) ∧
    (p.requestEpoch < q.protectedUntilEpoch →
      ¬ PDPEvictor.victimKey p.requestEpoch c q ≤ PDPEvictor.victimKey p.requestEpoch b r) := by
  constructor
  · unfold mlKey PDPEvictor.victimKey
    rw [if_pos expired, if_pos expired]
    split
    · simp only [Sum.Lex.toLex_le_toLex, Sum.lex_inl_inl]
    · simp [Sum.Lex.toLex_le_toLex]
  · intro safe
    unfold PDPEvictor.victimKey
    rw [if_pos expired, if_neg (not_le.mpr safe)]
    simp [Sum.Lex.toLex_le_toLex]

def Least {κ : Type} [LinearOrder κ] (p : PDPEvictor) (key : BlockId → PDPBlockMetaData → κ)
    (b : BlockId) (record : PDPBlockMetaData) : Prop :=
  p.freeTable.get? b = some record ∧
    ∀ c other, p.freeTable.get? c = some other → key b record ≤ key c other

theorem Least.tied
    (safe : ∀ c q, p.freeTable.get? c = some q → p.requestEpoch < q.protectedUntilEpoch)
    (least : Least p (mlKey p) b r) : Tied p b r ∧ ∀ c q, Tied p c q → b ≤ c := by
  obtain ⟨resident, least⟩ := least
  have below c q (found : p.freeTable.get? c = some q) :=
    (mlKey_protected (safe b r resident) (safe c q found)).mp (least c q found)
  refine ⟨⟨resident, fun c q found => ?_⟩, fun c q tied => ?_⟩
  · rcases below c q found with lower | ⟨same, -⟩
    · exact lower.le
    · exact same.le
  · rcases below c q tied.1 with lower | ⟨-, first⟩
    · exact absurd lower (not_lt.mpr (tied.2 b r resident))
    · exact first

theorem mlKey_injective (same : mlKey p b r = mlKey p c q) : b = c := by
  unfold mlKey at same
  split_ifs at same <;> simp at same
  · exact same.2.2
  · exact same.2.2.2

theorem victimKey_injective {epoch : ℤ}
    (same : PDPEvictor.victimKey epoch b r = PDPEvictor.victimKey epoch c q) : b = c := by
  unfold PDPEvictor.victimKey at same
  split_ifs at same <;> simp at same
  · exact same.2.2
  · exact same.2.2.2.2

/-- Given the least block on either side, they are the same block exactly under the condition. -/
theorem victims_agree_iff (ml : Least p (mlKey p) b r)
    (pdp : Least p (PDPEvictor.victimKey p.requestEpoch) c q) : b = c ↔ LeastIdLatest p := by
  by_cases expired : ∃ b record, p.freeTable.get? b = some record ∧
      record.protectedUntilEpoch ≤ p.requestEpoch
  · refine ⟨fun _ => Or.inl expired, fun _ => ?_⟩
    obtain ⟨d, s, resident, stale⟩ := expired
    have stale' : q.protectedUntilEpoch ≤ p.requestEpoch := by
      by_contra safe
      exact (key_expired stale c q).2 (not_le.mp safe) (pdp.2 d s resident)
    exact mlKey_injective (le_antisymm (ml.2 c q pdp.1)
      ((key_expired stale' b r).1.mpr (pdp.2 b r ml.1)))
  · push Not at expired
    have safe d s (found : p.freeTable.get? d = some s) := expired d s found
    obtain ⟨tied, first⟩ := ml.tied safe
    constructor
    · rintro rfl
      obtain rfl : r = q := Option.some.inj (ml.1.symm.trans pdp.1)
      refine Or.inr fun d s tied' first' e u tied'' => ?_
      obtain rfl : d = b := le_antisymm (first' b r tied) (first d s tied')
      obtain rfl : s = r := Option.some.inj (tied'.1.symm.trans ml.1)
      rcases (victimKey_protected (safe d s ml.1) (safe e u tied''.1)).mp (pdp.2 e u tied''.1) with
        lower | ⟨-, later | ⟨same, -⟩⟩
      · exact absurd lower (not_lt.mpr (tied''.2 d s ml.1))
      · exact later.le
      · exact same.ge
    · rintro (⟨d, s, found, stale⟩ | latest)
      · exact absurd stale (not_le.mpr (safe d s found))
      · refine victimKey_injective (le_antisymm ?_ (pdp.2 b r ml.1))
        rw [victimKey_protected (safe b r ml.1) (safe c q pdp.1)]
        rcases (tied.2 c q pdp.1).lt_or_eq with lower | same
        · exact Or.inl lower
        · have tied' : Tied p c q := ⟨pdp.1, fun d s found => same ▸ tied.2 d s found⟩
          refine Or.inr ⟨same, ?_⟩
          rcases (latest b r tied first c q tied').lt_or_eq with later | equal
          · exact Or.inl later
          · exact Or.inr ⟨equal.symm, first c q tied'⟩

theorem mlEvict_least [Numpy] (related : Related l p) (nonempty : l.freeTable.size ≠ 0) :
    ∃ b block record, l.freeTable.get? b = some block ∧ Least p (mlKey p) b record ∧
      SameBlock l b block record ∧
      LRUMLEvictor.evict l = .ok (b, block.contentHash) (takeOutPdp b block.contentHash
        { l with sortedDict := l.sortedDict.erase (block.scoreKey b) }) := by
  have sampled : samplePolicy l = some .pdp := by
    cases listed : l.freeTable.items with
    | nil => exact (nonempty (by simp [Dict.size, listed])).elim
    | cons item rest =>
      have found := Dict.mem_items_iff.mp (listed ▸ List.mem_cons_self : item ∈ l.freeTable.items)
      simp [samplePolicy, Dict.values, listed, getPolicy_pdp (related.follow _ _ found)]
  cases least : l.freeTable.items.argmin fun item => pdpVictimKey l item.1 item.2 with
  | none =>
    rw [List.argmin_eq_none] at least
    exact (nonempty (by simp [Dict.size, least])).elim
  | some item =>
    obtain ⟨b, block⟩ := item
    have resident := Dict.mem_items_iff.mp (List.argmin_mem least)
    have removed := removeFromSortedDict_ok related.index resident
    rcases related.table b with ⟨absent, -⟩ | ⟨held, record, found, recorded, both⟩
    · rw [absent] at resident
      cases resident
    obtain rfl : held = block := Option.some.inj (found.symm.trans resident)
    refine ⟨b, held, record, resident, ⟨recorded, fun c other found' => ?_⟩, both, ?_⟩
    · rcases related.table c with ⟨-, missing⟩ | ⟨there, again, resident', recorded', both'⟩
      · rw [missing] at found'
        cases found'
      · obtain rfl : again = other := Option.some.inj (recorded'.symm.trans found')
        rw [← pdpVictimKey_same related both, ← pdpVictimKey_same related both']
        exact List.le_of_mem_argmin (f := fun item : BlockId × BlockMetaData =>
          pdpVictimKey l item.1 item.2) (Dict.mem_items_iff.mpr resident') least
    · rw [LRUMLEvictor.evict, get_bind, sampled]
      simp only [evictPdp, get_bind, least]
      exact bind_of_ok removed

theorem pdpEvict_least (nonempty : p.freeTable.size ≠ 0) :
    ∃ b record, Least p (PDPEvictor.victimKey p.requestEpoch) b record ∧
      PDPEvictor.evict p = .ok (b, record.contentHash) { p with
        freeTable := p.freeTable.erase b
        contentHashToBlockId := forget p.contentHashToBlockId record.contentHash b } := by
  cases least : PDPEvictor.victim p with
  | none =>
    rw [PDPEvictor.victim, List.argmin_eq_none] at least
    exact (nonempty (by simp [Dict.size, least])).elim
  | some item =>
    obtain ⟨b, record⟩ := item
    refine ⟨b, record, ⟨Dict.mem_items_iff.mp (List.argmin_mem least), fun c other found => ?_⟩, ?_⟩
    · exact List.le_of_mem_argmin (f := fun item : BlockId × PDPBlockMetaData =>
        PDPEvictor.victimKey p.requestEpoch item.1 item.2) (Dict.mem_items_iff.mpr found) least
    · simp [PDPEvictor.evict, least, PDPEvictor.forgetHashMapping]

theorem pdpEvict_empty (empty : p.freeTable.size = 0) :
    PDPEvictor.evict p = .error noUsableMemory p := by
  have none : p.freeTable.items = [] := List.length_eq_zero_iff.mp empty
  simp [PDPEvictor.evict, PDPEvictor.victim, none]

theorem size_zero_iff (related : Related l p) : l.freeTable.size = 0 ↔ p.freeTable.size = 0 := by
  rw [Dict.size_eq_zero_iff, Dict.size_eq_zero_iff]
  constructor
  · intro none b
    rcases related.table b with ⟨-, missing⟩ | ⟨block, record, resident, -, -⟩
    · exact missing
    · rw [none b] at resident
      cases resident
  · intro none b
    rcases related.table b with ⟨absent, -⟩ | ⟨block, record, -, recorded, -⟩
    · exact absent
    · rw [none b] at recorded
      cases recorded

theorem evict_together [Numpy] (related : Related l p)
    (nonempty : l.freeTable.size ≠ 0) (latest : LeastIdLatest p) :
    StepTogether LRUMLEvictor.evict PDPEvictor.evict l p := by
  have pdp := related.pdp
  obtain ⟨b, block, record, resident, ml, both, left⟩ := mlEvict_least related nonempty
  obtain ⟨c, record', least, right⟩ := pdpEvict_least (mt (size_zero_iff related).mpr nonempty)
  obtain rfl := (victims_agree_iff ml least).mpr latest
  obtain rfl : record = record' := Option.some.inj (ml.1.symm.trans least.1)
  refine ⟨_, _, _, left, by rw [right, both.contentHash], ?_⟩
  refine related.erase (b := b) rfl ?_ rfl rfl (indexed_erase related.index b block)
    (othersKept_erase l b rfl rfl rfl)
  exact ⟨pdp.settings, pdp.epoch, pdp.distance, pdp.lastSeen, pdp.counts, pdp.total,
    by simp [takeOutPdp, both.contentHash, pdp.mapping]⟩

theorem evict_outcome_iff [Numpy] (related : Related l p) :
    outcome LRUMLEvictor.evict l = outcome PDPEvictor.evict p ↔ LeastIdLatest p := by
  by_cases empty : l.freeTable.size = 0
  · have missing := (size_zero_iff related).mp empty
    rw [outcome_error (evict_empty empty), outcome_error (pdpEvict_empty missing)]
    refine ⟨fun _ => Or.inr fun b record tied => ?_, fun _ => rfl⟩
    rw [Tied, Dict.size_eq_zero_iff.mp missing] at tied
    cases tied.1
  · refine ⟨fun same => ?_, fun latest => ?_⟩
    · obtain ⟨b, block, record, resident, ml, both, left⟩ := mlEvict_least related empty
      obtain ⟨c, record', least, right⟩ := pdpEvict_least (mt (size_zero_iff related).mpr empty)
      rw [outcome_ok left, outcome_ok right] at same
      exact (victims_agree_iff ml least).mp (Prod.mk.inj (Except.ok.inj same)).1
    · obtain ⟨victim, l', p', left, right, -⟩ := evict_together related empty latest
      rw [outcome_ok left, outcome_ok right]

/-! ### Runs side by side -/

/-- Both sides return or raise the same, and are related afterwards. -/
def Agree {α : Type} (x : Method LRUMLEvictor α) (y : Method PDPEvictor α) (l : LRUMLEvictor)
    (p : PDPEvictor) : Prop :=
  outcome x l = outcome y p ∧ Related (after x l) (after y p)

theorem StepTogether.agree {x : Method LRUMLEvictor α} {y : Method PDPEvictor α} (step : StepTogether x y l p) (f : α → β) :
    Agree (do let a ← x; return f a) (do let a ← y; return f a) l p := by
  obtain ⟨a, l', p', left, right, related⟩ := step
  have left' : (do let a ← x; return f a) l = .ok (f a) l' := by simp [left]
  have right' : (do let a ← y; return f a) p = .ok (f a) p' := by simp [right]
  refine ⟨by rw [outcome_ok left', outcome_ok right'], ?_⟩
  rwa [after_ok left', after_ok right']

theorem agree_error {x : Method LRUMLEvictor α} {y : Method PDPEvictor α} {e : PyError} (related : Related l p)
    (left : x l = .error e l) (right : y p = .error e p) (f : α → β) :
    Agree (do let a ← x; return f a) (do let a ← y; return f a) l p := by
  have left' : (do let a ← x; return f a) l = .error e l := by simp [left]
  have right' : (do let a ← y; return f a) p = .error e p := by simp [right]
  refine ⟨by rw [outcome_error left', outcome_error right'], ?_⟩
  rwa [after_error left', after_error right']

theorem call_agree [Numpy] (related : Related l p) {op : Op}
    (plain : op.Plain) (latest : op = .evict → LeastIdLatest p) :
    Agree (callMl op) (callPdp op) l p := by
  cases op with
  | observe h hint hit => exact (observe_together related h hint hit).agree _
  | add b h n t hint => exact (add_together related b h n t plain).agree _
  | update b t hint =>
    rcases related.table b with ⟨absent, missing⟩ | ⟨block, record, resident, recorded, both⟩
    · exact agree_error related (by simp [LRUMLEvictor.update, absent]; rfl)
        (by simp [PDPEvictor.update, missing]) _
    · exact (update_together related t plain resident recorded both).agree _
  | remove b =>
    rcases related.table b with ⟨absent, missing⟩ | ⟨block, record, resident, recorded, both⟩
    · exact agree_error related (by simp [LRUMLEvictor.remove, absent]; rfl)
        (by simp [PDPEvictor.remove, missing]) _
    · exact (remove_together related resident recorded both).agree _
  | evict =>
    by_cases empty : l.freeTable.size = 0
    · exact agree_error related (evict_empty empty)
        (pdpEvict_empty ((size_zero_iff related).mp empty)) _
    · exact (evict_together related empty (latest rfl)).agree _

theorem evict_agree_iff [Numpy] (related : Related l p) :
    outcome (callMl .evict) l = outcome (callPdp .evict) p ↔ LeastIdLatest p := by
  rw [← evict_outcome_iff related]
  simp only [outcome, callMl, callPdp, bind_apply]
  cases LRUMLEvictor.evict l <;> cases PDPEvictor.evict p <;> simp

/-- One call on both evictors; at an `evict`, the victims are not told apart by their last access. -/
def LockStep [Numpy] (s : LRUMLEvictor × PDPEvictor) (op : Op) (t : LRUMLEvictor × PDPEvictor) :
    Prop :=
  op.Plain ∧ (op = .evict → LeastIdLatest s.2) ∧
    t = (after (callMl op) s.1, after (callPdp op) s.2)

/-- Run side by side, the evictors stay related, and agree on every call but an `evict` at which
`LeastIdLatest` fails. -/
theorem run_related [Numpy] {history : List Op} {start s : LRUMLEvictor × PDPEvictor}
    (related : Related start.1 start.2) (run : Run LockStep start history s) :
    Related s.1 s.2 ∧ ∀ op : Op, op.Plain →
      (outcome (callMl op) s.1 = outcome (callPdp op) s.2 ↔ (op = .evict → LeastIdLatest s.2)) := by
  have kept : Related s.1 s.2 := by
    refine run.invariant (I := fun _ s => Related s.1 s.2) related ?_
    rintro h t op u related ⟨plain, latest, rfl⟩
    exact (call_agree related plain latest).2
  refine ⟨kept, fun op plain => ?_⟩
  by_cases evicts : op = .evict
  · subst evicts
    simpa using evict_agree_iff kept
  · exact ⟨fun _ same => (evicts same).elim, fun latest => (call_agree kept plain latest).1⟩

/-- The evictors of the runs below: the warm-up is over and PDP is the policy. -/
def finalizedPdp : LRUMLEvictor :=
  { scheduler := { enabled := true, finalized := true, currentPolicy := .pdp }
    clock := { readings := fun _ => 0 } }

theorem finalizedPdp_related : Related finalizedPdp (PDPEvictor.init {}) := by
  refine ⟨⟨rfl, rfl, rfl⟩, ⟨rfl, rfl, rfl, rfl, rfl, rfl, rfl⟩, fun b => Or.inl ⟨rfl, rfl⟩, ?_,
    ⟨?_, ?_⟩⟩
  · intro b block resident
    cases resident
  · intro b block resident
    cases resident
  · intro item member
    cases member

/-- Two blocks added in one epoch, the one with the smaller id accessed first. -/
def added : List Op :=
  [.add 1 20 16 2 (some { id := some 7 }), .add 0 10 16 1 (some { id := some 7 })]

/-- Both evictors after the given calls, latest first. -/
def execute [Numpy] (start : LRUMLEvictor × PDPEvictor) : List Op → LRUMLEvictor × PDPEvictor
  | [] => start
  | op :: rest => (after (callMl op) (execute start rest).1, after (callPdp op) (execute start rest).2)

instance : DecidablePred Plain
  | none => .isFalse (by rintro ⟨_, hinted, _⟩; cases hinted)
  | some hint => decidable_of_iff (hint.id.isSome ∧ hint.ownPolicy = none) (by simp [Plain])

instance : DecidablePred Op.Plain
  | .add _ _ _ _ hint | .update _ _ hint => inferInstanceAs (Decidable (PdpSimulation.Plain hint))
  | .observe _ _ _ | .remove _ | .evict => .isTrue trivial

instance (p : PDPEvictor) (b : BlockId) (record : PDPBlockMetaData) : Decidable (Tied p b record) :=
  decidable_of_iff (p.freeTable.get? b = some record ∧
    ∀ x ∈ p.freeTable.items, rank p record ≤ rank p x.2)
    (by simp [Tied, Dict.mem_items_iff])

instance (p : PDPEvictor) : Decidable (LeastIdLatest p) :=
  decidable_of_iff ((∃ x ∈ p.freeTable.items, x.2.protectedUntilEpoch ≤ p.requestEpoch) ∨
    ∀ x ∈ p.freeTable.items, Tied p x.1 x.2 →
      (∀ y ∈ p.freeTable.items, Tied p y.1 y.2 → x.1 ≤ y.1) →
      ∀ y ∈ p.freeTable.items, Tied p y.1 y.2 → y.2.lastAccessed ≤ x.2.lastAccessed) (by
    simp only [LeastIdLatest, Prod.exists, Prod.forall, Dict.mem_items_iff]
    refine or_congr Iff.rfl ⟨fun latest b r tied least c q other => ?_,
      fun latest b r _ tied least c q _ other => ?_⟩
    · exact latest b r tied.1 tied (fun c q _ other => least c q other) c q other.1 other
    · exact latest b r tied (fun c q other => least c q other.1 other) c q other)

/-- Of three tied blocks the one with the least id, accessed last, goes first; then, of a reused
block and another, the other. -/
def latestFirst : List Op :=
  [.evict, .update 2 6 (some { id := some 7 }), .observe 20 (some { id := some 7 }) none, .evict,
    .add 2 30 16 3 (some { id := some 7 }), .add 1 20 16 1 (some { id := some 7 }),
    .add 0 10 16 4 (some { id := some 7 })]

theorem run_related_latestFirst : ∃ s : LRUMLEvictor × PDPEvictor,
    s.2.freeTable.keys = [2] ∧ Related s.1 s.2 := by
  obtain ⟨s, run, left⟩ := Run.exists_of_execute (s := (finalizedPdp, PDPEvictor.init {}))
    (h := latestFirst)
    (f := fun s op => if op.Plain ∧ (op = .evict → LeastIdLatest s.2) then
      some (after (@callMl noPrediction op) s.1, after (callPdp op) s.2) else none)
    (P := fun s => s.2.freeTable.keys = [2]) (by decide +kernel)
  refine ⟨s, left, (@run_related noPrediction _ _ _ finalizedPdp_related
    (run.mono fun t op u stepped => ?_)).1⟩
  split at stepped
  · rename_i allowed
    exact ⟨allowed.1, allowed.2, (Option.some.inj stepped).symm⟩
  · cases stepped

theorem added_victims : @result? _ _ _ (@callMl noPrediction .evict)
      (@execute noPrediction (finalizedPdp, PDPEvictor.init {}) added).1 = some (some (0, 10)) ∧
    result? (callPdp .evict)
      (@execute noPrediction (finalizedPdp, PDPEvictor.init {}) added).2 = some (some (1, 20)) := by
  decide +kernel

/-- `PDPEvictor` gives up the block accessed last, `LRUMLEvictor` the one with the smaller id. -/
theorem added_diverge : ¬ ∀ (numpy : Numpy) (history : List Op)
    (start s : LRUMLEvictor × PDPEvictor), Related start.1 start.2 →
    Run (fun s op t => op.Plain ∧
      t = (after (@callMl numpy op) s.1, after (callPdp op) s.2)) start history s →
    Related s.1 s.2 ∧ ∀ op : Op, op.Plain →
      outcome (@callMl numpy op) s.1 = outcome (callPdp op) s.2 := by
  intro claim
  have run : Run (fun s op t => op.Plain ∧
      t = (after (@callMl noPrediction op) s.1, after (callPdp op) s.2))
      (finalizedPdp, PDPEvictor.init {}) added
      (@execute noPrediction (finalizedPdp, PDPEvictor.init {}) added) :=
    .call (.call .start ⟨by decide, rfl⟩) ⟨by decide, rfl⟩
  have same := (claim noPrediction _ _ _ finalizedPdp_related run).2 .evict trivial
  obtain ⟨ml, pdp⟩ := added_victims
  rw [result?_eq_toOption, same, ← result?_eq_toOption, pdp] at ml
  cases ml

end Vllm.Evictor.PdpSimulation
