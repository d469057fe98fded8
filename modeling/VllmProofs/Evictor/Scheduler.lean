import VllmProofs.Data.Binary64
import VllmProofs.Evictor.ProtectingDistance

/-!
`EvictionPolicyScheduler` and the shadow caches it watches during warm-up. A shadow cache replays
the sampled accesses under one policy; after the warm-up the policy with the best hit rate wins. Hit rates are
compared as doubles.
-/

namespace Vllm.Evictor
open Exec

/-- numpy's `exp`. -/
class Numpy where
  exp : ℚ → WithTop ℚ

/-- The readings of `time.time()`, and how many of them are spent. -/
structure Clock where
  readings : ℕ → Time
  reads : ℕ := 0
  /-- Was a score of `LRUMLEvictor` nan? The source keeps no record of it. -/
  sawNan : Bool := false

/-- An object and the clock its methods read. -/
abbrev Timed (σ : Type) := σ × Clock

def time {σ : Type} : Method (Timed σ) Time := do
  let (s, clock) ← get
  set (s, { clock with reads := clock.reads + 1 })
  return clock.readings clock.reads

def rripMaxRrpv : ℕ := 3

def rripInsertRrpv : ℕ := rripMaxRrpv - 1

def rripHitRrpv : ℕ := 0

structure ShadowEntry where
  firstAccessed : Time
  lastAccessed : Time
  rrpv : ℕ := rripInsertRrpv
  score : Score := .number 0
  cacheHint : Option CacheHint
  pdpProtectedUntil : ℤ := 0
  pdpLastAccessEpoch : ℤ := 0
  pdpReused : Bool := false

structure ShadowPolicyCache where
  policy : Policy
  capacity : ℤ
  table : Dict PrefixHash ShadowEntry := ∅
  events : List (Time × ℕ) := []
  settings : PdpSettings := {}
  pdpEpoch : ℤ := 0
  pdpProtectingDistance : ℤ := settings.initialPd
  pdpLastSeenEpoch : Dict PrefixHash ℤ := ∅
  pdpReuseDistanceCounts : Dict ℤ ℤ := ∅
  pdpTotalAccesses : ℤ := 0

/-- The mean of the recorded hit flags; `hit_rate` and `_ml_hit_rate`. -/
def hitRate (events : List (Time × ℕ)) : ℚ :=
  if events.isEmpty then 0 else round64 ((events.map Prod.snd).sum / events.length)

/-- The order of `ShadowPolicyCache._pdp_victim_key`. -/
abbrev ShadowVictimKey :=
  (ℤ ×ₗ Time ×ₗ PrefixHash) ⊕ₗ (ℕ ×ₗ ℤ ×ₗ ℤ ×ₗ PrefixHash)

namespace ShadowPolicyCache

def hitRate (s : ShadowPolicyCache) : ℚ := Evictor.hitRate s.events

def numEvents (s : ShadowPolicyCache) : ℕ := s.events.length

def mlScore [Numpy] (lastAccessed : Time) (cacheHint : Option CacheHint) (now : Time) : Score :=
  match cacheHint.bind CacheHint.probHasNext with
  | some probHasNext => probabilityOfFutureArrival Numpy.exp probHasNext
      ((cacheHint.bind CacheHint.expScale).getD 1) (now - lastAccessed)
  | none => .number lastAccessed

def pdpVictimKey (pdpEpoch : ℤ) (contentHash : PrefixHash) (entry : ShadowEntry) :
    ShadowVictimKey :=
  if entry.pdpProtectedUntil ≤ pdpEpoch then
    toLex (.inl (toLex (entry.pdpLastAccessEpoch, toLex (entry.lastAccessed, contentHash))))
  else
    toLex (.inr (toLex (entry.pdpReused.toNat, toLex (-(entry.pdpProtectedUntil - pdpEpoch),
      toLex (-entry.pdpLastAccessEpoch, contentHash)))))

/-- `min` of the table's hashes by a key of hash and entry. -/
def leastBy {κ : Type} [LinearOrder κ] (key : PrefixHash → ShadowEntry → κ)
    (items : List (PrefixHash × ShadowEntry)) : Option PrefixHash :=
  (items.argmin fun item => key item.1 item.2).map Prod.fst

def byLastAccess (contentHash : PrefixHash) (entry : ShadowEntry) : Time ×ₗ PrefixHash :=
  toLex (entry.lastAccessed, contentHash)

def aged (_ : PrefixHash) (entry : ShadowEntry) : ShadowEntry :=
  { entry with rrpv := min rripMaxRrpv (entry.rrpv + 1) }

/-- `_rrip_victim`: each round without a candidate ages every entry. -/
def rripVictim : ℕ → Method (Timed ShadowPolicyCache) PrefixHash
  | 0 => throw .recursionError
  | rounds + 1 => do
    let (s, clock) ← get
    match leastBy byLastAccess (s.table.items.filter fun item => rripMaxRrpv ≤ item.2.rrpv) with
    | some victim => return victim
    | none =>
      set ({ s with table := s.table.mapVal aged }, clock)
      rripVictim rounds

/-- The victim `_evict` picks from a table that is not empty. -/
def selectVictim [Numpy] : Method (Timed ShadowPolicyCache) (Option PrefixHash) := do
  let (s, _) ← get
  let items := s.table.items
  match s.policy with
  | .fifo => return leastBy (fun contentHash entry => toLex (entry.firstAccessed, contentHash)) items
  | .rrip => some <$> rripVictim (rripMaxRrpv + 1)
  | .pdp => return leastBy (pdpVictimKey s.pdpEpoch) items
  | .ml => do
    let now ← time
    return leastBy (fun contentHash entry =>
      toLex (mlScore entry.lastAccessed entry.cacheHint now, byLastAccess contentHash entry)) items
  | _ => return leastBy byLastAccess items

def evict [Numpy] : Method (Timed ShadowPolicyCache) Unit := do
  let (s, _) ← get
  if s.table.size = 0 then return
  match ← selectVictim with
  | none => pure ()
  | some victim => modify fun (s, clock) => ({ s with table := s.table.erase victim }, clock)

/-- `while len(self.table) > limit: self._evict()`, for at most the given number of rounds. -/
def evictDownTo [Numpy] (limit : ℤ) : ℕ → Method (Timed ShadowPolicyCache) Unit
  | 0 => do
    let (s, _) ← get
    if limit < s.table.size then throw .recursionError
  | rounds + 1 => do
    let (s, _) ← get
    if limit < s.table.size then
      evict
      evictDownTo limit rounds

def setCapacity [Numpy] (capacity : ℤ) : Method (Timed ShadowPolicyCache) Unit := do
  let (s, clock) ← get
  set ({ s with capacity }, clock)
  evictDownTo capacity s.table.size

def pdpBucketDistance (distance : ℤ) : Method (Timed ShadowPolicyCache) ℤ := do
  let (s, _) ← get
  bucketed s.settings distance

def pdpRecompute : Method (Timed ShadowPolicyCache) Unit := do
  let (s, clock) ← get
  let pdpProtectingDistance ← bestProtectingDistance s.settings s.pdpReuseDistanceCounts
    s.pdpTotalAccesses s.pdpProtectingDistance
  set ({ s with pdpProtectingDistance }, clock)

/-- The reuse distance of an access to a hash seen before. -/
def recordReuse (contentHash : PrefixHash) : Method (Timed ShadowPolicyCache) Unit := do
  let (s, _) ← get
  match s.pdpLastSeenEpoch.get? contentHash with
  | none => pure ()
  | some previous =>
    let distance ← pdpBucketDistance (s.pdpEpoch - previous)
    modify fun (s, clock) => ({ s with
      pdpReuseDistanceCounts := countReuse s.pdpReuseDistanceCounts distance }, clock)

/-- The bookkeeping of `access` that only a PDP shadow does. -/
def observePdp (contentHash : PrefixHash) : Method (Timed ShadowPolicyCache) Unit := do
  modify fun (s, clock) => ({ s with
    pdpEpoch := s.pdpEpoch + 1
    pdpTotalAccesses := s.pdpTotalAccesses + 1 }, clock)
  recordReuse contentHash
  modify fun (s, clock) => ({ s with
    pdpLastSeenEpoch := s.pdpLastSeenEpoch.insert contentHash s.pdpEpoch }, clock)
  let (s, _) ← get
  if ← divides s.pdpTotalAccesses s.settings.recomputeInterval then pdpRecompute

def observeIfPdp (contentHash : PrefixHash) : Method (Timed ShadowPolicyCache) Unit := do
  let (s, _) ← get
  if s.policy = .pdp then observePdp contentHash

/-- The entry after a hit. -/
def touched [Numpy] (s : ShadowPolicyCache) (entry : ShadowEntry) (now : Time)
    (cacheHint : Option CacheHint) : ShadowEntry :=
  let entry := { entry with lastAccessed := now, cacheHint }
  match s.policy with
  | .rrip => { entry with rrpv := rripHitRrpv }
  | .ml => { entry with score := mlScore entry.lastAccessed cacheHint now }
  | .pdp => { entry with
      pdpProtectedUntil := s.pdpEpoch + s.pdpProtectingDistance
      pdpLastAccessEpoch := s.pdpEpoch
      pdpReused := true }
  | _ => entry

def newEntry [Numpy] (s : ShadowPolicyCache) (now : Time) (cacheHint : Option CacheHint) :
    ShadowEntry :=
  let entry : ShadowEntry := { firstAccessed := now, lastAccessed := now, cacheHint }
  match s.policy with
  | .pdp => { entry with
      pdpProtectedUntil := s.pdpEpoch + s.pdpProtectingDistance
      pdpLastAccessEpoch := s.pdpEpoch }
  | .ml => { entry with score := mlScore entry.lastAccessed cacheHint now }
  | _ => entry

def access [Numpy] (contentHash : PrefixHash) (now : Time) (cacheHint : Option CacheHint) :
    Method (Timed ShadowPolicyCache) Unit := do
  let (s, clock) ← get
  let hit := s.table.contains contentHash
  set ({ s with events := s.events ++ [(now, hit.toNat)] }, clock)
  observeIfPdp contentHash
  let (s, clock) ← get
  match s.table.get? contentHash with
  | some entry =>
    set ({ s with table := s.table.insert contentHash (touched s entry now cacheHint) }, clock)
  | none =>
    if s.capacity ≤ 0 then return
    evictDownTo (s.capacity - 1) s.table.size
    modify fun (s, clock) => ({ s with
      table := s.table.insert contentHash (newEntry s now cacheHint) }, clock)

end ShadowPolicyCache

structure EvictionPolicyScheduler where
  enabled : Bool := false
  warmupS : Time := 100
  minEvents : ℤ := 1000
  smallThreshold : ℚ := round64 (1 / 10)
  largeThreshold : ℚ := round64 (1 / 20)
  modelSizeB : ℚ := 7
  currentPolicy : Policy := .ml
  startTime : Time := 0
  finalized : Bool := false
  capacity : ℤ := 0
  observeStride : ℤ := 4
  numObservedAccesses : ℤ := 0
  mlEvents : List (Time × ℕ) := []
  shadowPolicies : List Policy := [.lru, .rrip, .fifo, .pdp]
  shadowCaches : Dict Policy ShadowPolicyCache := ∅

/-- `ShadowPolicyCache.__init__`; only a PDP shadow is given the settings. -/
def ShadowPolicyCache.init (policy : Policy) (capacity : ℤ) (settings : PdpSettings) :
    ShadowPolicyCache :=
  { policy, capacity, settings := if policy = .pdp then settings else {} }

/-- The scheduler's keys of the evictor configuration. -/
structure SchedulerConfig where
  enableScheduler : String := "0"
  schedulerWarmup : Time := 100
  schedulerMinEvents : ℤ := 1000
  schedulerSmallThreshold : ℚ := round64 (1 / 10)
  schedulerLargeThreshold : ℚ := round64 (1 / 20)
  modelSizeB : ℚ := 7
  schedulerInitialPolicy : Policy := .ml
  schedulerCapacity : ℤ := 0
  schedulerObserveStride : ℤ := 4
  schedulerShadowPolicies : Option String := none
  pdp : PdpSettings := {}

def Policy.ofName? : String → Option Policy
  | "ml" => some .ml
  | "lru" => some .lru
  | "rrip" => some .rrip
  | "fifo" => some .fifo
  | "pdp" => some .pdp
  | _ => none

namespace EvictionPolicyScheduler

def asBool (value : String) : Bool := ["1", "true", "yes", "on"].contains value.toLower

def unknownShadowPolicies (invalid : List String) : PyError :=
  .valueError ("Unknown scheduler shadow policies: [" ++
    ", ".intercalate (invalid.map fun name => "'" ++ name ++ "'") ++
    "]. Supported policies: ('ml', 'lru', 'rrip', 'fifo', 'pdp')")

def parseShadowPolicies (value : Option String) : Except PyError (List Policy) :=
  if value = none ∨ value = some "" then return [.lru, .rrip, .fifo, .pdp]
  else do
    let names := (((value.getD "").splitOn "|").map fun name => name.trimAscii.toString).filter
      (· ≠ "")
    let invalid := names.filter fun name => (Policy.ofName? name).isNone
    if invalid ≠ [] then throw (unknownShadowPolicies invalid)
    let policies := (names.filterMap Policy.ofName?).filter (· ≠ .ml)
    if policies = [] then
      throw (.valueError "scheduler_shadow_policies must include at least one non-ML policy")
    return policies

/-- `{policy: ShadowPolicyCache(policy, ...) for policy in self.shadow_policies}` -/
def freshCaches (capacity : ℤ) (settings : PdpSettings) (policies : List Policy) :
    Dict Policy ShadowPolicyCache :=
  policies.foldl (fun caches policy =>
    caches.insert policy (ShadowPolicyCache.init policy capacity settings)) ∅

def init (config : SchedulerConfig) (clock : Clock) :
    Except PyError (Timed EvictionPolicyScheduler) := do
  let shadowPolicies ← parseShadowPolicies config.schedulerShadowPolicies
  return ({
    enabled := asBool config.enableScheduler
    warmupS := config.schedulerWarmup
    minEvents := config.schedulerMinEvents
    smallThreshold := config.schedulerSmallThreshold
    largeThreshold := config.schedulerLargeThreshold
    modelSizeB := config.modelSizeB
    currentPolicy := config.schedulerInitialPolicy
    startTime := clock.readings clock.reads
    capacity := config.schedulerCapacity
    observeStride := max 1 config.schedulerObserveStride
    shadowPolicies
    shadowCaches := freshCaches config.schedulerCapacity config.pdp shadowPolicies },
    { clock with reads := clock.reads + 1 })

/-- A method of one shadow cache, run on the scheduler that owns it. -/
def onShadow (policy : Policy) (method : Method (Timed ShadowPolicyCache) Unit) :
    Method (Timed EvictionPolicyScheduler) Unit := do
  let (s, _) ← get
  match s.shadowCaches.get? policy with
  | none => throw .keyError
  | some cache =>
    zoom (fun (_, clock) => (cache, clock))
      (fun (cache, clock) (s, _) =>
        ({ s with shadowCaches := s.shadowCaches.insert policy cache }, clock)) method

/-- A loop over `self.shadow_caches.values()`. -/
def forShadows (method : Method (Timed ShadowPolicyCache) Unit) :
    List Policy → Method (Timed EvictionPolicyScheduler) Unit
  | [] => pure ()
  | policy :: rest => do
    onShadow policy method
    forShadows method rest

def setCapacity [Numpy] (capacity : ℤ) : Method (Timed EvictionPolicyScheduler) Unit := do
  modify fun (s, clock) => ({ s with capacity }, clock)
  let (s, _) ← get
  forShadows (ShadowPolicyCache.setCapacity capacity) s.shadowCaches.keys

def mlHitRate (s : EvictionPolicyScheduler) : ℚ := hitRate s.mlEvents

def hitRates (s : EvictionPolicyScheduler) (policy : Policy) : ℚ :=
  if policy = .ml then mlHitRate s
  else ((s.shadowCaches.get? policy).map ShadowPolicyCache.hitRate).getD 0

/-- The least number of events recorded for a monitored policy. -/
def leastEvents (s : EvictionPolicyScheduler) : ℕ :=
  (s.shadowCaches.values.map ShadowPolicyCache.numEvents).foldl min s.mlEvents.length

def finalizePolicy : Method (Timed EvictionPolicyScheduler) Bool := do
  let (s, clock) ← get
  if leastEvents s = 0 then
    set ({ s with currentPolicy := .ml, finalized := true }, clock)
    return true
  match s.shadowPolicies.argmax (hitRates s) with
  | none => throw (.valueError "max() arg is an empty sequence")
  | some bestShadowPolicy =>
    let threshold := if s.modelSizeB ≤ 14 then s.smallThreshold else s.largeThreshold
    let bestPolicy :=
      if round64 (hitRates s bestShadowPolicy + threshold) ≤ mlHitRate s then .ml else bestShadowPolicy
    set ({ s with currentPolicy := bestPolicy, finalized := true }, clock)
    return true

/-- `ml_events` counts the accesses whose real outcome is known. -/
def recordMlEvent (now : Time) (realHit : Option Bool) : Method (Timed EvictionPolicyScheduler) Unit :=
  match realHit with
  | none => pure ()
  | some hit =>
    modify fun (s, clock) => ({ s with mlEvents := s.mlEvents ++ [(now, hit.toNat)] }, clock)

def observe [Numpy] (contentHash : PrefixHash) (cacheHint : Option CacheHint)
    (realHit : Option Bool) : Method (Timed EvictionPolicyScheduler) Bool := do
  let (s, _) ← get
  if !s.enabled then return false
  let now ← time
  if s.finalized then return false
  modify fun (s, clock) =>
    ({ s with numObservedAccesses := s.numObservedAccesses + 1 }, clock)
  if !(← divides (s.numObservedAccesses + 1) s.observeStride) then return false
  recordMlEvent now realHit
  forShadows (ShadowPolicyCache.access contentHash now cacheHint) s.shadowCaches.keys
  if s.warmupS ≤ round64 (now - s.startTime) then finalizePolicy
  else return false

def shouldPredict (s : EvictionPolicyScheduler) : Bool :=
  !s.enabled || !s.finalized || s.currentPolicy = .ml

end EvictionPolicyScheduler

/-! ### Exceptions the scheduler does not raise -/

theorem time_avoids {σ : Type} {e : PyError} : Avoids e (time : Method (Timed σ) Time) :=
  .bind .get fun _ => .bind (.set _) fun _ => .pure _

structure Foreign (e : PyError) : Prop where
  key : .keyError ≠ e
  fuel : .recursionError ≠ e
  zero : .zeroDivisionError ≠ e
  step : .valueError "range() arg 3 must not be zero" ≠ e
  empty : .valueError "max() arg is an empty sequence" ≠ e

namespace ShadowPolicyCache

variable {e : PyError}

section
variable (foreign : Foreign e)
include foreign

theorem rripVictim_avoids (rounds : ℕ) : Avoids e (rripVictim rounds) := by
  induction rounds with
  | zero => exact .throw foreign.fuel
  | succ rounds ih =>
    refine .bind .get fun ⟨s, clock⟩ => ?_
    dsimp only
    split
    · exact .pure _
    · exact .bind (.set _) fun _ => ih

theorem selectVictim_avoids [Numpy] : Avoids e selectVictim := by
  refine .bind .get fun ⟨s, clock⟩ => ?_
  dsimp only
  split
  · exact .pure _
  · exact .map (rripVictim_avoids foreign _)
  · exact .pure _
  · exact .bind time_avoids fun _ => .pure _
  · exact .pure _

theorem evict_avoids [Numpy] : Avoids e evict := by
  refine .bind .get fun ⟨s, clock⟩ =>
    .ite (.pure _) (.bind (selectVictim_avoids foreign) fun victim => ?_)
  cases victim with
  | none => exact .pure _
  | some victim => exact .modify _

theorem evictDownTo_avoids [Numpy] (limit : ℤ) (rounds : ℕ) :
    Avoids e (evictDownTo limit rounds) := by
  induction rounds with
  | zero => exact .bind .get fun ⟨s, clock⟩ => .ite (.throw foreign.fuel) (.pure _)
  | succ rounds ih =>
    exact .bind .get fun ⟨s, clock⟩ =>
      .ite (.bind (evict_avoids foreign) fun _ => ih) (.pure _)

theorem recordReuse_avoids (contentHash : PrefixHash) : Avoids e (recordReuse contentHash) := by
  refine .bind .get fun ⟨s, clock⟩ => ?_
  dsimp only
  split
  · exact .pure _
  · exact .bind (.bind .get fun ⟨_, _⟩ => bucketed_avoids foreign.zero) fun _ => .modify _

theorem observeIfPdp_avoids (contentHash : PrefixHash) : Avoids e (observeIfPdp contentHash) := by
  have recompute : Avoids e pdpRecompute :=
    .bind .get fun ⟨_, _⟩ => .bind (bestProtectingDistance_avoids foreign.step) fun _ => .set _
  have observed : Avoids e (observePdp contentHash) :=
    .bind (.modify _) fun _ => .bind (recordReuse_avoids foreign _) fun _ =>
      .bind (.modify _) fun _ => .bind .get fun ⟨_, _⟩ =>
      .bind (divides_avoids foreign.zero) fun _ => .ite recompute (.pure _)
  exact .bind .get fun ⟨_, _⟩ => .ite observed (.pure _)

theorem access_avoids [Numpy] (contentHash : PrefixHash) (now : Time)
    (cacheHint : Option CacheHint) : Avoids e (access contentHash now cacheHint) := by
  refine .bind .get fun ⟨_, _⟩ => .bind (.set _) fun _ =>
    .bind (observeIfPdp_avoids foreign _) fun _ => .bind .get fun ⟨_, _⟩ => ?_
  dsimp only
  split
  · exact .set _
  · exact .ite (.pure _) (.bind (evictDownTo_avoids foreign _ _) fun _ => .modify _)

end

end ShadowPolicyCache

namespace EvictionPolicyScheduler

variable {e : PyError}

theorem forShadows_avoids (foreign : Foreign e) {method : Method (Timed ShadowPolicyCache) Unit}
    (each : Avoids e method) (policies : List Policy) : Avoids e (forShadows method policies) := by
  induction policies with
  | nil => exact .pure _
  | cons policy rest ih =>
    refine .bind (.bind .get fun ⟨_, _⟩ => ?_) fun _ => ih
    dsimp only
    split
    · exact .throw foreign.key
    · exact .zoom each

theorem finalizePolicy_avoids (foreign : Foreign e) : Avoids e finalizePolicy := by
  refine .bind .get fun ⟨_, _⟩ => .ite (.bind (.set _) fun _ => .pure _) ?_
  dsimp only
  split
  · exact .throw foreign.empty
  · exact .bind (.set _) fun _ => .pure _

theorem observe_avoids [Numpy] (foreign : Foreign e) (contentHash : PrefixHash)
    (cacheHint : Option CacheHint) (realHit : Option Bool) :
    Avoids e (observe contentHash cacheHint realHit) := by
  have recorded (now : Time) : Avoids e (recordMlEvent now realHit) := by
    cases realHit with
    | none => exact .pure _
    | some hit => exact .modify _
  exact .bind .get fun ⟨_, _⟩ => .ite (.pure _) <| .bind time_avoids fun _ =>
    .ite (.pure _) <| .bind (.modify _) fun _ => .bind (divides_avoids foreign.zero) fun _ =>
    .ite (.pure _) <| .bind (recorded _) fun _ =>
    .bind (forShadows_avoids foreign (ShadowPolicyCache.access_avoids foreign _ _ _) _) fun _ =>
    .ite (finalizePolicy_avoids foreign) (.pure _)

end EvictionPolicyScheduler
end Vllm.Evictor
