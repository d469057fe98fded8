import VllmProofs.Data.Runs
import VllmProofs.Evictor.ShadowAccess

/-!
Runs of `EvictionPolicyScheduler.observe`. A record beside the scheduler notes which accesses were
sampled, which simulated caches they hit and when a policy was chosen; the scheduler's policy and
its hit rates are then read off the record.
-/

namespace Vllm.Evictor
open Exec

namespace EvictionPolicyScheduler

/-! ### What one call does -/

/-- Every shadow cache has moved by `R`, and no policy gained or lost one. -/
def Moved (R : ShadowPolicyCache → ShadowPolicyCache → Prop)
    (before after : Dict Policy ShadowPolicyCache) : Prop :=
  ∀ policy, Option.Rel R (before.get? policy) (after.get? policy)

variable {method : Method (Timed ShadowPolicyCache) Unit} {s : EvictionPolicyScheduler}
  {clock : Clock}

variable {policies : List Policy}

/-- A loop over shadow caches, by what the method does to the cache of each policy, when it returns
and when it raises. -/
theorem forShadows_rule {Q : Policy → ShadowPolicyCache → ShadowPolicyCache → Prop}
    {E : Policy → ShadowPolicyCache → PyError → ShadowPolicyCache → Prop} (nodup : policies.Nodup)
    (present : ∀ policy ∈ policies, ∃ cache, s.shadowCaches.get? policy = some cache)
    (each : ∀ policy ∈ policies, ∀ cache clock, s.shadowCaches.get? policy = some cache →
      wp method (fun _ t => Q policy cache t.1) (fun e t => E policy cache e t.1) (cache, clock)) :
    wp (forShadows method policies)
      (fun _ t => ∃ caches, t.1 = { s with shadowCaches := caches } ∧
        (∀ policy ∈ policies, ∃ c d, s.shadowCaches.get? policy = some c ∧
          caches.get? policy = some d ∧ Q policy c d) ∧
        ∀ policy, policy ∉ policies → caches.get? policy = s.shadowCaches.get? policy)
      (fun e t => ∃ caches, t.1 = { s with shadowCaches := caches } ∧
        (∃ policy ∈ policies, ∃ c d, s.shadowCaches.get? policy = some c ∧
          caches.get? policy = some d ∧ E policy c e d) ∧
        ∀ policy, caches.get? policy = s.shadowCaches.get? policy ∨
          policy ∈ policies ∧ ∃ c d, s.shadowCaches.get? policy = some c ∧
            caches.get? policy = some d ∧ (Q policy c d ∨ E policy c e d)) (s, clock) := by
  induction policies generalizing s clock with
  | nil => exact ⟨s.shadowCaches, rfl, by simp, fun _ _ => rfl⟩
  | cons policy rest ih =>
    rw [List.nodup_cons] at nodup
    obtain ⟨cache, found⟩ := present policy List.mem_cons_self
    have elsewhere (moved : ShadowPolicyCache) {other : Policy} (different : other ≠ policy) :
        (s.shadowCaches.insert policy moved).get? other = s.shadowCaches.get? other :=
      Dict.get?_insert_ne different
    have apart {other : Policy} (later : other ∈ rest) : other ≠ policy :=
      fun same => nodup.1 (same ▸ later)
    show wp (onShadow policy method >>= _) _ _ _
    rw [wp_bind]
    show wp (get >>= _) _ _ _
    simp only [wp_bind, wp_get, found, wp_zoom]
    refine (each policy List.mem_cons_self cache clock found).mono ?_ ?_
    · rintro _ ⟨moved, clock'⟩ related
      dsimp only at related ⊢
      refine (ih (s := { s with shadowCaches := s.shadowCaches.insert policy moved }) nodup.2
        (fun other later => ?_) fun other later c clock known => ?_).mono ?_ ?_
      · rw [elsewhere moved (apart later)]
        exact present other (List.mem_cons_of_mem _ later)
      · rw [elsewhere moved (apart later)] at known
        exact each other (List.mem_cons_of_mem _ later) c clock known
      · rintro _ t ⟨caches, same, listed, others⟩
        refine ⟨caches, same, fun other member => ?_, fun other absent => ?_⟩
        · rcases List.mem_cons.mp member with rfl | later
          · exact ⟨cache, moved, found, by rw [others other nodup.1, Dict.get?_insert_self], related⟩
          · obtain ⟨c, d, known, now, kept⟩ := listed other later
            exact ⟨c, d, by rwa [elsewhere moved (apart later)] at known, now, kept⟩
        · rw [List.mem_cons, not_or] at absent
          rw [others other absent.2]
          exact elsewhere moved absent.1
      · rintro e t ⟨caches, same, ⟨other, later, c, d, known, now, failed⟩, all⟩
        rw [elsewhere moved (apart later)] at known
        refine ⟨caches, same, ⟨other, List.mem_cons_of_mem _ later, c, d, known, now, failed⟩,
          fun third => ?_⟩
        by_cases here : third = policy
        · subst here
          have kept := (all third).resolve_right fun again => nodup.1 again.1
          exact Or.inr ⟨List.mem_cons_self, cache, moved, found,
            by rw [kept, Dict.get?_insert_self], Or.inl related⟩
        · rw [← elsewhere moved here]
          exact (all third).imp_right fun later => ⟨List.mem_cons_of_mem _ later.1, later.2⟩
    · rintro e ⟨moved, clock'⟩ failed
      refine ⟨s.shadowCaches.insert policy moved, rfl,
        ⟨policy, List.mem_cons_self, cache, moved, found, Dict.get?_insert_self _ _ _, failed⟩,
        fun other => ?_⟩
      by_cases here : other = policy
      · subst here
        exact Or.inr ⟨List.mem_cons_self, cache, moved, found, Dict.get?_insert_self _ _ _,
          Or.inr failed⟩
      · exact Or.inl (elsewhere moved here)

variable {R : ShadowPolicyCache → ShadowPolicyCache → Prop}

theorem forShadows_wp (each : ∀ cache clock, wp method (fun _ t => R cache t.1)
      (fun _ _ => ¬cache.settings.Divides) (cache, clock)) (nodup : policies.Nodup)
    (present : ∀ policy ∈ policies, ∃ cache, s.shadowCaches.get? policy = some cache) :
    wp (forShadows method policies)
      (fun _ t => ∃ caches, t.1 = { s with shadowCaches := caches } ∧
        (∀ policy ∈ policies, Option.Rel R (s.shadowCaches.get? policy) (caches.get? policy)) ∧
        ∀ policy, policy ∉ policies → caches.get? policy = s.shadowCaches.get? policy)
      (fun _ _ => ∃ policy ∈ policies, ∃ cache, s.shadowCaches.get? policy = some cache ∧
        ¬cache.settings.Divides) (s, clock) := by
  refine (forShadows_rule (Q := fun _ => R) (E := fun _ c _ _ => ¬c.settings.Divides) nodup present
    fun policy _ cache clock _ => each cache clock).mono ?_ ?_
  · rintro _ t ⟨caches, same, listed, others⟩
    refine ⟨caches, same, fun policy member => ?_, others⟩
    obtain ⟨c, d, known, now, related⟩ := listed policy member
    rw [known, now]
    exact .some related
  · rintro e t ⟨caches, -, ⟨policy, member, c, d, known, -, zero⟩, -⟩
    exact ⟨policy, member, c, known, zero⟩

theorem forShadows_keys_wp (each : ∀ cache clock, wp method (fun _ t => R cache t.1)
      (fun _ _ => ¬cache.settings.Divides) (cache, clock))
    (s : EvictionPolicyScheduler) (clock : Clock) :
    wp (forShadows method s.shadowCaches.keys)
      (fun _ t => ∃ caches, t.1 = { s with shadowCaches := caches } ∧ Moved R s.shadowCaches caches)
      (fun _ _ => ∃ policy cache, s.shadowCaches.get? policy = some cache ∧
        ¬cache.settings.Divides) (s, clock) := by
  refine (forShadows_wp each s.shadowCaches.nodup fun policy member =>
    Dict.mem_keys_iff.mp member).mono ?_ fun _ _ ⟨policy, _, found⟩ => ⟨policy, found⟩
  rintro _ t ⟨caches, same, listed, others⟩
  refine ⟨caches, same, fun policy => ?_⟩
  by_cases member : policy ∈ s.shadowCaches.keys
  · exact listed policy member
  · rw [others policy member]
    cases found : s.shadowCaches.get? policy with
    | none => exact .none
    | some cache => exact absurd (Dict.mem_keys_iff.mpr ⟨cache, found⟩) member

/-! ### The choice -/

def threshold (s : EvictionPolicyScheduler) : ℚ :=
  if s.modelSizeB ≤ 14 then s.smallThreshold else s.largeThreshold

/-- Some monitored policy has recorded no event. -/
def Unheard (s : EvictionPolicyScheduler) : Prop :=
  s.mlEvents = [] ∨ ∃ policy cache, s.shadowCaches.get? policy = some cache ∧ cache.events = []

def Best (s : EvictionPolicyScheduler) (policy : Policy) : Prop :=
  policy ∈ s.shadowPolicies ∧ ∀ other ∈ s.shadowPolicies, hitRates s other ≤ hitRates s policy

/-- ML's hit rate is at least the best shadow hit rate plus the threshold, in doubles. -/
def Leads (s : EvictionPolicyScheduler) : Prop :=
  ∀ policy, Best s policy → round64 (hitRates s policy + threshold s) ≤ mlHitRate s

structure Chosen (s : EvictionPolicyScheduler) (policy : Policy) : Prop where
  ml : Unheard s ∨ Leads s → policy = .ml
  shadow : ¬(Unheard s ∨ Leads s) → Best s policy

theorem foldl_min_eq_zero {counts : List ℕ} {start : ℕ} :
    counts.foldl min start = 0 ↔ start = 0 ∨ 0 ∈ counts := by
  induction counts generalizing start with
  | nil => simp
  | cons count rest ih =>
    rw [List.foldl_cons, ih, List.mem_cons]
    have least : min start count = 0 ↔ start = 0 ∨ 0 = count := by omega
    rw [least, or_assoc]

theorem leastEvents_eq_zero : leastEvents s = 0 ↔ Unheard s := by
  rw [leastEvents, foldl_min_eq_zero, Unheard, List.length_eq_zero_iff]
  apply or_congr_right
  constructor
  · intro member
    obtain ⟨cache, listed, none⟩ := List.mem_map.mp member
    obtain ⟨⟨policy, cache⟩, item, rfl⟩ := List.mem_map.mp listed
    exact ⟨policy, cache, Dict.mem_items_iff.mp item, List.length_eq_zero_iff.mp none⟩
  · rintro ⟨policy, cache, found, none⟩
    have listed : cache ∈ s.shadowCaches.values :=
      List.mem_map.mpr ⟨(policy, cache), Dict.mem_items_iff.mpr found, rfl⟩
    exact List.mem_map.mpr ⟨cache, listed, List.length_eq_zero_iff.mpr none⟩

theorem finalizePolicy_wp :
    wp finalizePolicy (fun done t => done = true ∧ ∃ policy, Chosen s policy ∧
        t.1 = { s with currentPolicy := policy, finalized := true })
      (fun _ _ => s.shadowPolicies = []) (s, clock) := by
  show wp (get >>= _) _ _ _
  simp only [wp_bind, wp_get, wp_ite]
  refine ⟨fun none => ⟨rfl, .ml, ⟨fun _ => rfl, fun heard => ?_⟩, rfl⟩, fun some => ?_⟩
  · exact absurd (Or.inl (leastEvents_eq_zero.mp none)) heard
  · rw [leastEvents_eq_zero] at some
    cases best : s.shadowPolicies.argmax (hitRates s) with
    | none => exact List.argmax_eq_none.mp best
    | some policy =>
      have foremost : Best s policy :=
        ⟨List.argmax_mem best, fun other listed => List.le_of_mem_argmax listed best⟩
      have leads : round64 (hitRates s policy + threshold s) ≤ mlHitRate s ↔ Leads s := by
        constructor
        · rintro above other ⟨listed, maximal⟩
          rwa [le_antisymm (foremost.2 other listed) (maximal policy foremost.1)]
        · intro all
          exact all policy foremost
      refine ⟨rfl, if round64 (hitRates s policy + threshold s) ≤ mlHitRate s then .ml else policy,
        ⟨?_, ?_⟩, rfl⟩
      · rintro (unheard | above)
        · exact absurd unheard some
        · rw [if_pos (leads.mpr above)]
      · intro neither
        rw [if_neg fun above => neither (Or.inr (leads.mp above))]
        exact foremost

/-! ### One call of `observe` -/

/-- What `ml_events` gains from a sampled access. -/
def mlOutcome (now : Time) (realHit : Option Bool) : List (Time × ℕ) :=
  (realHit.map fun hit => (now, hit.toNat)).toList

/-- The scheduler after the bookkeeping of a sampled access. -/
def sampled (s : EvictionPolicyScheduler) (now : Time) (realHit : Option Bool)
    (caches : Dict Policy ShadowPolicyCache) : EvictionPolicyScheduler :=
  { s with
    numObservedAccesses := s.numObservedAccesses + 1
    mlEvents := s.mlEvents ++ mlOutcome now realHit
    shadowCaches := caches }

structure Accessed (contentHash : PrefixHash) (now : Time) (c d : ShadowPolicyCache) : Prop where
  events : d.events = c.events ++ [(now, (c.table.contains contentHash).toNat)]
  settings : d.settings = c.settings

/-- What a call can do to an enabled scheduler, by the time it reads and by what it returns. -/
inductive Observed (s : EvictionPolicyScheduler) (contentHash : PrefixHash)
    (realHit : Option Bool) (now : Time) : Bool → EvictionPolicyScheduler → Prop
  | finished (done : s.finalized = true) : Observed s contentHash realHit now false s
  | skipped (warming : s.finalized = false)
      (between : (s.numObservedAccesses + 1) % s.observeStride ≠ 0) :
      Observed s contentHash realHit now false
        { s with numObservedAccesses := s.numObservedAccesses + 1 }
  | recorded {caches : Dict Policy ShadowPolicyCache} (warming : s.finalized = false)
      (due : (s.numObservedAccesses + 1) % s.observeStride = 0)
      (moved : Moved (Accessed contentHash now) s.shadowCaches caches)
      (early : round64 (now - s.startTime) < s.warmupS) :
      Observed s contentHash realHit now false (sampled s now realHit caches)
  | decided {caches : Dict Policy ShadowPolicyCache} {policy : Policy}
      (warming : s.finalized = false) (due : (s.numObservedAccesses + 1) % s.observeStride = 0)
      (moved : Moved (Accessed contentHash now) s.shadowCaches caches)
      (warm : s.warmupS ≤ round64 (now - s.startTime))
      (chosen : Chosen (sampled s now realHit caches) policy) :
      Observed s contentHash realHit now true
        { sampled s now realHit caches with currentPolicy := policy, finalized := true }

variable [Numpy] {contentHash : PrefixHash}

theorem observe_wp
    {cacheHint : Option CacheHint} {realHit : Option Bool} (enabled : s.enabled = true) :
    wp (observe contentHash cacheHint realHit)
      (fun done t => Observed s contentHash realHit (clock.readings clock.reads) done t.1)
      (fun _ _ => s.observeStride = 0 ∨ s.shadowPolicies = [] ∨ ∃ policy cache,
        s.shadowCaches.get? policy = some cache ∧ ¬cache.settings.Divides) (s, clock) := by
  show wp (get >>= _) _ _ _
  simp only [wp_bind, wp_get, enabled, Bool.not_true, Bool.false_eq_true, ↓reduceIte, wp_time]
  generalize clock.readings clock.reads = now
  by_cases finalized : s.finalized = true
  · rw [if_pos finalized]
    exact .finished finalized
  have warming : s.finalized = false := Bool.eq_false_iff.mpr finalized
  rw [if_neg finalized]
  simp only [wp_bind, wp_modify]
  refine ShadowPolicyCache.divides_wp.mono ?_ fun _ _ zero => .inl zero
  rintro answer t ⟨-, isAnswer, rfl⟩
  by_cases due : (s.numObservedAccesses + 1) % s.observeStride = 0
  · rw [isAnswer, decide_eq_true due]
    simp only [Bool.not_true, Bool.false_eq_true, ↓reduceIte, wp_bind]
    have recorded : ∀ (u : EvictionPolicyScheduler) (clock' : Clock),
        recordMlEvent now realHit (u, clock') =
          .ok ⟨⟩ ({ u with mlEvents := u.mlEvents ++ mlOutcome now realHit }, clock') := by
      intro u clock'
      cases realHit with
      | none => simp [recordMlEvent, mlOutcome]
      | some hit => rfl
    rw [wp_of_ok (recorded _ _)]
    have loop := @forShadows_keys_wp
      (ShadowPolicyCache.access contentHash now cacheHint) (Accessed contentHash now) (fun cache clock' => ShadowPolicyCache.access_wp.mono
        (fun _ t accessed => ⟨accessed.1, accessed.2⟩) fun _ _ zero => zero)
      (sampled s now realHit s.shadowCaches) { clock with reads := clock.reads + 1 }
    refine loop.mono ?_ fun _ _ zero => Or.inr (Or.inr zero)
    rintro _ ⟨u, clock'⟩ ⟨caches, same, moved⟩
    have same : u = sampled s now realHit caches := same
    subst same
    split
    · rename_i warm
      refine (@finalizePolicy_wp (sampled s now realHit caches) clock').mono ?_
        fun _ _ none => Or.inr (Or.inl none)
      rintro done ⟨v, clock''⟩ ⟨rfl, policy, chosen, same⟩
      have same : v = { sampled s now realHit caches with
        currentPolicy := policy, finalized := true } := same
      subst same
      exact .decided warming due moved warm chosen
    · rename_i early
      exact .recorded warming due moved (not_le.mp early)
  · rw [isAnswer, decide_eq_false due]
    exact .skipped warming due

/-! ### The record of a run -/

/-- The arguments of a call. -/
structure Call where
  contentHash : PrefixHash
  cacheHint : Option CacheHint := none
  realHit : Option Bool := none

def Call.observe (call : Call) : Method (Timed EvictionPolicyScheduler) Bool :=
  EvictionPolicyScheduler.observe call.contentHash call.cacheHint call.realHit

structure SampledAccess where
  call : ℕ
  time : Time
  realHit : Option Bool
  shadowHit : Policy → Bool

structure Decision where
  call : ℕ
  time : Time
  policy : Policy

/-- The scheduler, and what was seen of its run. -/
structure Watched where
  scheduler : Timed EvictionPolicyScheduler
  calls : ℕ := 0
  accesses : List SampledAccess := []
  decisions : List Decision := []

namespace Watched

/-- The time the next call reads. -/
def now (w : Watched) : Time := w.scheduler.2.readings w.scheduler.2.reads

/-- The next call is one in `observe_stride`, and no policy is chosen yet. -/
def Samples (w : Watched) : Prop :=
  w.decisions.isEmpty = true ∧ ((w.calls + 1 : ℕ) : ℤ) % w.scheduler.1.observeStride = 0

instance (w : Watched) : Decidable w.Samples := inferInstanceAs (Decidable (_ ∧ _))

def simulatedHit (w : Watched) (contentHash : PrefixHash) (policy : Policy) : Bool :=
  (w.scheduler.1.shadowCaches.get? policy).any fun cache => cache.table.contains contentHash

def sampledAccess (w : Watched) (call : Call) : SampledAccess :=
  ⟨w.calls + 1, w.now, call.realHit, w.simulatedHit call.contentHash⟩

/-- The record after a call that returned. -/
def record (w : Watched) (call : Call) (done : Bool) (t : Timed EvictionPolicyScheduler) : Watched where
  scheduler := t
  calls := w.calls + 1
  accesses := if w.Samples then w.accesses ++ [w.sampledAccess call] else w.accesses
  decisions := if done then w.decisions ++ [⟨w.calls + 1, w.now, t.1.currentPolicy⟩]
    else w.decisions

def Step (w : Watched) (call : Call) (v : Watched) : Prop :=
  ∃ done t, call.observe w.scheduler = .ok done t ∧ v = w.record call done t

end Watched

/-- The share of the accesses that a predicate holds of. -/
def fraction (p : SampledAccess → Bool) (accesses : List SampledAccess) : ℚ :=
  accesses.countP p / accesses.length

namespace Watched

/-- The share of the sampled accesses that hit in a simulated cache. -/
def shadowShare (w : Watched) (policy : Policy) : ℚ := fraction (fun access => access.shadowHit policy) w.accesses

def mlShare (w : Watched) : ℚ :=
  fraction (fun access => access.realHit = some true) (w.accesses.filter fun access => access.realHit.isSome)

end Watched

/-- The one decision of a run: on a sampled access, no earlier than the warm-up allows, for the
policy that the recorded hit rates call for. -/
structure Decided (config : SchedulerConfig) (w : Watched) (decision : Decision) : Prop where
  only : w.decisions = [decision]
  finalized : w.scheduler.1.finalized = true
  policy : w.scheduler.1.currentPolicy = decision.policy
  warm : config.schedulerWarmup ≤ round64 (decision.time - w.scheduler.1.startTime)
  access : ∃ access, w.accesses.getLast? = some access ∧ access.call = decision.call ∧
    access.time = decision.time
  chosen : Chosen w.scheduler.1 decision.policy

/-- Shares that are apart are compared without regard to rounding. -/
structure Apart (w : Watched) (policy : Policy) : Prop where
  ahead : (∀ other ∈ w.scheduler.1.shadowPolicies,
    w.shadowShare other + threshold w.scheduler.1 + 2 ^ (-51 : ℤ) ≤ w.mlShare) → policy = .ml
  behind : (∃ other ∈ w.scheduler.1.shadowPolicies,
    w.mlShare + 2 ^ (-51 : ℤ) < w.shadowShare other + threshold w.scheduler.1) →
    ¬Unheard w.scheduler.1 → Best w.scheduler.1 policy

/-- What is to hold of a scheduler built from `config`, whatever calls it has seen. -/
structure Faithful (config : SchedulerConfig) (w : Watched) : Prop where
  undecided : w.decisions = [] → w.scheduler.1.finalized = false ∧
    w.scheduler.1.currentPolicy = config.schedulerInitialPolicy
  decided : ∀ decision ∈ w.decisions, Decided config w decision
  shadowRate : ∀ policy ∈ w.scheduler.1.shadowPolicies,
    hitRates w.scheduler.1 policy = round64 (w.shadowShare policy)
  mlRate : mlHitRate w.scheduler.1 = round64 w.mlShare
  apart : threshold w.scheduler.1 ∈ Set.Icc 0 1 → ∀ decision ∈ w.decisions, Apart w decision.policy
  /-- A call after the policy is chosen changes nothing. -/
  settled : w.decisions ≠ [] → ∀ call v, w.Step call v →
    v.scheduler.1 = w.scheduler.1 ∧ v.accesses = w.accesses ∧ v.decisions = w.decisions

/-! ### The configuration stays -/

structure Configured (config : SchedulerConfig) (s : EvictionPolicyScheduler) : Prop where
  enabled : s.enabled = true
  stride : 1 ≤ s.observeStride
  warmup : s.warmupS = config.schedulerWarmup
  shadows : s.shadowPolicies ≠ []
  notMl : .ml ∉ s.shadowPolicies
  cached : ∀ policy ∈ s.shadowPolicies, ∃ cache, s.shadowCaches.get? policy = some cache
  divides : config.pdp.Divides →
    ∀ policy cache, s.shadowCaches.get? policy = some cache → cache.settings.Divides

variable {before after : Dict Policy ShadowPolicyCache} {policy : Policy}

omit [Numpy] in
theorem Moved.forward (moved : Moved R before after)
    {c : ShadowPolicyCache} (found : before.get? policy = some c) :
    ∃ d, after.get? policy = some d ∧ R c d := by
  have related := moved policy
  rw [found] at related
  generalize after.get? policy = later at related
  cases related with
  | some related => exact ⟨_, rfl, related⟩

omit [Numpy] in
theorem Moved.backward (moved : Moved R before after)
    {d : ShadowPolicyCache} (found : after.get? policy = some d) :
    ∃ c, before.get? policy = some c ∧ R c d := by
  have related := moved policy
  rw [found] at related
  generalize before.get? policy = earlier at related
  cases related with
  | some related => exact ⟨_, rfl, related⟩

variable {config : SchedulerConfig} {caches : Dict Policy ShadowPolicyCache}

omit [Numpy] in
theorem Configured.moved (configured : Configured config s) {now : Time}
    (moved : Moved (Accessed contentHash now) s.shadowCaches caches) (realHit : Option Bool) :
    Configured config (sampled s now realHit caches) where
  enabled := configured.enabled
  stride := configured.stride
  warmup := configured.warmup
  shadows := configured.shadows
  notMl := configured.notMl
  cached policy listed := by
    obtain ⟨c, found⟩ := configured.cached policy listed
    obtain ⟨d, later, -⟩ := moved.forward found
    exact ⟨d, later⟩
  divides nonzero policy d found := by
    obtain ⟨c, earlier, accessed⟩ := moved.backward found
    rw [accessed.settings]
    exact configured.divides nonzero policy c earlier

omit [Numpy] in
theorem Observed.configured {t : EvictionPolicyScheduler} {realHit : Option Bool} {now : Time} {done : Bool}
    (observed : Observed s contentHash realHit now done t) (configured : Configured config s) :
    Configured config t := by
  cases observed with
  | finished => exact configured
  | skipped => exact { configured with }
  | recorded _ _ moved => exact configured.moved moved realHit
  | decided _ _ moved => exact { configured.moved moved realHit with }

omit [Numpy] in
theorem freshCaches_get? (capacity : ℤ) (settings : PdpSettings) (policies : List Policy)
    (policy : Policy) : (freshCaches capacity settings policies).get? policy =
      if policy ∈ policies then some (ShadowPolicyCache.init policy capacity settings) else none := by
  have grown : ∀ (policies : List Policy) (caches : Dict Policy ShadowPolicyCache),
      (policies.foldl (fun caches policy =>
        caches.insert policy (ShadowPolicyCache.init policy capacity settings)) caches).get? policy =
      if policy ∈ policies then some (ShadowPolicyCache.init policy capacity settings)
      else caches.get? policy := by
    intro policies
    induction policies with
    | nil => simp
    | cons first rest ih =>
      intro caches
      rw [List.foldl_cons, ih, Dict.get?_insert]
      by_cases here : policy = first
      · subst here
        simp
      · simp [here]
  exact grown policies ∅

omit [Numpy] in
theorem parseShadowPolicies_ok {value : Option String}
    (parsed : parseShadowPolicies value = .ok policies) : policies ≠ [] ∧ .ml ∉ policies := by
  unfold parseShadowPolicies at parsed
  split at parsed
  · cases parsed
    decide
  · dsimp only at parsed
    split at parsed
    · cases parsed
    · split at parsed
      · cases parsed
      · rename_i nonempty
        cases parsed
        exact ⟨nonempty, by simp⟩

variable {built : Timed EvictionPolicyScheduler}

omit [Numpy] in
theorem init_ok
    (constructed : init config clock = .ok built) (enabled : asBool config.enableScheduler = true) :
    Configured config built.1 ∧ built.1.finalized = false ∧
      built.1.currentPolicy = config.schedulerInitialPolicy ∧ built.1.numObservedAccesses = 0 ∧
      built.1.mlEvents = [] ∧
      ∀ policy cache, built.1.shadowCaches.get? policy = some cache → cache.events = [] := by
  unfold init at constructed
  cases parsed : parseShadowPolicies config.schedulerShadowPolicies with
  | error e =>
    rw [parsed] at constructed
    cases constructed
  | ok policies =>
    rw [parsed] at constructed
    cases constructed
    obtain ⟨nonempty, notMl⟩ := parseShadowPolicies_ok parsed
    have fresh : ∀ policy cache,
        (freshCaches config.schedulerCapacity config.pdp policies).get? policy = some cache →
        cache = ShadowPolicyCache.init policy config.schedulerCapacity config.pdp := by
      intro policy cache found
      rw [freshCaches_get?] at found
      split at found
      · exact (Option.some.inj found).symm
      · cases found
    refine ⟨⟨enabled, le_max_left _ _, rfl, nonempty, notMl, ?_, ?_⟩, rfl, rfl, rfl, rfl, ?_⟩
    · intro policy listed
      exact ⟨_, by rw [freshCaches_get?, if_pos listed]⟩
    · intro nonzero policy cache found
      rw [fresh policy cache found, ShadowPolicyCache.init]
      dsimp only
      split
      · exact nonzero
      · exact ⟨by decide, by decide⟩
    · intro policy cache found
      rw [fresh policy cache found, ShadowPolicyCache.init]

/-! ### The record keeps up with the scheduler -/

structure Tracks (config : SchedulerConfig) (w : Watched) : Prop where
  configured : Configured config w.scheduler.1
  counted : w.decisions = [] → w.scheduler.1.numObservedAccesses = w.calls
  undecided : w.decisions = [] → w.scheduler.1.finalized = false ∧
    w.scheduler.1.currentPolicy = config.schedulerInitialPolicy
  decided : ∀ decision ∈ w.decisions, Decided config w decision
  mlEvents : w.scheduler.1.mlEvents.map Prod.snd =
    w.accesses.filterMap fun access => access.realHit.map Bool.toNat
  shadowEvents : ∀ policy cache, w.scheduler.1.shadowCaches.get? policy = some cache →
    cache.events.map Prod.snd = w.accesses.map fun access => (access.shadowHit policy).toNat

omit [Numpy] in
theorem init_tracks
    (constructed : init config clock = .ok built) (enabled : asBool config.enableScheduler = true) :
    Tracks config { scheduler := built } := by
  obtain ⟨configured, warming, policy, count, ml, shadows⟩ := init_ok constructed enabled
  refine ⟨configured, fun _ => count, fun _ => ⟨warming, policy⟩, ?_, ?_, ?_⟩
  · intro decision member
    cases member
  · simp [ml]
  · intro policy cache found
    simp [shadows policy cache found]

variable {w : Watched} {call : Call}

omit [Numpy] in
theorem Tracks.logged (tracks : Tracks config w)
    (moved : Moved (Accessed call.contentHash w.now) w.scheduler.1.shadowCaches caches) :
    (sampled w.scheduler.1 w.now call.realHit caches).mlEvents.map Prod.snd =
      (w.accesses ++ [w.sampledAccess call]).filterMap
        (fun access => access.realHit.map Bool.toNat) ∧
    ∀ policy cache, caches.get? policy = some cache → cache.events.map Prod.snd =
      (w.accesses ++ [w.sampledAccess call]).map fun access => (access.shadowHit policy).toNat := by
  constructor
  · rw [List.filterMap_append, ← tracks.mlEvents]
    cases hit : call.realHit with
    | none => simp [sampled, mlOutcome, Watched.sampledAccess, hit]
    | some _ => simp [sampled, mlOutcome, Watched.sampledAccess, hit]
  · intro policy d found
    obtain ⟨c, earlier, accessed⟩ := moved.backward found
    rw [accessed.events, List.map_append, List.map_append, tracks.shadowEvents policy c earlier]
    simp [Watched.sampledAccess, Watched.simulatedHit, earlier]

omit [Numpy] in
theorem Tracks.record (tracks : Tracks config w) {done : Bool} {t : Timed EvictionPolicyScheduler}
    (observed : Observed w.scheduler.1 call.contentHash call.realHit w.now done t.1) :
    Tracks config (w.record call done t) := by
  have configured := observed.configured tracks.configured
  have open' : w.scheduler.1.finalized = false → w.decisions = [] := by
    intro warming
    cases decisions : w.decisions with
    | nil => rfl
    | cons decision rest =>
      have finalized := (tracks.decided decision (by simp [decisions])).finalized
      rw [warming] at finalized
      cases finalized
  have samples : w.scheduler.1.finalized = false →
      (w.Samples ↔ (w.scheduler.1.numObservedAccesses + 1) % w.scheduler.1.observeStride = 0) := by
    intro warming
    have none := open' warming
    rw [tracks.counted none, Watched.Samples, none]
    simp
  have accesses (finalizes : Bool) (v : Timed EvictionPolicyScheduler) (taken : w.Samples) :
      (w.record call finalizes v).accesses = w.accesses ++ [w.sampledAccess call] := if_pos taken
  obtain ⟨u, clock⟩ := t
  cases observed with
  | finished done =>
    have some : w.decisions ≠ [] := fun none => by
      have warming := (tracks.undecided none).1
      rw [done] at warming
      cases warming
    have idle : ¬w.Samples := fun samples => some (List.isEmpty_iff.mp samples.1)
    have same : w.record call false (w.scheduler.1, clock) =
        { w with scheduler := (w.scheduler.1, clock), calls := w.calls + 1 } := by
      simp [Watched.record, idle]
    rw [same]
    exact ⟨configured, fun none => absurd none some, fun none => absurd none some,
      fun decision member => { tracks.decided decision member with }, tracks.mlEvents,
      tracks.shadowEvents⟩
  | skipped warming between =>
    have none := open' warming
    have idle : ¬w.Samples := fun sampled => between ((samples warming).mp sampled)
    refine ⟨configured, fun _ => ?_, fun _ => tracks.undecided none, ?_, ?_, ?_⟩
    · simp [Watched.record, tracks.counted none]
    · simp [Watched.record, none]
    · simpa [Watched.record, idle] using tracks.mlEvents
    · simpa [Watched.record, idle] using tracks.shadowEvents
  | recorded warming due moved early =>
    have none := open' warming
    have taken : w.Samples := (samples warming).mpr due
    obtain ⟨ml, shadows⟩ := tracks.logged moved
    refine ⟨configured, fun _ => ?_, fun _ => tracks.undecided none, ?_, ?_, ?_⟩
    · simp [Watched.record, tracks.counted none]
    · simp [Watched.record, none]
    · rw [accesses _ _ taken]
      exact ml
    · rw [accesses _ _ taken]
      exact shadows
  | decided warming due moved warm chosen =>
    have none := open' warming
    have taken : w.Samples := (samples warming).mpr due
    obtain ⟨ml, shadows⟩ := tracks.logged moved
    refine ⟨configured, ?_, ?_, ?_, ?_, ?_⟩
    · simp [Watched.record, none]
    · simp [Watched.record, none]
    · intro decision member
      simp only [Watched.record, none, List.nil_append, ↓reduceIte, List.mem_singleton] at member
      subst member
      refine ⟨by simp [Watched.record, none], rfl, rfl, ?_, ?_, ?_⟩
      · rw [← tracks.configured.warmup]
        exact warm
      · exact ⟨w.sampledAccess call, by rw [accesses _ _ taken, List.getLast?_concat], rfl, rfl⟩
      · exact ⟨chosen.ml, chosen.shadow⟩
    · rw [accesses _ _ taken]
      exact ml
    · rw [accesses _ _ taken]
      exact shadows

theorem Tracks.observes (tracks : Tracks config w) (call : Call) : wp call.observe
      (fun done t => Observed w.scheduler.1 call.contentHash call.realHit w.now done t.1)
      (fun _ _ => w.scheduler.1.observeStride = 0 ∨ w.scheduler.1.shadowPolicies = [] ∨
        ∃ policy cache, w.scheduler.1.shadowCaches.get? policy = some cache ∧
          ¬cache.settings.Divides)
      w.scheduler :=
  observe_wp tracks.configured.enabled

theorem Tracks.step {v : Watched}
    (tracks : Tracks config w) (stepped : w.Step call v) : Tracks config v := by
  obtain ⟨done, t, called, rfl⟩ := stepped
  exact tracks.record ((tracks.observes call).ok called)

/-! ### Hit rates -/

omit [Numpy] in
theorem hitRate_of_flags {events : List (Time × ℕ)} {accesses : List SampledAccess}
    {p : SampledAccess → Bool}
    (logged : events.map Prod.snd = accesses.map fun access => (p access).toNat) :
    hitRate events = round64 (fraction p accesses) := by
  have length : events.length = accesses.length := by
    have same := congrArg List.length logged
    rwa [List.length_map, List.length_map] at same
  have sum : (accesses.map fun access => (p access).toNat).sum = accesses.countP p := by
    clear logged length
    induction accesses with
    | nil => rfl
    | cons access rest ih =>
      rw [List.map_cons, List.sum_cons, List.countP_cons, ih]
      cases p access <;> simp [Nat.add_comm]
  rw [hitRate, fraction, logged, sum, ← length]
  split
  · rename_i none
    rw [List.isEmpty_iff.mp none]
    simp [round64_zero]
  · rfl

omit [Numpy] in
theorem Tracks.shadowRate (tracks : Tracks config w) (listed : policy ∈ w.scheduler.1.shadowPolicies) :
    hitRates w.scheduler.1 policy = round64 (w.shadowShare policy) := by
  have notMl : policy ≠ .ml := fun same => tracks.configured.notMl (same ▸ listed)
  obtain ⟨cache, found⟩ := tracks.configured.cached policy listed
  rw [hitRates, if_neg notMl, found]
  exact hitRate_of_flags (tracks.shadowEvents policy cache found)

omit [Numpy] in
theorem Tracks.mlRate (tracks : Tracks config w) : mlHitRate w.scheduler.1 = round64 w.mlShare := by
  apply hitRate_of_flags
  rw [tracks.mlEvents]
  generalize w.accesses = accesses
  induction accesses with
  | nil => rfl
  | cons access rest ih =>
    cases hit : access.realHit with
    | none => simp [hit, ih]
    | some hit => simp [hit, ih]

omit [Numpy] in
theorem fraction_mem (p : SampledAccess → Bool) (accesses : List SampledAccess) :
    fraction p accesses ∈ Set.Icc 0 1 := by
  refine ⟨by unfold fraction; positivity, div_le_one_of_le₀ ?_ (by positivity)⟩
  exact_mod_cast List.countP_le_length

omit [Numpy] in
theorem abs_round64_share_le (p : SampledAccess → Bool) (accesses : List SampledAccess) :
    |round64 (fraction p accesses) - fraction p accesses| ≤ 2 ^ (-53 : ℤ) := by
  obtain ⟨nonneg, most⟩ := fraction_mem p accesses
  refine abs_round64_sub_le (k := 0) ?_ (by norm_num)
  rw [abs_of_nonneg nonneg]
  norm_num
  linarith

omit [Numpy] in
theorem abs_round64_add_le (p : SampledAccess → Bool) (accesses : List SampledAccess) {bound : ℚ}
    (within : bound ∈ Set.Icc 0 1) :
    |round64 (round64 (fraction p accesses) + bound) - (round64 (fraction p accesses) + bound)| ≤ 2 ^ (-52 : ℤ) := by
  obtain ⟨nonneg, most⟩ := fraction_mem p accesses
  have rate := abs_le.mp (abs_round64_share_le p accesses)
  refine abs_round64_sub_le (k := 1) ?_ (by norm_num)
  rw [abs_lt]
  norm_num at rate within ⊢
  constructor <;> linarith

omit [Numpy] in
theorem Tracks.apart (tracks : Tracks config w)
    (within : threshold w.scheduler.1 ∈ Set.Icc 0 1) {decision : Decision} (member : decision ∈ w.decisions) :
    Apart w decision.policy := by
  have chosen := (tracks.decided decision member).chosen
  have ml := abs_le.mp (abs_round64_share_le (fun access => access.realHit = some true)
    (w.accesses.filter fun access => access.realHit.isSome))
  have rate := fun policy : Policy =>
    abs_le.mp (abs_round64_share_le (fun access => access.shadowHit policy) w.accesses)
  have sum := fun policy : Policy =>
    abs_le.mp (abs_round64_add_le (fun access => access.shadowHit policy) w.accesses within)
  have total : (2 : ℚ) ^ (-52 : ℤ) + 2 ^ (-53 : ℤ) + 2 ^ (-53 : ℤ) = 2 ^ (-51 : ℤ) := by norm_num
  refine ⟨fun ahead => chosen.ml (Or.inr fun policy best => ?_), fun ⟨other, listed, behind⟩ heard =>
    chosen.shadow (not_or.mpr ⟨heard, fun leads => ?_⟩)⟩
  · have above := ahead policy best.1
    have shadow := rate policy
    have added := sum policy
    rw [tracks.shadowRate best.1, tracks.mlRate]
    unfold Watched.shadowShare Watched.mlShare at *
    linarith
  · have some : w.scheduler.1.shadowPolicies.argmax (hitRates w.scheduler.1) ≠ none :=
      fun none => List.ne_nil_of_mem listed (List.argmax_eq_none.mp none)
    obtain ⟨best, foremost⟩ := Option.ne_none_iff_exists'.mp some
    have most : hitRates w.scheduler.1 other ≤ hitRates w.scheduler.1 best :=
      List.le_of_mem_argmax listed foremost
    have lead := leads best
      ⟨List.argmax_mem foremost, fun third member => List.le_of_mem_argmax member foremost⟩
    have shadow := rate other
    have added := sum best
    rw [tracks.shadowRate listed, tracks.shadowRate (List.argmax_mem foremost)] at most
    rw [tracks.shadowRate (List.argmax_mem foremost), tracks.mlRate] at lead
    unfold Watched.shadowShare Watched.mlShare at *
    linarith

/-! ### Runs -/

theorem Tracks.faithful (tracks : Tracks config w) : Faithful config w where
  undecided := tracks.undecided
  decided := tracks.decided
  shadowRate _ listed := tracks.shadowRate listed
  mlRate := tracks.mlRate
  apart within _ member := tracks.apart within member
  settled some call v stepped := by
    obtain ⟨done, t, called, rfl⟩ := stepped
    obtain ⟨decision, member⟩ := List.exists_mem_of_ne_nil _ some
    have observed := (tracks.observes call).ok called
    have finalized := (tracks.decided decision member).finalized
    have idle : ¬w.Samples := fun samples => some (List.isEmpty_iff.mp samples.1)
    obtain ⟨u, clock⟩ := t
    cases observed with
    | finished => exact ⟨rfl, if_neg idle, rfl⟩
    | skipped warming => exact absurd (warming.symm.trans finalized) (by decide)
    | recorded warming => exact absurd (warming.symm.trans finalized) (by decide)
    | decided warming => exact absurd (warming.symm.trans finalized) (by decide)

/-- Whatever accesses an enabled scheduler observes, it keeps its policy until it finalises, once,
on the hit rates of the accesses it sampled. Only a PDP setting of zero can make a call raise. -/
theorem run_faithful {config : SchedulerConfig} {clock : Clock}
    {built : Timed EvictionPolicyScheduler} (constructed : init config clock = .ok built)
    (enabled : asBool config.enableScheduler = true) {calls : List Call} {w : Watched}
    (run : Run Watched.Step { scheduler := built } calls w) :
    Faithful config w ∧
      (config.pdp.Divides → ∀ call : Call, ∃ done t, call.observe w.scheduler = .ok done t) := by
  have tracks : Tracks config w := by
    apply run.invariant (I := fun _ w => Tracks config w) (init_tracks constructed enabled)
    intro _ w call v tracks stepped
    exact tracks.step stepped
  refine ⟨tracks.faithful, fun nonzero call => ?_⟩
  have total : wp call.observe (fun _ _ => True) (fun _ _ => False) w.scheduler := by
    apply (tracks.observes call).mono (fun _ _ _ => trivial)
    rintro _ _ (zero | none | ⟨policy, cache, found, zero⟩)
    · have stride := tracks.configured.stride
      omega
    · exact tracks.configured.shadows none
    · exact zero (tracks.configured.divides nonzero policy cache found)
  obtain ⟨done, t, called, -⟩ := total.returns
  exact ⟨done, t, called⟩

/-- Every access is sampled, and the clock ticks once a reading. -/
def briskConfig : SchedulerConfig :=
  { enableScheduler := "1", schedulerWarmup := 2, schedulerCapacity := 4, schedulerObserveStride := 1 }

def briskClock : Clock := { readings := fun n => n }

/-- Two accesses to one hash; the real cache misses both. -/
def briskCalls : List Call :=
  [{ contentHash := 7, realHit := some false }, { contentHash := 7, realHit := some false }]

def Watched.next? (w : Watched) (call : Call) : Option Watched :=
  match call.observe w.scheduler with
  | .ok done t => some (w.record call done t)
  | .error _ _ => none

theorem Watched.next?_step {v : Watched} (next : w.next? call = some v) : w.Step call v := by
  unfold Watched.next? at next
  split at next
  · rename_i done t called
    cases next
    exact ⟨done, t, called, rfl⟩
  · cases next

/-- An `exp` for runs without an ML shadow. -/
abbrev unusedExp : Numpy := ⟨fun _ => 1⟩

omit [Numpy] in
theorem exists_of_execute {calls : List Call} {p : Watched → Bool}
    (found : ((init config clock).toOption.bind fun built =>
      Run.execute (@Watched.next? unusedExp) { scheduler := built } calls).any p = true) :
    ∃ built w, init config clock = .ok built ∧
      Run (@Watched.Step unusedExp) { scheduler := built } calls w ∧ p w = true := by
  obtain ⟨w, reached, chosen⟩ := (Option.any_eq_true _ _).mp found
  obtain ⟨built, constructed, ran⟩ := Option.bind_eq_some_iff.mp reached
  refine ⟨built, w, ?_, ?_, chosen⟩
  · cases outcome : init config clock with
    | error e =>
      rw [outcome] at constructed
      cases constructed
    | ok other =>
      rw [outcome] at constructed
      cases constructed
      rfl
  · apply Run.of_execute _ ran
    intro t call u next
    exact @Watched.next?_step unusedExp t call u next

omit [Numpy] in
theorem run_faithful_brisk : ∃ w, @Faithful unusedExp briskConfig w ∧
    w.scheduler.1.currentPolicy = .lru := by
  have ran : ((init briskConfig briskClock).toOption.bind fun built =>
      Run.execute (@Watched.next? unusedExp) { scheduler := built } briskCalls).any
        (fun w => w.scheduler.1.currentPolicy = .lru) = true := by
    decide +kernel
  obtain ⟨built, w, constructed, run, chosen⟩ := exists_of_execute ran
  have enabled : asBool briskConfig.enableScheduler = true := by decide +kernel
  exact ⟨w, (@run_faithful unusedExp briskConfig briskClock built constructed enabled briskCalls w
    run).1, of_decide_eq_true chosen⟩

/-- Twelve accesses, and ML is to be ahead by a quarter. -/
def boundaryConfig : SchedulerConfig :=
  { briskConfig with schedulerWarmup := 12, schedulerCapacity := 20, schedulerSmallThreshold := 1 / 4 }

/-- Five accesses are to hashes seen before, and eight hit in the real cache. -/
def boundaryCalls : List Call :=
  [5, 4, 3, 2, 1, 7, 6, 5, 4, 3, 2, 1].zipIdx.map fun (contentHash, i) =>
    { contentHash, realHit := some (decide (i < 8)) }

omit [Numpy] in
/-- ML is ahead by just what is asked, but not in doubles. -/
theorem boundary_prefersLru : ∃ built w, init boundaryConfig briskClock = .ok built ∧
    Run (@Watched.Step unusedExp) { scheduler := built } boundaryCalls w ∧
    (w.scheduler.1.finalized = true ∧ w.scheduler.1.currentPolicy = .lru) ∧
    ∀ policy ∈ w.scheduler.1.shadowPolicies,
      w.shadowShare policy + threshold w.scheduler.1 ≤ w.mlShare := by
  have ran : ((init boundaryConfig briskClock).toOption.bind fun built =>
      Run.execute (@Watched.next? unusedExp) { scheduler := built } boundaryCalls).any
        (fun w => decide ((w.scheduler.1.finalized = true ∧ w.scheduler.1.currentPolicy = .lru) ∧
          ∀ policy ∈ w.scheduler.1.shadowPolicies,
            w.shadowShare policy + threshold w.scheduler.1 ≤ w.mlShare)) = true := by
    decide +kernel
  obtain ⟨built, w, constructed, run, chosen⟩ := exists_of_execute ran
  exact ⟨built, w, constructed, run, of_decide_eq_true chosen⟩

end EvictionPolicyScheduler
end Vllm.Evictor
