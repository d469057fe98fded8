import VllmProofs.Evictor.LruMlQuiet
import VllmProofs.Evictor.PdpRecompute

/-!
Where the `pdp_*` settings make an observation divide by zero. `PDPEvictor` clamps them; the shadow
cache and `LRUMLEvictor` take them as they are, so a zero interval fails every observation PDP makes
and a zero bucket size the first one of a hash seen before.
-/

namespace Vllm.Evictor
open Exec

namespace PdpSettings

/-- An observation under the settings divides by zero, of a hash seen before or not. -/
def FailsAt (c : PdpSettings) (seen : Bool) : Prop :=
  c.recomputeInterval = 0 ∨ c.bucketSize = 0 ∧ seen = true

theorem Divides.not_failsAt {c : PdpSettings} (divides : c.Divides) (seen : Bool) : ¬c.FailsAt seen :=
  fun fails => fails.elim divides.1 fun both => divides.2 both.1

end PdpSettings

/-- Nothing is counted under a bucket size of zero. -/
def Countless (c : PdpSettings) (counts : Dict ℤ ℤ) : Prop := c.bucketSize = 0 → counts.size = 0

section
variable {σ : Type} {c : PdpSettings} {counts : Dict ℤ ℤ}

theorem bucketed_pure (nonzero : c.bucketSize ≠ 0) (d : ℤ) :
    ∃ bucket, (bucketed c d : Method σ ℤ) = pure bucket := by
  unfold bucketed floorDiv
  split
  · exact ⟨_, rfl⟩
  · exact ⟨_, rfl⟩

theorem bucketed_zero (zero : c.bucketSize = 0) (d : ℤ) :
    (bucketed c d : Method σ ℤ) = throw .zeroDivisionError := by
  unfold bucketed floorDiv
  rw [if_neg (by omega), if_pos zero]
  rfl

theorem bestProtectingDistance_pure (countless : Countless c counts) (total pd : ℤ) :
    ∃ best, (bestProtectingDistance c counts total pd : Method σ ℤ) = pure best := by
  unfold bestProtectingDistance range
  split
  · exact ⟨pd, rfl⟩
  · rename_i active
    rw [if_neg fun zero => active (Or.inl (countless zero)), pure_bind]
    exact ⟨_, rfl⟩

end

/-! ### A shadow cache -/

variable {clock : Clock} {h : PrefixHash} {c : ShadowPolicyCache} {hint : Option CacheHint}

namespace ShadowPolicyCache

structure Sane (policy : Policy) (settings : PdpSettings) (c : ShadowPolicyCache) : Prop where
  kind : c.policy = policy
  settings : policy = .pdp → c.settings = settings
  countless : Countless c.settings c.pdpReuseDistanceCounts

variable {policy : Policy} {settings : PdpSettings}

theorem init_sane (policy : Policy) (capacity : ℤ) (settings : PdpSettings) :
    Sane policy settings (init policy capacity settings) :=
  ⟨rfl, fun pdp => if_pos pdp, fun _ => rfl⟩

/-- A method that keeps the cache sane and raises no arithmetic error. -/
abbrev SaneMethod {α : Type} (policy : Policy) (settings : PdpSettings)
    (x : Method (Timed ShadowPolicyCache) α) : Prop :=
  Confined (fun s => Sane policy settings s.1) (fun e => ¬Arithmetic e) x

theorem rripVictim_sane (rounds : ℕ) : SaneMethod policy settings (rripVictim rounds) := by
  induction rounds with
  | zero => exact .throw (by decide)
  | succ rounds ih =>
    refine .read fun ⟨c, clock⟩ sane => ?_
    dsimp only
    split
    · exact .pure _
    · exact .bind (.set ⟨sane.kind, sane.settings, sane.countless⟩) fun _ => ih

variable [Numpy]

theorem evict_sane : SaneMethod policy settings evict := by
  have select : SaneMethod policy settings selectVictim := by
    refine .read fun ⟨c, clock⟩ sane => ?_
    dsimp only
    split
    · exact .pure _
    · exact .map (rripVictim_sane _)
    · exact .pure _
    · exact .bind (.read fun ⟨_, _⟩ sane => .bind (.set sane) fun _ => .pure _) fun _ => .pure _
    · exact .pure _
  refine .read fun ⟨c, clock⟩ sane => .ite (.pure _) (.bind select fun victim => ?_)
  cases victim with
  | none => exact .pure _
  | some victim =>
    exact .modify fun _ sane => ⟨sane.kind, sane.settings, sane.countless⟩

theorem evictDownTo_sane (limit : ℤ) (rounds : ℕ) :
    SaneMethod policy settings (evictDownTo limit rounds) := by
  induction rounds with
  | zero => exact .read fun ⟨_, _⟩ _ => .ite (.throw (by decide)) (.pure _)
  | succ rounds ih => exact .read fun ⟨_, _⟩ _ => .ite (.bind evict_sane fun _ => ih) (.pure _)

theorem setCapacity_sane (capacity : ℤ) : SaneMethod policy settings (setCapacity capacity) :=
  .read fun ⟨_, _⟩ sane => .bind (.set ⟨sane.kind, sane.settings, sane.countless⟩) fun _ =>
    evictDownTo_sane _ _

omit [Numpy] in
theorem observePdp_fails (sane : Sane .pdp settings c) : wp (observePdp h)
      (fun _ t => Sane .pdp settings t.1 ∧ ¬settings.FailsAt (c.pdpLastSeenEpoch.contains h))
      (fun e t => Sane .pdp settings t.1 ∧ settings.FailsAt (c.pdpLastSeenEpoch.contains h) ∧
        Arithmetic e) (c, clock) := by
  have same := sane.settings rfl
  -- the rest of the observation, after a reuse distance has been recorded
  have rest : ∀ d : ShadowPolicyCache, Sane .pdp settings d →
      ¬(settings.bucketSize = 0 ∧ c.pdpLastSeenEpoch.contains h = true) →
      wp (do
          modify fun (s, clock) => ({ s with
            pdpLastSeenEpoch := s.pdpLastSeenEpoch.insert h s.pdpEpoch }, clock)
          let (s, _) ← get
          if ← divides s.pdpTotalAccesses s.settings.recomputeInterval then pdpRecompute)
        (fun _ t => Sane .pdp settings t.1 ∧ ¬settings.FailsAt (c.pdpLastSeenEpoch.contains h))
        (fun e t => Sane .pdp settings t.1 ∧ settings.FailsAt (c.pdpLastSeenEpoch.contains h) ∧
          Arithmetic e) (d, clock) := by
    intro d kept fine
    obtain rfl := kept.settings rfl
    rw [wp_bind, wp_modify, wp_bind, wp_get]
    dsimp only
    rw [wp_bind]
    by_cases zero : d.settings.recomputeInterval = 0
    · rw [divides, if_pos zero, wp_throw]
      exact ⟨⟨kept.kind, kept.settings, kept.countless⟩, Or.inl zero, Or.inl rfl⟩
    · have passes : ¬d.settings.FailsAt (c.pdpLastSeenEpoch.contains h) :=
        fun fails => fails.elim zero fine
      obtain ⟨best, computed⟩ := bestProtectingDistance_pure (σ := Timed ShadowPolicyCache)
        kept.countless d.pdpTotalAccesses d.pdpProtectingDistance
      rw [divides, if_neg zero, wp_pure, wp_ite]
      refine ⟨fun _ => ?_, fun _ => ⟨⟨kept.kind, kept.settings, kept.countless⟩, passes⟩⟩
      rw [pdpRecompute, wp_bind, wp_get]
      dsimp only
      rw [wp_bind, computed, wp_pure, wp_set]
      exact ⟨⟨kept.kind, kept.settings, kept.countless⟩, passes⟩
  rw [observePdp, wp_bind, wp_modify]
  dsimp only
  rw [wp_bind, recordReuse, wp_bind, wp_get]
  dsimp only
  cases found : c.pdpLastSeenEpoch.get? h with
  | none =>
    have unseen : c.pdpLastSeenEpoch.contains h = false := Dict.not_contains_iff.mpr found
    exact rest _ ⟨sane.kind, sane.settings, sane.countless⟩ (by simp [unseen])
  | some previous =>
    have seen : c.pdpLastSeenEpoch.contains h = true := Dict.contains_iff.mpr ⟨previous, found⟩
    dsimp only
    rw [wp_bind, pdpBucketDistance, wp_bind, wp_get]
    dsimp only
    by_cases zero : c.settings.bucketSize = 0
    · rw [bucketed_zero zero, wp_throw]
      rw [same] at zero
      exact ⟨⟨sane.kind, sane.settings, sane.countless⟩, Or.inr ⟨zero, seen⟩, Or.inl rfl⟩
    · obtain ⟨bucket, computed⟩ := bucketed_pure (σ := Timed ShadowPolicyCache) zero
        (c.pdpEpoch + 1 - previous)
      rw [computed, wp_pure, wp_modify]
      refine rest _ ⟨sane.kind, sane.settings, fun none => absurd none zero⟩ ?_
      rw [← same]
      exact fun both => zero both.1

/-- An access fails as its PDP bookkeeping does; under another policy it does not. -/
theorem access_fails {now : Time} (sane : Sane policy settings c) : wp (access h now hint)
      (fun _ t => Sane policy settings t.1 ∧
        ¬(policy = .pdp ∧ settings.FailsAt (c.pdpLastSeenEpoch.contains h)))
      (fun e t => Sane policy settings t.1 ∧ Arithmetic e ∧ policy = .pdp ∧
        settings.FailsAt (c.pdpLastSeenEpoch.contains h)) (c, clock) := by
  have observed : wp (observeIfPdp h)
      (fun _ t => Sane policy settings t.1 ∧
        ¬(policy = .pdp ∧ settings.FailsAt (c.pdpLastSeenEpoch.contains h)))
      (fun e t => Sane policy settings t.1 ∧ Arithmetic e ∧ policy = .pdp ∧
        settings.FailsAt (c.pdpLastSeenEpoch.contains h))
      ({ c with events := c.events ++ [(now, (c.table.contains h).toNat)] }, clock) := by
    have kept : Sane policy settings { c with events := c.events ++ [(now, (c.table.contains h).toNat)] } :=
      ⟨sane.kind, sane.settings, sane.countless⟩
    rw [observeIfPdp, wp_bind, wp_get]
    dsimp only
    rw [wp_ite]
    refine ⟨fun pdp => ?_, fun other => ⟨kept, fun both => other (sane.kind.trans both.1)⟩⟩
    obtain rfl : policy = .pdp := sane.kind.symm.trans pdp
    refine (observePdp_fails kept).mono ?_ ?_
    · exact fun _ t fine => ⟨fine.1, fun both => fine.2 both.2⟩
    · exact fun e t failed => ⟨failed.1, failed.2.2, rfl, failed.2.1⟩
  rw [access, wp_bind, wp_get]
  dsimp only
  rw [wp_bind, wp_set, wp_bind]
  refine observed.mono ?_ fun _ _ failed => failed
  rintro _ ⟨d, clock'⟩ ⟨kept, fine⟩
  -- nothing that is left to do raises
  rw [wp_bind, wp_get]
  dsimp only
  cases d.table.get? h with
  | some entry => exact ⟨⟨kept.kind, kept.settings, kept.countless⟩, fine⟩
  | none =>
    simp only [wp_ite]
    refine ⟨fun _ => ⟨kept, fine⟩, fun room => ?_⟩
    rw [wp_bind]
    refine ((evictDownTo_wp (by omega) (by omega)).and (evictDownTo_sane _ _ (d, clock') kept)).mono ?_
      fun _ _ none => none.1.elim
    rintro _ ⟨e, clock''⟩ ⟨-, later⟩
    exact ⟨⟨later.kind, later.settings, later.countless⟩, fine⟩

end ShadowPolicyCache

/-! ### The scheduler -/

variable {hit : Option Bool}

namespace EvictionPolicyScheduler

structure Sane (settings : PdpSettings) (s : EvictionPolicyScheduler) : Prop where
  stride : 1 ≤ s.observeStride
  caches : ∀ policy c, s.shadowCaches.get? policy = some c → c.Sane policy settings

/-- The call samples an access that the PDP shadow cannot count. -/
def FailsAt (settings : PdpSettings) (h : PrefixHash) (s : EvictionPolicyScheduler) : Prop :=
  s.enabled = true ∧ s.finalized = false ∧ (s.numObservedAccesses + 1) % s.observeStride = 0 ∧
    ∃ c, s.shadowCaches.get? .pdp = some c ∧ settings.FailsAt (c.pdpLastSeenEpoch.contains h)

variable [Numpy] {settings : PdpSettings}

omit [Numpy] in
theorem init_sane {config : SchedulerConfig} {built : Timed EvictionPolicyScheduler}
    (constructed : init config clock = .ok built) : Sane config.pdp built.1 := by
  unfold init at constructed
  cases parsed : parseShadowPolicies config.schedulerShadowPolicies with
  | error e =>
    rw [parsed] at constructed
    cases constructed
  | ok policies =>
    rw [parsed] at constructed
    cases constructed
    refine ⟨le_max_left _ _, fun policy c found => ?_⟩
    simp only [freshCaches_get?] at found
    split at found
    · rw [← Option.some.inj found]
      exact ShadowPolicyCache.init_sane policy config.schedulerCapacity config.pdp
    · cases found

variable {s : EvictionPolicyScheduler}

omit [Numpy] in
theorem forShadows_sane {method : Method (Timed ShadowPolicyCache) Unit} (bad : ShadowPolicyCache → Prop) (sane : Sane settings s)
    (each : ∀ policy c clock, c.Sane policy settings →
      wp method (fun _ t => t.1.Sane policy settings ∧ ¬(policy = .pdp ∧ bad c))
        (fun e t => t.1.Sane policy settings ∧ Arithmetic e ∧ policy = .pdp ∧ bad c) (c, clock)) :
    wp (forShadows method s.shadowCaches.keys)
      (fun _ t => ∃ caches, t.1 = { s with shadowCaches := caches } ∧
        Sane settings { s with shadowCaches := caches } ∧
        ¬∃ c, s.shadowCaches.get? .pdp = some c ∧ bad c)
      (fun e t => ∃ caches, t.1 = { s with shadowCaches := caches } ∧
        Sane settings { s with shadowCaches := caches } ∧ Arithmetic e ∧
        ∃ c, s.shadowCaches.get? .pdp = some c ∧ bad c) (s, clock) := by
  refine (forShadows_rule (Q := fun policy c d => d.Sane policy settings ∧ ¬(policy = .pdp ∧ bad c))
    (E := fun policy c e d => d.Sane policy settings ∧ Arithmetic e ∧ policy = .pdp ∧ bad c)
    s.shadowCaches.nodup (fun policy member => Dict.mem_keys_iff.mp member)
    fun policy _ c clock found => each policy c clock (sane.caches policy c found)).mono ?_ ?_
  · rintro _ t ⟨caches, same, listed, others⟩
    refine ⟨caches, same, ⟨sane.stride, fun policy d found => ?_⟩, ?_⟩
    · by_cases member : policy ∈ s.shadowCaches.keys
      · obtain ⟨c, d', -, now, kept, -⟩ := listed policy member
        rw [found] at now
        cases now
        exact kept
      · have same := others policy member
        exact sane.caches policy d (same ▸ found)
    · rintro ⟨c, found, failed⟩
      obtain ⟨c', d, known, -, -, fine⟩ := listed .pdp (Dict.mem_keys_iff.mpr ⟨c, found⟩)
      rw [found] at known
      cases known
      exact fine ⟨rfl, failed⟩
  · rintro e t ⟨caches, same, ⟨policy, -, c, d, known, -, -, arithmetic, rfl, failed⟩, all⟩
    refine ⟨caches, same, ⟨sane.stride, fun policy d found => ?_⟩, arithmetic, c, known, failed⟩
    rcases all policy with same | ⟨-, c, d', -, now, either⟩
    · exact sane.caches policy d (same ▸ found)
    · rw [found] at now
      cases now
      exact either.elim And.left And.left

omit [Numpy] in
theorem finalizePolicy_sane (sane : Sane settings s) :
    wp finalizePolicy (fun _ t => Sane settings t.1) (fun e t => ¬Arithmetic e ∧ Sane settings t.1)
      (s, clock) := by
  rw [finalizePolicy, wp_bind, wp_get]
  dsimp only
  rw [wp_ite]
  refine ⟨fun _ => ⟨sane.stride, sane.caches⟩, fun _ => ?_⟩
  cases s.shadowPolicies.argmax (hitRates s) with
  | none => exact ⟨by decide, sane⟩
  | some best => exact ⟨sane.stride, sane.caches⟩

/-- An observation raises an arithmetic error when the PDP shadow cannot count it. -/
theorem observe_fails (sane : Sane settings s) : wp (observe h hint hit)
      (fun _ t => Sane settings t.1 ∧ ¬FailsAt settings h s)
      (fun e t => Sane settings t.1 ∧ (Arithmetic e ↔ FailsAt settings h s)) (s, clock) := by
  rw [observe, wp_bind, wp_get]
  dsimp only
  rw [wp_ite]
  refine ⟨fun off => ⟨sane, fun fails => ?_⟩, fun on => ?_⟩
  · rw [fails.1] at off
    cases off
  have enabled : s.enabled = true := by simpa using on
  rw [wp_bind, wp_time, wp_ite]
  refine ⟨fun done => ⟨sane, fun fails => ?_⟩, fun warm => ?_⟩
  · rw [fails.2.1] at done
    cases done
  have warming : s.finalized = false := by simpa using warm
  rw [wp_bind, wp_modify]
  dsimp only
  rw [wp_bind, divides, if_neg (by have := sane.stride; omega), wp_pure, wp_ite]
  refine ⟨fun between => ⟨⟨sane.stride, sane.caches⟩, fun fails => ?_⟩, fun sampled => ?_⟩
  · simp [fails.2.2.1] at between
  have due : (s.numObservedAccesses + 1) % s.observeStride = 0 := by simpa using sampled
  have fails_iff : FailsAt settings h s ↔ ∃ c, s.shadowCaches.get? .pdp = some c ∧
      settings.FailsAt (c.pdpLastSeenEpoch.contains h) :=
    ⟨fun fails => fails.2.2.2, fun found => ⟨enabled, warming, due, found⟩⟩
  have recorded : ∃ events, ∀ (u : EvictionPolicyScheduler) (clock' : Clock), recordMlEvent
      (clock.readings clock.reads) hit (u, clock') = .ok ⟨⟩ ({ u with mlEvents := u.mlEvents ++ events }, clock') := by
    cases hit with
    | none => exact ⟨[], fun u clock' => by simp [recordMlEvent]⟩
    | some flag => exact ⟨_, fun u clock' => rfl⟩
  obtain ⟨events, recorded⟩ := recorded
  rw [wp_bind, wp_of_ok (recorded _ _), wp_bind, fails_iff]
  refine (forShadows_sane (s := { s with
      numObservedAccesses := s.numObservedAccesses + 1, mlEvents := s.mlEvents ++ events })
    (fun c => settings.FailsAt (c.pdpLastSeenEpoch.contains h)) ⟨sane.stride, sane.caches⟩
    fun policy c clock' kept => ShadowPolicyCache.access_fails kept).mono ?_ ?_
  · rintro _ ⟨u, clock'⟩ ⟨caches, same, kept, fine⟩
    dsimp only at same
    subst same
    rw [wp_ite]
    refine ⟨fun _ => ?_, fun _ => ⟨kept, fine⟩⟩
    refine (finalizePolicy_sane kept).mono ?_ ?_
    · exact fun _ t sane => ⟨sane, fine⟩
    · exact fun e t failed => ⟨failed.2, iff_of_false failed.1 fine⟩
  · rintro e ⟨u, clock'⟩ ⟨caches, same, kept, arithmetic, failed⟩
    dsimp only at same
    subst same
    exact ⟨kept, iff_of_true arithmetic failed⟩

omit [Numpy] in
theorem Sane.insert {policy : Policy} (sane : Sane settings s) (kept : c.Sane policy settings) :
    Sane settings { s with shadowCaches := s.shadowCaches.insert policy c } := by
  refine ⟨sane.stride, fun other d found => ?_⟩
  simp only [Dict.get?_insert] at found
  split at found
  · rename_i same
    cases found
    exact same ▸ kept
  · exact sane.caches other d found

theorem setCapacity_sane (capacity : ℤ) : Confined (fun s => Sane settings s.1)
    (fun e => ¬Arithmetic e) (setCapacity capacity) := by
  have shadows : ∀ policies, Confined (fun s : Timed EvictionPolicyScheduler => Sane settings s.1)
      (fun e => ¬Arithmetic e) (forShadows (ShadowPolicyCache.setCapacity capacity) policies) := by
    intro policies
    induction policies with
    | nil => exact .pure _
    | cons policy rest ih =>
      refine .bind (.read fun ⟨s, clock⟩ sane => ?_) fun _ => ih
      dsimp only
      cases found : s.shadowCaches.get? policy with
      | none => exact .throw (by decide)
      | some cache =>
        refine .zoom (J := fun t => t.1.Sane policy settings) (ShadowPolicyCache.setCapacity_sane capacity)
          (fun _ _ => sane.caches policy cache found) ?_
        rintro ⟨t, clock'⟩ ⟨moved, clock''⟩ kept now
        exact kept.insert now
  exact .bind (.modify fun _ sane => ⟨sane.stride, sane.caches⟩) fun _ =>
    .bind .get fun ⟨_, _⟩ => shadows _

end EvictionPolicyScheduler

/-! ### The evictor -/

namespace LRUMLEvictor

structure Sane (c : PdpSettings) (s : LRUMLEvictor) : Prop where
  settings : s.settings = c
  countless : Countless c s.pdpReuseDistanceCounts
  scheduler : s.scheduler.Sane c

/-- `LRUMLEvictor.__init__`, on the configuration it passes to its scheduler. -/
def ofConfig (config : SchedulerConfig) (clock : Clock) : Except PyError LRUMLEvictor := do
  let lastRefreshTime := clock.readings clock.reads
  let (scheduler, clock) ← EvictionPolicyScheduler.init config { clock with reads := clock.reads + 1 }
  return init scheduler config.pdp lastRefreshTime clock

/-- The observation reaches PDP, in the shadow cache or in the evictor, and PDP cannot count it. -/
def FailsAt (settings : PdpSettings) (h : PrefixHash) (s : LRUMLEvictor) : Prop :=
  s.scheduler.FailsAt settings h ∨
    s.scheduler.finalized = true ∧ s.scheduler.currentPolicy = .pdp ∧
      settings.FailsAt (s.pdpLastSeenEpoch.contains h)

variable [Numpy] {settings : PdpSettings} {s : LRUMLEvictor}

omit [Numpy] in
theorem ofConfig_sane {config : SchedulerConfig}
    (constructed : ofConfig config clock = .ok s) : Sane config.pdp s := by
  unfold ofConfig at constructed
  cases built : EvictionPolicyScheduler.init config { clock with reads := clock.reads + 1 } with
  | error e =>
    rw [built] at constructed
    cases constructed
  | ok timed =>
    rw [built] at constructed
    cases constructed
    exact ⟨rfl, fun _ => rfl, EvictionPolicyScheduler.init_sane built⟩

omit [Numpy] in
theorem Sane.of_counters {s t : LRUMLEvictor} (sane : Sane settings s)
    (same : counters t = counters s) : Sane settings t := by
  obtain ⟨scheduler, same'⟩ := Prod.mk.inj same
  obtain ⟨setting, counts⟩ := Prod.mk.inj same'
  exact ⟨setting.trans sane.settings, counts ▸ sane.countless, scheduler ▸ sane.scheduler⟩

omit [Numpy] in
theorem Quiet.sane {α : Type} {x : Method LRUMLEvictor α} (quiet : Quiet x) :
    Confined (Sane settings) (fun e => ¬Arithmetic e) x := fun s sane =>
  (quiet (counters s) s rfl).mono (fun _ _ same => sane.of_counters same)
    fun _ _ failed => ⟨failed.1, sane.of_counters failed.2⟩

omit [Numpy] in
theorem protectHolder_counters (h : PrefixHash) (reused : Bool) (s : LRUMLEvictor) :
    ∃ t, protectHolder h reused s = .ok () t ∧ counters t = counters s := by
  unfold protectHolder pdpProtectBlock
  rw [get_bind]
  cases s.pdpContentHashToBlockId.get? h with
  | none => exact ⟨s, rfl, rfl⟩
  | some b =>
    by_cases resident : s.freeTable.contains b = true
    · refine ⟨protectedNow b reused s, by simp [resident], ?_⟩
      rw [protectedNow, if_pos resident]
      rfl
    · exact ⟨s, by simp [resident], rfl⟩

omit [Numpy] in
theorem recomputeIfDue_fails (sane : Sane settings s) : wp recomputeIfDue
    (fun _ t => Sane settings t ∧ settings.recomputeInterval ≠ 0)
    (fun e t => Sane settings t ∧ Arithmetic e ∧ settings.recomputeInterval = 0) s := by
  obtain rfl := sane.settings
  rw [recomputeIfDue, wp_bind, wp_get, wp_bind]
  by_cases zero : s.settings.recomputeInterval = 0
  · rw [divides, if_pos zero, wp_throw]
    exact ⟨sane, Or.inl rfl, zero⟩
  · obtain ⟨best, computed⟩ := bestProtectingDistance_pure (σ := LRUMLEvictor) sane.countless
      s.pdpTotalAccesses s.pdpProtectingDistance
    rw [divides, if_neg zero, wp_pure, wp_ite]
    refine ⟨fun _ => ?_, fun _ => ⟨sane, zero⟩⟩
    rw [pdpRecomputeProtectingDistance, wp_bind, wp_get, wp_bind, computed, wp_pure, wp_modify]
    exact ⟨⟨rfl, sane.countless, sane.scheduler⟩, zero⟩

omit [Numpy] in
theorem pdpObserve_fails (sane : Sane settings s) : wp (pdpObserve h hit)
      (fun _ t => Sane settings t ∧ ¬settings.FailsAt (s.pdpLastSeenEpoch.contains h))
      (fun e t => Sane settings t ∧ Arithmetic e ∧ settings.FailsAt (s.pdpLastSeenEpoch.contains h)) s := by
  -- the rest of the observation, after a reuse distance has been recorded
  have rest : ∀ (d : LRUMLEvictor) (reused : Bool), Sane settings d →
      ¬(settings.bucketSize = 0 ∧ s.pdpLastSeenEpoch.contains h = true) →
      wp (do recordSeen h; protectHolder h reused; recomputeIfDue)
        (fun _ t => Sane settings t ∧ ¬settings.FailsAt (s.pdpLastSeenEpoch.contains h))
        (fun e t => Sane settings t ∧ Arithmetic e ∧
          settings.FailsAt (s.pdpLastSeenEpoch.contains h)) d := by
    intro d reused kept fine
    rw [recordSeen, wp_bind, wp_modify, wp_bind]
    obtain ⟨t, protect, same⟩ := protectHolder_counters h reused
      { d with pdpLastSeenEpoch := d.pdpLastSeenEpoch.insert h d.pdpRequestEpoch }
    rw [wp_of_ok protect]
    refine (recomputeIfDue_fails (kept.of_counters same)).mono ?_ ?_
    · exact fun _ u done => ⟨done.1, fun fails => fails.elim done.2 fine⟩
    · exact fun e u failed => ⟨failed.1, failed.2.1, Or.inl failed.2.2⟩
  rw [pdpObserve, wp_bind, wp_modify, wp_bind, wp_get, wp_bind, recordReuse, wp_bind, wp_get]
  dsimp only
  cases found : s.pdpLastSeenEpoch.get? h with
  | none =>
    have unseen : s.pdpLastSeenEpoch.contains h = false := Dict.not_contains_iff.mpr found
    exact rest _ _ ⟨sane.settings, sane.countless, sane.scheduler⟩ (by simp [unseen])
  | some previous =>
    have seen : s.pdpLastSeenEpoch.contains h = true := Dict.contains_iff.mpr ⟨previous, found⟩
    dsimp only
    rw [wp_bind, pdpBucketDistance, wp_bind, wp_get]
    dsimp only
    by_cases zero : settings.bucketSize = 0
    · rw [bucketed_zero (sane.settings ▸ zero), wp_throw]
      exact ⟨⟨sane.settings, sane.countless, sane.scheduler⟩, Or.inl rfl, Or.inr ⟨zero, seen⟩⟩
    · obtain ⟨bucket, computed⟩ := bucketed_pure (σ := LRUMLEvictor) (c := s.settings)
        (sane.settings ▸ zero) (s.pdpRequestEpoch + 1 - previous)
      rw [computed, wp_pure, wp_modify]
      exact rest _ _ ⟨sane.settings, fun none => absurd none zero, sane.scheduler⟩
        fun both => zero both.1

theorem observe_fails (sane : Sane settings s) : wp (observeCacheAccess h hint hit)
      (fun _ t => Sane settings t ∧ ¬FailsAt settings h s)
      (fun e t => Sane settings t ∧ (Arithmetic e ↔ FailsAt settings h s)) s := by
  rw [observeCacheAccess, wp_bind, wp_get, wp_ite]
  refine ⟨fun warm => ?_, fun cold => ?_⟩
  · rw [Bool.and_eq_true, Bool.not_eq_true'] at warm
    have fails_iff : FailsAt settings h s ↔ s.scheduler.FailsAt settings h :=
      ⟨fun fails => fails.resolve_right fun late => by simp [late.1] at warm, Or.inl⟩
    rw [wp_bind, fails_iff, onScheduler, wp_zoom]
    refine (EvictionPolicyScheduler.observe_fails sane.scheduler).mono ?_ ?_
    · rintro done ⟨scheduler, clock⟩ ⟨kept, fine⟩
      have now : Sane settings { s with scheduler, clock } := ⟨sane.settings, sane.countless, kept⟩
      rw [wp_ite]
      refine ⟨fun _ => ?_, fun _ => ⟨now, fine⟩⟩
      refine (rebind_quiet.sane _ now).mono (fun _ _ kept => ⟨kept, fine⟩) ?_
      exact fun e t failed => ⟨failed.2, iff_of_false failed.1 fine⟩
    · rintro e ⟨scheduler, clock⟩ ⟨kept, failed⟩
      exact ⟨⟨sane.settings, sane.countless, kept⟩, failed⟩
  · have notWarm : ¬s.scheduler.FailsAt settings h := fun fails => cold (by simp [fails.1, fails.2.1])
    rw [wp_ite]
    refine ⟨fun pdp => ?_, fun other => ⟨sane, ?_⟩⟩
    · rw [Bool.and_eq_true, decide_eq_true_iff] at pdp
      have fails_iff : FailsAt settings h s ↔ settings.FailsAt (s.pdpLastSeenEpoch.contains h) :=
        ⟨fun fails => (fails.resolve_left notWarm).2.2, fun fails => Or.inr ⟨pdp.1, pdp.2, fails⟩⟩
      rw [fails_iff]
      refine (pdpObserve_fails sane).mono (fun _ _ done => done) ?_
      exact fun e t failed => ⟨failed.1, iff_of_true failed.2.1 failed.2.2⟩
    · rintro (warm | ⟨late, pdp, -⟩)
      · exact notWarm warm
      · simp [late, pdp] at other

/-! ### Runs -/

def Event.Raises (e : Event) : Prop :=
  ∃ error t, e.call.run e.before = .error error t ∧ Arithmetic error

omit [Numpy] in
/-- The call is an observation that PDP cannot count. -/
def Event.FailsAt (c : PdpSettings) (e : Event) : Prop :=
  match e.call with
  | .op (.observe h _ _) => LRUMLEvictor.FailsAt c h e.before
  | _ => False

theorem call_fails (e : Event) (sane : Sane settings e.before) : wp e.call.run
    (fun _ t => Sane settings t ∧ ¬e.FailsAt settings)
    (fun error t => Sane settings t ∧ (Arithmetic error ↔ e.FailsAt settings)) e.before := by
  have quiet : ∀ x : Method LRUMLEvictor Unit, Confined (Sane settings) (fun e => ¬Arithmetic e) x →
      wp x (fun _ t => Sane settings t ∧ ¬False)
        (fun error t => Sane settings t ∧ (Arithmetic error ↔ False)) e.before := by
    intro x confined
    refine (confined e.before sane).mono (fun _ _ kept => ⟨kept, id⟩) ?_
    exact fun _ _ failed => ⟨failed.2, iff_of_false failed.1 id⟩
  obtain ⟨before, call⟩ := e
  cases call with
  | op op =>
    cases op with
    | add b h n t hint => exact quiet _ (add_quiet b h n t hint).sane
    | update b t hint => exact quiet _ (update_quiet b t hint).sane
    | remove b => exact quiet _ (remove_quiet b).sane
    | evict => exact quiet _ (.bind evict_quiet.sane fun _ => .pure _)
    | observe h hint hit => exact observe_fails sane
  | setCapacity capacity =>
    refine quiet _ (.zoom (EvictionPolicyScheduler.setCapacity_sane capacity)
      (fun s sane => sane.scheduler) ?_)
    rintro s ⟨scheduler, clock⟩ sane kept
    exact ⟨sane.settings, sane.countless, kept⟩

theorem raises_iff {e : Event} (sane : Sane settings e.before) : e.Raises ↔ e.FailsAt settings := by
  have outcome := call_fails e sane
  constructor
  · rintro ⟨error, t, call, arithmetic⟩
    exact (outcome.error call).2.mp arithmetic
  · intro fails
    cases call : e.call.run e.before with
    | ok a t => exact absurd fails (outcome.ok call).2
    | error error t => exact ⟨error, t, call, (outcome.error call).2.mpr fails⟩

theorem run_sane {start : LRUMLEvictor} {history : List Event} (sane : Sane settings start)
    (run : Run Made start history s) : Sane settings s ∧ ∀ e ∈ history, Sane settings e.before := by
  refine run.invariant (I := fun history s => Sane settings s ∧ ∀ e ∈ history, Sane settings e.before)
    ⟨sane, fun _ member => nomatch member⟩ ?_
  rintro history s e t ⟨kept, all⟩ ⟨rfl, rfl⟩
  refine ⟨?_, fun e' member => ?_⟩
  · unfold after
    cases call : e.call.run e.before with
    | ok a t => exact ((call_fails e kept).ok call).1
    | error error t => exact ((call_fails e kept).error call).1
  · rcases List.mem_cons.mp member with rfl | earlier
    · exact kept
    · exact all e' earlier

end LRUMLEvictor

/-! ### The evictor that clamps -/

/-- Under the clamps no call of a run divides by zero. -/
theorem PDPEvictor.run_divides {config : PdpSettings} {history : List PDPEvictor.Event} {s : PDPEvictor}
    (run : Run PDPEvictor.Call (PDPEvictor.init config) history s) {e : PDPEvictor.Event}
    (member : e ∈ history) {error : PyError} {t : PDPEvictor}
    (raised : e.op.call e.before = .error error t) : ¬Arithmetic error := by
  obtain ⟨later, earlier, split⟩ := List.append_of_mem member
  have learnt := (run_learnt (run_before later earlier split run)).1
  obtain ⟨before, op⟩ := e
  cases op with
  | observe hashes hint hits =>
    cases hashes with
    | nil => cases raised
    | cons h rest =>
      have call : observeCacheAccessesWith recomputeProtectingDistance (h :: rest) hits before =
          .error error t := by
        rw [← observeCacheAccesses_eq _ hint]
        exact raised
      obtain ⟨u, -, -, -, outcome⟩ := batch_learns hits learnt (List.cons_ne_nil h rest)
      rcases outcome with ⟨-, ends⟩ | ⟨-, ends⟩
      · rw [ends] at call
        obtain ⟨distance, recomputed⟩ := recompute_eq u
        split at call
        · rw [recomputed] at call
          cases call
        · cases call
      · rw [ends] at call
        cases call
        decide
  | add b h n time hint =>
    obtain ⟨record, -, -, -, call⟩ := add_eq before b h n time hint
    cases call.symm.trans raised
  | update b time hint =>
    cases held : before.freeTable.get? b with
    | none =>
      have call : Op.call (.update b time hint) before = .error (.valueError
        "Attempting to update block that's not in the evictor") before := by
        simp [Op.call, PDPEvictor.update, held]
      cases call.symm.trans raised
      decide
    | some block => cases (update_present time hint held).symm.trans raised
  | remove b =>
    cases held : before.freeTable.get? b with
    | none =>
      have call : Op.call (.remove b) before = .error (.valueError
        "Attempting to remove block that's not in the evictor") before := by
        simp [Op.call, PDPEvictor.remove, held]
      cases call.symm.trans raised
      decide
    | some block =>
      have call : ∃ u, Op.call (.remove b) before = .ok () u := by
        simp [Op.call, PDPEvictor.remove, held, forgetHashMapping]
      obtain ⟨u, call⟩ := call
      cases call.symm.trans raised
  | evict =>
    by_cases empty : before.freeTable.size = 0
    · have call : Op.call .evict before = .error noUsableMemory before :=
        bind_of_error (PdpSimulation.pdpEvict_empty empty)
      cases call.symm.trans raised
      decide
    · obtain ⟨b, record, -, call⟩ := PdpSimulation.pdpEvict_least empty
      have call' : Op.call .evict before = .ok () _ := bind_of_ok call
      cases call'.symm.trans raised

namespace LRUMLEvictor

variable [Numpy]

/-- `PDPEvictor` raises no arithmetic error in any run. In a run of `LRUMLEvictor` no call raises one
just when each observation that reaches PDP can be counted under the settings as they are. -/
theorem run_divides_iff (config : SchedulerConfig) :
    (∀ history s, Run PDPEvictor.Call (PDPEvictor.init config.pdp) history s → ∀ e ∈ history,
      ∀ error t, e.op.call e.before = .error error t → ¬Arithmetic error) ∧
    ∀ clock start history s, ofConfig config clock = .ok start → Run Made start history s →
      ((∀ e ∈ history, ¬e.Raises) ↔ ∀ e ∈ history, ¬e.FailsAt config.pdp) := by
  refine ⟨fun history s run e member error t raised => PDPEvictor.run_divides run member raised, ?_⟩
  intro clock start history s constructed run
  have sane := (run_sane (ofConfig_sane constructed) run).2
  exact forall₂_congr fun e member => not_congr (raises_iff (sane e member))

omit [Numpy] in
theorem not_failsAt {c : PdpSettings} (divides : c.Divides) (e : Event) : ¬e.FailsAt c := by
  unfold Event.FailsAt
  split
  · rintro (⟨-, -, -, c, -, fails⟩ | ⟨-, -, fails⟩)
    · exact divides.not_failsAt _ fails
    · exact divides.not_failsAt _ fails
  · exact id

def sampling : SchedulerConfig := { enableScheduler := "1", schedulerObserveStride := 1 }

def stopped : Clock := { readings := fun _ => 0 }

omit [Numpy] in
theorem run_divides_iff_sampling : ∃ start, ofConfig sampling stopped = .ok start ∧
    ¬@Event.Raises noPrediction ⟨start, .op (.observe 7 none none)⟩ := by
  have built : (ofConfig sampling stopped).toOption.isSome = true := by decide +kernel
  cases constructed : ofConfig sampling stopped with
  | error e =>
    rw [constructed] at built
    cases built
  | ok start =>
    refine ⟨start, rfl, ?_⟩
    exact ((@run_divides_iff noPrediction sampling).2 _ _ _ _ constructed (.call .start ⟨rfl, rfl⟩)).mpr
      (fun e _ => not_failsAt ⟨by decide, by decide⟩ e) _ List.mem_cons_self

/-- The interval `PDPEvictor` would clamp. -/
def zeroInterval : SchedulerConfig := { sampling with pdp := { recomputeInterval := 0 } }

omit [Numpy] in
/-- The first sampled access divides by the interval of the PDP shadow. -/
theorem zeroInterval_raises : ∃ start, ofConfig zeroInterval stopped = .ok start ∧
    ∃ t, @observeCacheAccess noPrediction 7 none none start = .error .zeroDivisionError t := by
  have raises : ((ofConfig zeroInterval stopped).toOption.bind fun start =>
      raised? (@observeCacheAccess noPrediction 7 none none) start) = some .zeroDivisionError := by
    decide +kernel
  cases constructed : ofConfig zeroInterval stopped with
  | error e =>
    rw [constructed] at raises
    cases raises
  | ok start =>
    rw [constructed] at raises
    exact ⟨start, rfl, raised?_eq_some.mp raises⟩

end LRUMLEvictor
end Vllm.Evictor
