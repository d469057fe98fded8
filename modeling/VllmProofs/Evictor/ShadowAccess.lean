import VllmProofs.Data.Wp
import VllmProofs.Evictor.Scheduler

/-!
One access of a shadow cache: it records whether the hash was in the simulated table, and raises
only where the PDP settings make it divide by zero.
-/

namespace Vllm.Evictor
open Exec

def PdpSettings.Divides (c : PdpSettings) : Prop := c.recomputeInterval ≠ 0 ∧ c.bucketSize ≠ 0

variable {clock : Clock} {σ : Type}

@[simp] theorem wp_time {Q : Time → Timed σ → Prop} {E : PyError → Timed σ → Prop}
    {s : σ} : wp time Q E (s, clock) ↔
      Q (clock.readings clock.reads) (s, { clock with reads := clock.reads + 1 }) := Iff.rfl

/-! ### The clock -/

structure Ticks (before after : Clock) : Prop where
  readings : after.readings = before.readings
  reads : before.reads ≤ after.reads
  sawNan : before.sawNan = true → after.sawNan = true

theorem Ticks.refl (clock : Clock) : Ticks clock clock := ⟨rfl, le_refl _, id⟩

theorem Ticks.trans {a b c : Clock} (one : Ticks a b) (two : Ticks b c) : Ticks a c :=
  ⟨two.readings.trans one.readings, one.reads.trans two.reads, fun saw => two.sawNan (one.sawNan saw)⟩

instance isPreorder_ticks {σ : Type} (clock : σ → Clock) :
    IsPreorder σ fun s t => Ticks (clock s) (clock t) where
  refl _ := .refl _
  trans _ _ _ := .trans

/-- Every call that returns leaves the clock where it was or further on. -/
abbrev Timely {σ α : Type} (x : Method (Timed σ) α) : Prop := Keeps (fun s t => Ticks s.2 t.2) x

section
variable {σ α : Type}

theorem time_timely : Timely (time : Method (Timed σ) Time) := by
  intro s now t called
  cases called
  exact ⟨rfl, Nat.le_succ _, id⟩

theorem timely_of_wp {x : Method (Timed σ) α}
    (each : ∀ s clock, wp x (fun _ t => Ticks clock t.2) (fun _ _ => True) (s, clock)) : Timely x :=
  fun s _ _ called => (each s.1 s.2).ok called

end

namespace ShadowPolicyCache

structure Kept (c d : ShadowPolicyCache) : Prop where
  events : d.events = c.events
  settings : d.settings = c.settings

theorem Kept.refl (c : ShadowPolicyCache) : Kept c c := ⟨rfl, rfl⟩

variable {c : ShadowPolicyCache}

theorem Kept.trans {d e : ShadowPolicyCache} (one : Kept c d) (two : Kept d e) : Kept c e :=
  ⟨two.events.trans one.events, two.settings.trans one.settings⟩

/-! ### Victims -/

structure Picks (c : ShadowPolicyCache) (victim : PrefixHash) (d : ShadowPolicyCache) : Prop where
  kept : Kept c d
  size : d.table.size = c.table.size
  resident : d.table.contains victim = true

variable {items : List (PrefixHash × ShadowEntry)}

theorem leastBy_mem {κ : Type} [LinearOrder κ] {key : PrefixHash → ShadowEntry → κ} {victim : PrefixHash}
    (least : leastBy key items = some victim) : ∃ entry, (victim, entry) ∈ items := by
  obtain ⟨⟨contentHash, entry⟩, found, rfl⟩ := Option.map_eq_some_iff.mp least
  exact ⟨entry, List.argmin_mem found⟩

theorem leastBy_eq_none {κ : Type} [LinearOrder κ] {key : PrefixHash → ShadowEntry → κ} : leastBy key items = none ↔ items = [] := by
  rw [leastBy, Option.map_eq_none_iff, List.argmin_eq_none]

theorem picks_of_mem {victim : PrefixHash} {entry : ShadowEntry}
    (member : (victim, entry) ∈ c.table.items) : Picks c victim c :=
  ⟨.refl c, rfl, Dict.contains_iff.mpr ⟨entry, Dict.mem_items_iff.mp member⟩⟩

theorem leastBy_picks {κ : Type} [LinearOrder κ] (key : PrefixHash → ShadowEntry → κ) (nonempty : c.table.size ≠ 0) :
    ∃ victim, leastBy key c.table.items = some victim ∧ Picks c victim c := by
  cases least : leastBy key c.table.items with
  | none => exact absurd (List.length_eq_zero_iff.mpr (leastBy_eq_none.mp least)) nonempty
  | some victim =>
    obtain ⟨entry, member⟩ := leastBy_mem least
    exact ⟨victim, rfl, picks_of_mem member⟩

/-- Each round brings every entry one step closer to `rripMaxRrpv`. -/
theorem rripVictim_wp {rounds : ℕ} (nonempty : c.table.size ≠ 0)
    (near : ∀ k entry, c.table.get? k = some entry → rripMaxRrpv ≤ entry.rrpv + rounds) :
    wp (rripVictim (rounds + 1)) (fun victim t => Picks c victim t.1) (fun _ _ => False)
      (c, clock) := by
  induction rounds generalizing c with
  | zero =>
    have all : (c.table.items.filter fun item => rripMaxRrpv ≤ item.2.rrpv) = c.table.items := by
      apply List.filter_eq_self.mpr
      intro item member
      have old := near item.1 item.2 (Dict.mem_items_iff.mp member)
      simpa using old
    obtain ⟨victim, least, picks⟩ := leastBy_picks byLastAccess nonempty
    show wp (get >>= _) _ _ _
    simp only [wp_bind, wp_get, all, least]
    exact picks
  | succ rounds ih =>
    show wp (get >>= _) _ _ _
    simp only [wp_bind, wp_get]
    cases least : leastBy byLastAccess
        (c.table.items.filter fun item => rripMaxRrpv ≤ item.2.rrpv) with
    | some victim =>
      obtain ⟨entry, member⟩ := leastBy_mem least
      exact picks_of_mem (List.mem_of_mem_filter member)
    | none =>
      simp only [wp_bind, wp_set]
      have older : ∀ k entry, (c.table.mapVal aged).get? k = some entry →
          rripMaxRrpv ≤ entry.rrpv + rounds := by
        intro k entry found
        rw [Dict.get?_mapVal] at found
        obtain ⟨young, was, rfl⟩ := Option.map_eq_some_iff.mp found
        have close := near k young was
        show rripMaxRrpv ≤ min rripMaxRrpv (young.rrpv + 1) + rounds
        omega
      have next := ih (c := { c with table := c.table.mapVal aged })
        (by rw [Dict.size_mapVal]; exact nonempty) older
      refine next.mono (fun victim t picks => ?_) fun _ _ none => none
      exact ⟨⟨picks.kept.events, picks.kept.settings⟩, by rw [picks.size, Dict.size_mapVal],
        picks.resident⟩

theorem selectVictim_wp [Numpy] (nonempty : c.table.size ≠ 0) :
    wp selectVictim (fun chosen t => ∃ victim, chosen = some victim ∧ Picks c victim t.1)
      (fun _ _ => False) (c, clock) := by
  show wp (get >>= _) _ _ _
  simp only [wp_bind, wp_get]
  cases c.policy with
  | rrip =>
    simp only [wp_map]
    refine (rripVictim_wp nonempty fun k entry _ => ?_).mono
      (fun victim t picks => ⟨victim, rfl, picks⟩) fun _ _ none => none
    omega
  | ml =>
    simp only [wp_bind, wp_time]
    exact leastBy_picks _ nonempty
  | lru => exact leastBy_picks byLastAccess nonempty
  | fifo => exact leastBy_picks _ nonempty
  | pdp => exact leastBy_picks _ nonempty
  | belady => exact leastBy_picks byLastAccess nonempty

theorem evict_wp [Numpy] (nonempty : c.table.size ≠ 0) :
    wp evict (fun _ t => Kept c t.1 ∧ t.1.table.size + 1 = c.table.size) (fun _ _ => False)
      (c, clock) := by
  show wp (get >>= _) _ _ _
  simp only [wp_bind, wp_get, if_neg nonempty]
  refine (selectVictim_wp nonempty).mono ?_ fun _ _ none => none
  rintro chosen ⟨d, clock'⟩ ⟨victim, rfl, picks⟩
  obtain ⟨entry, found⟩ := Dict.contains_iff.mp picks.resident
  refine ⟨⟨picks.kept.events, picks.kept.settings⟩, ?_⟩
  rw [← picks.size]
  exact Dict.size_erase_of_some found

theorem evictDownTo_wp [Numpy] {limit : ℤ} (nonnegative : 0 ≤ limit) {rounds : ℕ} (enough : (c.table.size : ℤ) ≤ limit + rounds) :
    wp (evictDownTo limit rounds) (fun _ t => Kept c t.1) (fun _ _ => False) (c, clock) := by
  induction rounds generalizing c clock with
  | zero =>
    show wp (get >>= _) _ _ _
    simp only [wp_bind, wp_get]
    rw [if_neg (by omega)]
    exact .refl c
  | succ rounds ih =>
    show wp (get >>= _) _ _ _
    simp only [wp_bind, wp_get]
    by_cases excess : limit < c.table.size
    · rw [if_pos excess, wp_bind]
      refine (evict_wp (by omega)).mono ?_ fun _ _ none => none
      rintro _ ⟨d, clock'⟩ ⟨kept, fewer⟩
      have fewer : d.table.size + 1 = c.table.size := fewer
      refine (ih (by push_cast at enough; omega)).mono (fun _ t later => ?_) fun _ _ none => none
      exact kept.trans later
    · rw [if_neg excess]
      exact .refl c

/-! ### The bookkeeping of a PDP shadow -/

theorem divides_wp {a b : ℤ} {s : σ} :
    wp (divides a b) (fun answer t => b ≠ 0 ∧ answer = decide (a % b = 0) ∧ t = s)
      (fun _ _ => b = 0) s := by
  unfold divides
  split
  · assumption
  · exact ⟨by assumption, rfl, rfl⟩

theorem bucketed_wp {settings : PdpSettings} {distance : ℤ} {s : σ} :
    wp (bucketed settings distance) (fun _ t => t = s) (fun _ _ => settings.bucketSize = 0) s := by
  unfold bucketed floorDiv
  dsimp only
  split
  · exact rfl
  · rw [wp_bind]
    split
    · assumption
    · exact rfl

theorem bestProtectingDistance_wp {settings : PdpSettings} {counts : Dict ℤ ℤ}
    {total distance : ℤ} {s : σ} :
    wp (bestProtectingDistance settings counts total distance) (fun _ t => t = s)
      (fun _ _ => settings.bucketSize = 0) s := by
  unfold bestProtectingDistance range
  split
  · exact rfl
  · rw [wp_bind]
    split
    · assumption
    · exact rfl

variable {contentHash : PrefixHash}

theorem recordReuse_wp : wp (recordReuse contentHash) (fun _ t => Kept c t.1 ∧ t.1.table = c.table)
      (fun _ _ => ¬c.settings.Divides) (c, clock) := by
  show wp (get >>= _) _ _ _
  simp only [wp_bind, wp_get]
  cases c.pdpLastSeenEpoch.get? contentHash with
  | none => exact ⟨.refl c, rfl⟩
  | some previous =>
    show wp ((get >>= _) >>= _) _ _ _
    simp only [wp_bind, wp_get]
    refine bucketed_wp.mono ?_ fun _ _ zero divides => divides.2 zero
    rintro distance _ rfl
    exact ⟨⟨rfl, rfl⟩, rfl⟩

theorem pdpRecompute_wp : wp pdpRecompute (fun _ t => Kept c t.1 ∧ t.1.table = c.table)
      (fun _ _ => ¬c.settings.Divides) (c, clock) := by
  show wp (get >>= _) _ _ _
  simp only [wp_bind, wp_get]
  refine bestProtectingDistance_wp.mono ?_ fun _ _ zero divides => divides.2 zero
  rintro distance _ rfl
  exact ⟨⟨rfl, rfl⟩, rfl⟩

theorem observeIfPdp_wp :
    wp (observeIfPdp contentHash) (fun _ t => Kept c t.1 ∧ t.1.table = c.table)
      (fun _ _ => ¬c.settings.Divides) (c, clock) := by
  show wp (get >>= _) _ _ _
  simp only [wp_bind, wp_get, wp_ite]
  refine ⟨fun _ => ?_, fun _ => ⟨.refl c, rfl⟩⟩
  unfold observePdp
  simp only [wp_bind, wp_modify, wp_get]
  refine recordReuse_wp.mono ?_ fun _ _ raised => raised
  rintro _ ⟨d, clock₁⟩ ⟨kept, table⟩
  refine divides_wp.mono ?_ ?_
  · rintro due _ ⟨-, -, rfl⟩
    rw [wp_ite]
    refine ⟨fun _ => pdpRecompute_wp.mono ?_ ?_, fun _ => ⟨⟨kept.events, kept.settings⟩, table⟩⟩
    · rintro _ ⟨e, clock₂⟩ ⟨later, same⟩
      exact ⟨⟨later.events.trans kept.events, later.settings.trans kept.settings⟩, same.trans table⟩
    · intro _ _ raised divides
      exact raised (by rw [show _ = c.settings from kept.settings]; exact divides)
  · intro _ _ zero divides
    exact divides.1 (by rw [← show d.settings = c.settings from kept.settings]; exact zero)

theorem access_wp [Numpy] {now : Time} {cacheHint : Option CacheHint} :
    wp (access contentHash now cacheHint)
      (fun _ t => t.1.events = c.events ++ [(now, (c.table.contains contentHash).toNat)] ∧
        t.1.settings = c.settings)
      (fun _ _ => ¬c.settings.Divides) (c, clock) := by
  show wp (get >>= _) _ _ _
  simp only [wp_bind, wp_get, wp_set]
  refine observeIfPdp_wp.mono ?_ fun _ _ raised => raised
  rintro _ ⟨d, clock₁⟩ ⟨kept, table⟩
  dsimp only
  cases d.table.get? contentHash with
  | some entry => exact ⟨kept.events, kept.settings⟩
  | none =>
    simp only [wp_ite]
    refine ⟨fun _ => ⟨kept.events, kept.settings⟩, fun room => ?_⟩
    rw [wp_bind]
    refine (evictDownTo_wp (by omega) (by omega)).mono ?_ fun _ _ none => none.elim
    rintro _ ⟨e, clock₂⟩ later
    exact ⟨later.events.trans kept.events, later.settings.trans kept.settings⟩

/-! ### Every method reads the clock forward -/

theorem rripVictim_timely (rounds : ℕ) : Timely (rripVictim rounds) := by
  induction rounds with
  | zero => exact .throw _
  | succ rounds ih =>
    apply timely_of_wp
    intro c clock
    show wp (get >>= _) _ _ _
    simp only [wp_bind, wp_get]
    split
    · exact .refl _
    · exact ih.wp _

theorem selectVictim_timely [Numpy] : Timely selectVictim := by
  apply timely_of_wp
  intro c clock
  show wp (get >>= _) _ _ _
  simp only [wp_bind, wp_get]
  split
  · exact .refl _
  · exact (Keeps.map (rripVictim_timely _)).wp (c, clock)
  · exact .refl _
  · exact ⟨rfl, Nat.le_succ _, id⟩
  · exact .refl _

theorem evict_timely [Numpy] : Timely evict := by
  refine .bind .get fun _ => .ite (.pure _) (.bind selectVictim_timely fun victim => ?_)
  cases victim with
  | none => exact .pure _
  | some victim => exact .modify fun _ => .refl _

theorem evictDownTo_timely [Numpy] (limit : ℤ) (rounds : ℕ) : Timely (evictDownTo limit rounds) := by
  induction rounds with
  | zero => exact .bind .get fun _ => .ite (.throw _) (.pure _)
  | succ rounds ih => exact .bind .get fun _ => .ite (.bind evict_timely fun _ => ih) (.pure _)

theorem observeIfPdp_timely (contentHash : PrefixHash) : Timely (observeIfPdp contentHash) := by
  have reuse : Timely (recordReuse contentHash) := by
    refine .bind .get fun s => ?_
    dsimp only
    split
    · exact .pure _
    · exact .bind (.bind .get fun _ => bucketed_keeps _ _) fun _ => .modify fun _ => .refl _
  have recompute : Timely pdpRecompute := by
    apply timely_of_wp
    intro c clock
    show wp (get >>= _) _ _ _
    simp only [wp_bind, wp_get]
    refine bestProtectingDistance_wp.mono ?_ fun _ _ _ => trivial
    rintro best _ rfl
    exact .refl _
  refine .bind .get fun _ => .ite ?_ (.pure _)
  exact .bind (.modify fun _ => .refl _) fun _ => .bind reuse fun _ =>
    .bind (.modify fun _ => .refl _) fun _ => .bind .get fun _ =>
    .bind (divides_keeps _ _) fun _ => .ite recompute (.pure _)

theorem access_timely [Numpy] (contentHash : PrefixHash) (now : Time)
    (cacheHint : Option CacheHint) : Timely (access contentHash now cacheHint) := by
  apply timely_of_wp
  intro c clock
  show wp (get >>= _) _ _ _
  simp only [wp_bind, wp_get, wp_set]
  refine ((observeIfPdp_timely contentHash).wp _).mono ?_ fun _ _ _ => trivial
  rintro _ ⟨d, clock₁⟩ ticks
  dsimp only
  split
  · exact ticks
  · simp only [wp_ite]
    refine ⟨fun _ => ticks, fun _ => ?_⟩
    rw [wp_bind]
    refine ((evictDownTo_timely _ _).wp _).mono ?_ fun _ _ _ => trivial
    rintro _ ⟨e, clock₂⟩ later
    exact ticks.trans later

theorem setCapacity_timely [Numpy] (capacity : ℤ) : Timely (setCapacity capacity) := by
  apply timely_of_wp
  intro c clock
  show wp (get >>= _) _ _ _
  simp only [wp_bind, wp_get, wp_set]
  exact (evictDownTo_timely _ _).wp _

end ShadowPolicyCache

namespace EvictionPolicyScheduler

theorem forShadows_timely {method : Method (Timed ShadowPolicyCache) Unit} (each : Timely method)
    (policies : List Policy) : Timely (forShadows method policies) := by
  induction policies with
  | nil => exact .pure _
  | cons policy rest ih =>
    refine .bind (.bind .get fun s => ?_) fun _ => ih
    dsimp only
    split
    · exact .throw _
    · rename_i cache _
      apply timely_of_wp
      intro t clock
      rw [wp_zoom]
      exact each.wp (cache, clock)

theorem observe_timely [Numpy] (contentHash : PrefixHash) (cacheHint : Option CacheHint)
    (realHit : Option Bool) : Timely (observe contentHash cacheHint realHit) := by
  have recorded (now : Time) : Timely (recordMlEvent now realHit) := by
    cases realHit with
    | none => exact .pure _
    | some hit => exact .modify fun _ => .refl _
  have finalized : Timely finalizePolicy := by
    apply timely_of_wp
    intro s clock
    show wp (get >>= _) _ _ _
    simp only [wp_bind, wp_get, wp_ite]
    refine ⟨fun _ => .refl _, fun _ => ?_⟩
    split
    · trivial
    · exact .refl _
  refine .bind .get fun _ => .ite (.pure _) <| .bind time_timely fun _ => .ite (.pure _) <|
    .bind (.modify fun _ => .refl _) fun _ => .bind (divides_keeps _ _) fun _ => .ite (.pure _) <|
    .bind (recorded _) fun _ =>
    .bind (forShadows_timely (ShadowPolicyCache.access_timely _ _ _) _) fun _ =>
    .ite finalized (.pure _)

theorem setCapacity_timely [Numpy] (capacity : ℤ) : Timely (setCapacity capacity) :=
  .bind (.modify fun _ => .refl _) fun _ => .bind .get fun _ =>
    forShadows_timely (ShadowPolicyCache.setCapacity_timely capacity) _

end EvictionPolicyScheduler
end Vllm.Evictor
