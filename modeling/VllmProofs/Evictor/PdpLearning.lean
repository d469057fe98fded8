import VllmProofs.Evictor.PdpReuse

/-!
What `PDPEvictor` learns from the reuse distances of a run: the protecting distance is the least
candidate with the most hits for their cost. Only buckets up to the last candidate are counted.
-/

namespace Vllm.Evictor.PDPEvictor
open Exec ReuseDistance

section
variable {config : PdpSettings} {history : List Event} {s : PDPEvictor}

/-- How many different hashes have been observed. -/
def distinctSeen (history : List Event) : ℕ := (requests history).flatten.toFinset.card

theorem requests_nodup (history : List Event) : ∀ request ∈ requests history, request.Nodup := by
  induction history with
  | nil => exact fun _ member => nomatch member
  | cons e earlier ih =>
    unfold requests
    split
    · intro request member
      rcases List.mem_cons.mp member with rfl | before
      · exact requested_nodup _ _
      · exact ih request before
    · exact ih

theorem requests_le_accesses (history : List Event) :
    (requests history).flatten.length ≤ accesses history := by
  induction history with
  | nil => exact le_rfl
  | cons e earlier ih =>
    rw [accesses, List.map_cons, List.sum_cons]
    unfold requests
    split
    · rename_i h rest hint hits kind
      have here : e.accesses = counted hits (h :: rest) := by
        unfold Event.accesses
        rw [kind]
      rw [List.flatten_cons, List.length_append, here, counted]
      exact Nat.add_le_add (Nat.le_add_right _ _) ih
    · exact ih.trans (Nat.le_add_left _ _)

theorem recorded_pos : ∀ x ∈ recorded config.clamp (requests history), 1 ≤ x := by
  intro x member
  obtain ⟨d, -, rfl⟩ := List.mem_map.mp member
  exact (bucketOf_bounds config.clamp_positive d).1

/-- Each access is the first one to its hash or a reuse, so the reuses leave room for the first
ones. -/
theorem hits_le (run : Run Call (PDPEvictor.init config) history s) (d : ℤ) :
    hitsWithin (recorded config.clamp (requests history)) d + distinctSeen history ≤
      s.totalObservedAccesses := by
  have all := reuses_add_distinct (requests_nodup history)
  have fewer := requests_le_accesses history
  have filtered := List.length_filter_le (· ≤ d) (recorded config.clamp (requests history))
  have size : (recorded config.clamp (requests history)).length = (reuses (requests history)).length :=
    List.length_map _
  rw [(run_learnt run).2]
  unfold hitsWithin distinctSeen
  omega

theorem distinct_pos (some' : recorded config.clamp (requests history) ≠ []) :
    0 < distinctSeen history := by
  rw [distinctSeen, Finset.card_pos, List.toFinset_nonempty_iff]
  intro none
  have all := reuses_add_distinct (requests_nodup history)
  rw [none, List.toFinset_nil, Finset.card_empty, List.length_nil, Nat.add_zero, List.length_eq_zero_iff] at all
  exact some' (by rw [recorded, all, List.map_nil])

theorem sound (run : Run Call (PDPEvictor.init config) history s)
    (some' : recorded config.clamp (requests history) ≠ []) :
    Sound (recorded config.clamp (requests history)) s.totalObservedAccesses
      config.clamp.evictionDistance := by
  refine ⟨recorded_pos, fun d => ?_, config.clamp_positive.2.2.2⟩
  have le := hits_le run d
  have positive := distinct_pos some'
  omega

/-- What the scan of an evictor finds, and what it leaves uncounted. -/
def scan (s : PDPEvictor) : ℤ × List (ℤ × ℤ) :=
  scanLoop s.totalObservedAccesses s.settings.evictionDistance (candidates s.settings)
    (s.reuseDistanceCounts.items.insertionSort fun x y => x.1 ≤ y.1) 0 0 s.protectingDistance (-1)

/-- With a reuse recorded, the protecting distance is what the scan finds. -/
theorem recompute_scan (run : Run Call (PDPEvictor.init config) history s)
    (some' : recorded config.clamp (requests history) ≠ []) :
    recomputeProtectingDistance s = .ok () { s with protectingDistance := (scan s).1 } := by
  have learnt := (run_learnt run).1
  have total : s.totalObservedAccesses ≠ 0 := by
    have le := hits_le run 0
    have positive := distinct_pos some'
    have hits := hitsWithin_nonneg (recorded config.clamp (requests history)) 0
    omega
  have active : ¬(s.reuseDistanceCounts.size = 0 ∨ s.totalObservedAccesses = 0) := by
    rw [learnt.counts.size_eq_zero]
    exact fun either => either.elim some' total
  have step : s.settings.bucketSize ≠ 0 := by
    have := s.positive.2.2.1
    omega
  rw [recomputeProtectingDistance, get_bind, bestProtectingDistance, if_neg active, range, if_neg step,
    pure_bind, pure_bind, scan, scanLoop_best]
  rfl

theorem scan_eq (run : Run Call (PDPEvictor.init config) history s)
    (some' : recorded config.clamp (requests history) ≠ []) :
    LeastMax (objective s.totalObservedAccesses config.clamp.evictionDistance
        (recorded config.clamp (requests history))) (candidates config.clamp) (scan s).1 ∧
      (scan s).2 = (s.reuseDistanceCounts.items.insertionSort fun x y => x.1 ≤ y.1).filter
        fun x => ∀ d ∈ candidates config.clamp, d < x.1 := by
  have learnt := (run_learnt run).1
  have ratio := sound run some'
  have sorted := candidates_sorted config.clamp_positive
  have scanned := scanLoop_eq s.protectingDistance (-1) ratio
    (Counting.start learnt.counts 0) sorted le_rfl
  rw [← learnt.settings] at scanned
  unfold scan
  rw [scanned, learnt.settings]
  refine ⟨?_, rfl⟩
  obtain ⟨rest, first⟩ := candidates_cons config.clamp_positive
  have below : (-1 : ℚ) < objective s.totalObservedAccesses config.clamp.evictionDistance
      (recorded config.clamp (requests history)) 1 := by
    have low : (0 : ℚ) ≤ objective s.totalObservedAccesses config.clamp.evictionDistance
        (recorded config.clamp (requests history)) 1 := by
      apply div_nonneg
      · exact_mod_cast hitsWithin_nonneg _ _
      · exact_mod_cast (ratio.denominator 1 le_rfl).le
    linarith
  rw [first] at sorted ⊢
  rw [runningMax_start below]
  exact runningMax_least (List.pairwise_cons.mp sorted).2

/-- In every run the reuses within a distance and the different hashes are at most the accesses, so
no clamp is active; and once a reuse is recorded, the protecting distance is recomputed as the least
candidate that maximises the objective. -/
theorem recompute_maximises (config : PdpSettings) (history : List Event) (s : PDPEvictor)
    (run : Run Call (PDPEvictor.init config) history s) :
    Histogram s.reuseDistanceCounts (recorded config.clamp (requests history)) ∧
    (∀ d, hitsWithin (recorded config.clamp (requests history)) d ≤
      s.totalObservedAccesses - distinctSeen history) ∧
    (recorded config.clamp (requests history) = [] → recomputeProtectingDistance s = .ok () s) ∧
    (recorded config.clamp (requests history) ≠ [] →
      (∀ d ∈ candidates config.clamp, 0 < denominator s.totalObservedAccesses
        config.clamp.evictionDistance (recorded config.clamp (requests history)) d) ∧
      ∃ distance, recomputeProtectingDistance s = .ok () { s with protectingDistance := distance } ∧
        LeastMax (objective s.totalObservedAccesses config.clamp.evictionDistance
          (recorded config.clamp (requests history))) (candidates config.clamp) distance) := by
  have learnt := (run_learnt run).1
  refine ⟨learnt.counts, fun d => ?_, fun none => ?_, fun some' => ⟨fun d member => ?_, ?_⟩⟩
  · have le := hits_le run d
    omega
  · have empty : s.reuseDistanceCounts.size = 0 := learnt.counts.size_eq_zero.mpr none
    rw [recomputeProtectingDistance, get_bind, bestProtectingDistance, if_pos (Or.inl empty), pure_bind]
    rfl
  · apply (sound run some').denominator
    have first := (List.pairwise_cons.mp (candidates_sorted config.clamp_positive)).1 d member
    omega
  · exact ⟨_, recompute_scan run some', (scan_eq run some').1⟩

theorem execute_call (config : PdpSettings) (ops : List Op) :
    Run Call (PDPEvictor.init config) (events config ops) (execute config ops) := by
  induction ops with
  | nil => exact .start
  | cons op earlier ih => exact .call ih ⟨rfl, rfl⟩

/-- Two lookups of one hash. -/
def twice : List Op := [.observe [11] none none, .observe [11] none none]

def upToFour : PdpSettings := { initialPd := 4, maxDistance := 4, recomputeInterval := 2 }

theorem recompute_maximises_twice : ∃ distance,
    recomputeProtectingDistance (execute upToFour twice) =
      .ok () { execute upToFour twice with protectingDistance := distance } ∧
    LeastMax (objective 2 1 [1]) [1, 2, 3, 4] distance := by
  have run := execute_call upToFour twice
  have total : (execute upToFour twice).totalObservedAccesses = 2 := by decide +kernel
  have reuse' : recorded upToFour.clamp (requests (events upToFour twice)) = [1] := by decide +kernel
  have scanned : candidates upToFour.clamp = [1, 2, 3, 4] := by decide +kernel
  obtain ⟨distance, call, least⟩ := ((recompute_maximises upToFour _ _ run).2.2.2
    (by rw [reuse']; exact List.cons_ne_nil _ _)).2
  rw [total, reuse', scanned] at least
  exact ⟨distance, call, least⟩

/-- With no reuse recorded the initial distance stays, though every candidate scores zero. -/
theorem recompute_keeps_initial : ¬ ∀ (config : PdpSettings) (history : List Event) (s : PDPEvictor),
    Run Call (PDPEvictor.init config) history s →
    ∃ distance, recomputeProtectingDistance s = .ok () { s with protectingDistance := distance } ∧
      LeastMax (objective s.totalObservedAccesses config.clamp.evictionDistance
        (recorded config.clamp (requests history))) (candidates config.clamp) distance := by
  intro claim
  obtain ⟨distance, call, ⟨-, least⟩⟩ := claim {} _ _ (execute_call {} [.observe [7] none none])
  have kept : (after recomputeProtectingDistance (execute {} [.observe [7] none none])).protectingDistance =
      32 := by decide +kernel
  rw [after_ok call] at kept
  have none' : recorded (PdpSettings.clamp {}) (requests (events {} [.observe [7] none none])) = [] := by
    decide +kernel
  have one : (1 : ℤ) ∈ candidates (PdpSettings.clamp {}) := by decide +kernel
  have below : distance ≤ 1 := least ⟨one, fun c _ => by
    rw [none']
    simp [objective, hitsWithin]⟩
  have same : distance = 32 := kept
  omega

/-! ### What the scan does not count -/

theorem scanLoop_nothing {total eviction hits cost best : ℤ} {score : ℚ} (candidates : List ℤ) :
    (scanLoop total eviction candidates [] hits cost best score).2 = [] := by
  induction candidates generalizing hits cost best score with
  | nil => rfl
  | cons d rest ih =>
    unfold scanLoop
    show Prod.snd (ite _ _ _) = _
    rw [apply_ite Prod.snd]
    exact ite_eq_iff'.mpr ⟨fun _ => ih, fun _ => ih⟩

theorem scan_counts (run : Run Call (PDPEvictor.init config) history s) : (scan s).2 = [] ↔
    ∀ d ∈ reuses (requests history), bucketOf config.clamp d ≤ lastCandidate config.clamp := by
  have learnt := (run_learnt run).1
  by_cases none : recorded config.clamp (requests history) = []
  · have noReuse : reuses (requests history) = [] := List.map_eq_nil_iff.mp none
    have noCount : s.reuseDistanceCounts.items = [] :=
      List.length_eq_zero_iff.mp (learnt.counts.size_eq_zero.mpr none)
    refine iff_of_true ?_ (by simp [noReuse])
    rw [scan, noCount]
    exact scanLoop_nothing _
  · rw [(scan_eq run none).2, List.filter_eq_nil_iff]
    constructor
    · intro within d member
      have key : bucketOf config.clamp d ∈ s.reuseDistanceCounts.keys :=
        learnt.counts.mem_keys.mpr (List.mem_map.mpr ⟨d, member, rfl⟩)
      obtain ⟨item, among, same⟩ := List.mem_map.mp key
      have counted := within item (List.mem_insertionSort (fun x y : ℤ × ℤ => x.1 ≤ y.1) |>.mpr among)
      rw [decide_eq_true_eq, above_candidates config.clamp_positive, same] at counted
      exact not_lt.mp counted
    · intro within item among
      have key : item.1 ∈ s.reuseDistanceCounts.keys := List.mem_map.mpr
        ⟨item, (List.mem_insertionSort (fun x y : ℤ × ℤ => x.1 ≤ y.1)).mp among, rfl⟩
      obtain ⟨d, member, same⟩ := List.mem_map.mp (learnt.counts.mem_keys.mp key)
      have le := within d member
      rw [decide_eq_true_eq, above_candidates config.clamp_positive, ← same]
      exact not_lt.mpr le

theorem within_candidates {c : PdpSettings} (positive : c.Positive) {bucket : ℤ} :
    (∃ d ∈ candidates c, bucket ≤ d) ↔ bucket ≤ lastCandidate c := by
  have above := above_candidates positive (d := bucket)
  constructor
  · rintro ⟨d, member, le⟩
    by_contra past
    exact absurd (above.mpr (not_le.mp past) d member) (not_lt.mpr le)
  · intro le
    by_contra none
    exact absurd (above.mp fun d member => not_le.mp fun le => none ⟨d, member, le⟩) (not_lt.mpr le)

theorem far_within {c : PdpSettings} (positive : c.Positive) :
    c.maxDistance ≤ lastCandidate c ↔ c.bucketSize ∣ c.maxDistance - 1 := by
  have reach := bucketOf_le_last positive positive.1
  rw [bucketOf_far positive le_rfl] at reach
  have below := Int.mul_ediv_self_le (x := c.maxDistance - 1) (k := c.bucketSize)
    (by have := positive.2.2.1; omega)
  rw [reach]
  constructor
  · rintro (divides | le)
    · exact divides
    · omega
  · exact Or.inl

/-- A bucket can be recorded past the last candidate unless the bucket size divides the greatest
distance less one; and a run leaves reuses uncounted just when it has one past the last multiple. -/
theorem scan_counts_iff (config : PdpSettings) :
    ((∀ s d bucket t, s.settings = config.clamp → bucketDistance d s = .ok bucket t →
        ∃ e ∈ candidates config.clamp, bucket ≤ e) ↔
      config.clamp.bucketSize ∣ config.clamp.maxDistance - 1) ∧
    (∀ recorded, (∃ e ∈ candidates config.clamp,
        hitsWithin (config.clamp.maxDistance :: recorded) e ≠ hitsWithin recorded e) ↔
      config.clamp.bucketSize ∣ config.clamp.maxDistance - 1) ∧
    ∀ history s, Run Call (PDPEvictor.init config) history s →
      ((scan s).2 = [] ↔ config.clamp.bucketSize ∣ config.clamp.maxDistance - 1 ∨
        ∀ d ∈ reuses (requests history), (d : ℤ) ≤
          config.clamp.bucketSize * ((config.clamp.maxDistance - 1) / config.clamp.bucketSize)) := by
  have positive := config.clamp_positive
  have records : ∀ s d, s.settings = config.clamp →
      bucketDistance d s = .ok (bucketOf config.clamp d) s := by
    intro s d same
    rw [bucketDistance, get_bind, bucketed_eq s.positive, same]
    rfl
  refine ⟨?_, fun recorded => ?_, fun history s run => ?_⟩
  · rw [← far_within positive]
    constructor
    · intro within
      have far := within _ _ _ _ rfl (records (PDPEvictor.init config) config.clamp.maxDistance rfl)
      rwa [bucketOf_far positive le_rfl, within_candidates positive] at far
    · intro far s d bucket t same returned
      rw [records s d same] at returned
      cases returned
      exact (within_candidates positive).mpr ((bucketOf_bounds positive d).2.trans far)
  · rw [← far_within positive, ← within_candidates positive]
    refine exists_congr fun e => and_congr_right fun _ => ?_
    unfold hitsWithin
    by_cases le : config.clamp.maxDistance ≤ e
    · rw [List.filter_cons_of_pos (by simpa using le), List.length_cons]
      exact iff_of_true (by omega) le
    · rw [List.filter_cons_of_neg (by simpa using le)]
      exact iff_of_false (by omega) le
  · rw [scan_counts run]
    have reach : ∀ d ∈ reuses (requests history), bucketOf config.clamp d ≤ lastCandidate config.clamp ↔ _ :=
      fun d member => bucketOf_le_last positive (by have := reuses_pos member; omega)
    constructor
    · intro all
      by_cases divides : config.clamp.bucketSize ∣ config.clamp.maxDistance - 1
      · exact Or.inl divides
      · exact Or.inr fun d member => ((reach d member).mp (all d member)).resolve_left divides
    · intro either d member
      exact (reach d member).mpr (either.imp_right fun all => all d member)

/-- Candidates 1, 5 and buckets 4, 8. -/
def byFours : PdpSettings := { maxDistance := 8, bucketSize := 4 }

/-- A lookup again after five others. -/
def afterFive : List Op := .observe [11] none none ::
  (List.replicate 5 (.observe [12] none none) ++ [.observe [11] none none])

theorem scan_counts_iff_afterFive : (scan (execute {} afterFive)).2 = [] :=
  ((scan_counts_iff {}).2.2 _ _ (execute_call {} afterFive)).mpr (Or.inl (by decide +kernel))

/-- Its reuse distance is recorded in bucket 8, which no candidate reaches. -/
theorem afterFive_uncounted : Run Call (PDPEvictor.init byFours) (events byFours afterFive)
      (execute byFours afterFive) ∧ (scan (execute byFours afterFive)).2 = [(8, 1)] ∧
    candidates byFours.clamp = [1, 5] :=
  ⟨execute_call byFours afterFive, by decide +kernel, by decide +kernel⟩

end
end Vllm.Evictor.PDPEvictor
