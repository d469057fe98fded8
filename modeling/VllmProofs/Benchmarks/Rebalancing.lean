import VllmProofs.Benchmarks.InFlightRuns

/-!
`rebalance_queues` while the clock stands still. Each move lowers the larger of two latencies, and there are only
finitely many ways to distribute the requests over the queues.
-/

namespace Vllm.Benchmarks

/-- The latency models by server, from the five features to the latency. -/
abbrev Models := ServerId → List ℚ → ℚ

def estimateRequestLatency (model : List ℚ → ℚ) (stats : ServerStat) (promptDispatchTimestamps : List Time) (now : Time)
    (queueTokens promptLen : ℕ) : ℚ :=
  model [stats.inFlightTokens, stats.progress promptDispatchTimestamps now, queueTokens, stats.inFlightPromptLens.length,
    promptLen]

/-- The loop over the queue, from this maximum and these tokens on. -/
def maxLatencyFrom (requestLatency : ℕ → ℕ → ℚ) (now : Time) : WithBot ℚ → ℕ → List Waiting → WithBot ℚ
  | maxLatency, _, [] => maxLatency
  | maxLatency, queueTokens, (req, _) :: rest =>
    let reqLatency := requestLatency queueTokens req.promptLen + (now - req.timestamp)
    maxLatencyFrom requestLatency now (if maxLatency < reqLatency then reqLatency else maxLatency)
      (queueTokens + req.promptLen) rest

def estimateServerMaxLatency (model : List ℚ → ℚ) (stats : ServerStat) (promptDispatchTimestamps : List Time) (now : Time)
    (queue : Queue) : WithBot ℚ :=
  maxLatencyFrom (estimateRequestLatency model stats promptDispatchTimestamps now) now ⊥ 0 queue.values

def serverLatency (models : Models) (stats : ServerId → ServerStat) (promptDispatchTimestamps : ServerId → List Time)
    (now : Time) (server : ServerId) : Queue → WithBot ℚ :=
  estimateServerMaxLatency (models server) (stats server) (promptDispatchTimestamps server) now

/-- All estimates of a round are made at the same time. -/
def Estimates.still (latency : ServerId → Queue → WithBot ℚ) : Estimates := ⟨latency, latency, latency⟩

section
variable (latency : ServerId → Queue → WithBot ℚ)

def maxLatency (queues : List Queue) : WithBot ℚ := (queues.mapIdx latency).foldr max ⊥

/-- The first request of a queue goes to another one, and the larger of the two latencies is lower then. -/
inductive Moved (queues : List Queue) : List Queue → Prop
  | move {high low : ServerId} {queueHigh queueLow rest : Queue} {timestamp : Time} {value : Waiting}
      (different : high ≠ low) (atHigh : queues[high]? = some queueHigh) (atLow : queues[low]? = some queueLow)
      (popped : queueHigh.popItem? = some ((timestamp, value), rest))
      (lower : max (latency high rest) (latency low (queueLow.insert timestamp value)) <
        max (latency high queueHigh) (latency low queueLow)) :
    Moved queues ((queues.set high rest).set low (queueLow.insert timestamp value))

end

/-- The requests in the queues, with the timestamps they are under. -/
def queued (queues : List Queue) : Multiset (Time × Waiting) :=
  (queues.map fun queue => (↑queue.items : Multiset (Time × Waiting))).sum

/-- No two requests are of the same time. -/
def DistinctTimes (queues : List Queue) : Prop := ((queued queues).map Prod.fst).Nodup

variable {latency : ServerId → Queue → WithBot ℚ} {queues queues' : List Queue}

theorem moved_candidate {c : Candidate} (found : candidate? (.still latency) queues = some c) :
    Moved latency queues ((queues.set c.high c.queueHigh).set c.low c.queueLow) := by
  obtain ⟨different, high, low, atHigh, atLow, popped, inserted⟩ := Dispatcher.candidate?_some found
  have lower : max (latency c.high c.queueHigh) (latency c.low c.queueLow) < latency c.high high := by
    have same : queues.getD c.high ∅ = high := by rw [List.getD_eq_getElem?_getD, atHigh, Option.getD_some]
    rw [← same]
    unfold candidate? at found
    dsimp only at found
    split at found
    · cases found
    · split at found
      · cases found
      · split at found
        · rename_i lower
          cases found
          exact lower
        · cases found
  rw [inserted] at lower ⊢
  exact .move different atHigh atLow popped (lower.trans_le (le_max_left _ _))

theorem Moved.lowers (moved : Moved latency queues queues') : Lowers (queues.mapIdx latency) (queues'.mapIdx latency) := by
  cases moved with
  | @move high low queueHigh queueLow rest timestamp value different atHigh atLow popped lower =>
    refine ⟨high, low, _, _, _, _, different, ?_, ?_, ?_, lower⟩
    · rw [List.getElem?_mapIdx, atHigh, Option.map_some]
    · rw [List.getElem?_mapIdx, atLow, Option.map_some]
    · rw [List.mapIdx_set, List.mapIdx_set]

variable {queue : Queue}

theorem queued_set {i : ℕ} (found : queues[i]? = some queue) (queue' : Queue) :
    queued (queues.set i queue') + ↑queue.items = queued queues + ↑queue'.items := by
  unfold queued
  rw [List.map_set]
  apply sum_set_add
  rw [List.getElem?_map, found]
  rfl

theorem items_le_queued {i : ℕ} (found : queues[i]? = some queue) : ↑queue.items ≤ queued queues := by
  have without := queued_set found ∅
  have empty : ((∅ : Queue).items : Multiset (Time × Waiting)) = 0 := rfl
  rw [empty, add_zero] at without
  rw [← without]
  exact Multiset.le_add_left _ _

theorem Moved.queued_eq (distinct : DistinctTimes queues) (moved : Moved latency queues queues') :
    queued queues' = queued queues := by
  cases moved with
  | @move high low queueHigh queueLow rest timestamp value different atHigh atLow popped lower =>
    have atLow' : (queues.set high rest)[low]? = some queueLow := by
      rw [List.getElem?_set_ne different]
      exact atLow
    have first := queued_set atHigh rest
    rw [SortedDict.items_of_popItem? popped, ← Multiset.cons_coe, ← Multiset.singleton_add, ← add_assoc] at first
    have first := add_right_cancel first
    have fresh : queueLow.contains timestamp = false := by
      rw [Bool.eq_false_iff]
      intro there
      obtain ⟨other, member⟩ := SortedDict.contains_iff.mp there
      unfold DistinctTimes at distinct
      rw [← first, Multiset.map_add, Multiset.map_singleton, Multiset.nodup_add] at distinct
      refine Multiset.disjoint_left.mp distinct.2.2 ?_ (Multiset.mem_singleton_self timestamp)
      have inside := Multiset.subset_of_le (items_le_queued atLow') (Multiset.mem_coe.mpr member)
      exact Multiset.mem_map_of_mem Prod.fst inside
    have inserted := Multiset.coe_eq_coe.mpr (SortedDict.items_insert_of_not_contains (v := value) fresh)
    have second := queued_set atLow' (queueLow.insert timestamp value)
    rw [inserted, ← Multiset.cons_coe, ← Multiset.singleton_add, ← add_assoc, first] at second
    exact add_right_cancel second

theorem Moved.length_eq (moved : Moved latency queues queues') : queues'.length = queues.length := by
  cases moved
  rw [List.length_set, List.length_set]

theorem latency_le_maxLatency {i : ℕ} (found : queues[i]? = some queue) :
    latency i queue ≤ maxLatency latency queues := by
  have listed : latency i queue ∈ queues.mapIdx latency := by
    apply List.mem_of_getElem? (i := i)
    rw [List.getElem?_mapIdx, found, Option.map_some]
  unfold maxLatency
  generalize queues.mapIdx latency = latencies at listed
  induction latencies with
  | nil => cases listed
  | cons x rest ih =>
    rw [List.foldr_cons]
    rcases List.mem_cons.mp listed with same | listed
    · exact same ▸ le_max_left _ _
    · exact (ih listed).trans (le_max_right _ _)

theorem maxLatency_le {bound : WithBot ℚ} (below : ∀ i queue, queues[i]? = some queue → latency i queue ≤ bound) :
    maxLatency latency queues ≤ bound := by
  have all : ∀ x ∈ queues.mapIdx latency, x ≤ bound := by
    intro x listed
    obtain ⟨i, inside, rfl⟩ := List.mem_mapIdx.mp listed
    exact below i _ (List.getElem?_eq_getElem inside)
  unfold maxLatency
  generalize queues.mapIdx latency = latencies at all
  induction latencies with
  | nil => exact bot_le
  | cons x rest ih =>
    rw [List.foldr_cons]
    exact max_le (all x List.mem_cons_self) (ih fun y member => all y (List.mem_cons_of_mem _ member))

theorem Moved.maxLatency_le (moved : Moved latency queues queues') : maxLatency latency queues' ≤ maxLatency latency queues := by
  cases moved with
  | @move high low queueHigh queueLow rest timestamp value different atHigh atLow popped lower =>
    have bound := lower.le.trans (max_le (latency_le_maxLatency atHigh) (latency_le_maxLatency atLow))
    refine Benchmarks.maxLatency_le fun i queue found => ?_
    rw [List.getElem?_set, List.length_set] at found
    split at found
    · split at found
      · rename_i isLow inside
        cases isLow
        cases found
        exact (le_max_right _ _).trans bound
      · cases found
    · rw [List.getElem?_set] at found
      split at found
      · split at found
        · rename_i isHigh inside
          cases isHigh
          cases found
          exact (le_max_left _ _).trans bound
        · cases found
      · exact latency_le_maxLatency found

/-- The latencies of so many servers when their queues have no other requests than these. -/
noncomputable def possibleLatencies (latency : ServerId → Queue → WithBot ℚ) (numServers : ℕ)
    (requests : Multiset (Time × Waiting)) : Finset (WithBot ℚ) :=
  (Finset.range numServers).biUnion fun server =>
    ((SortedDict.finite_within requests.toFinset).image (latency server)).toFinset

theorem mem_possibleLatencies {x : WithBot ℚ} (listed : x ∈ queues.mapIdx latency) :
    x ∈ possibleLatencies latency queues.length (queued queues) := by
  obtain ⟨i, inside, rfl⟩ := List.mem_mapIdx.mp listed
  refine Finset.mem_biUnion.mpr ⟨i, Finset.mem_range.mpr inside, ?_⟩
  refine (Set.Finite.mem_toFinset _).mpr ⟨queues[i], fun item member => ?_, rfl⟩
  rw [Multiset.mem_toFinset]
  exact Multiset.subset_of_le (items_le_queued (List.getElem?_eq_getElem inside)) (Multiset.mem_coe.mpr member)

theorem Moved.weight_lt (distinct : DistinctTimes queues) (moved : Moved latency queues queues') :
    let values := possibleLatencies latency queues.length (queued queues)
    weight values (queues'.mapIdx latency) < weight values (queues.mapIdx latency) := by
  refine Vllm.weight_lt (fun x listed => ?_) moved.lowers
  rw [← moved.length_eq, ← moved.queued_eq distinct]
  exact mem_possibleLatencies listed

/-- With enough rounds there is a result, which moves lead to. -/
theorem rebalanceQueues_returns (distinct : DistinctTimes queues) :
    ∃ queues', (∃ enough, ∀ rounds, enough ≤ rounds →
        rebalanceQueues (List.replicate rounds (.still latency)) queues = some queues') ∧
      Relation.ReflTransGen (Moved latency) queues queues' := by
  generalize measured : weight (possibleLatencies latency queues.length (queued queues)) (queues.mapIdx latency) = size
  induction size using Nat.strong_induction_on generalizing queues with
  | _ size ih =>
    have unfolds : ∀ rounds, 1 ≤ rounds → List.replicate rounds (Estimates.still latency) =
        .still latency :: List.replicate (rounds - 1) (.still latency) := by
      intro rounds some_
      rw [← List.replicate_succ, Nat.sub_add_cancel some_]
    cases found : candidate? (.still latency) queues with
    | none =>
      refine ⟨queues, ⟨1, fun rounds some_ => ?_⟩, .refl⟩
      rw [unfolds rounds some_, rebalanceQueues, found]
    | some c =>
      have moved := moved_candidate found
      by_cases goesOn : latency c.low c.queueLow < latency c.high c.queueHigh
      · have lower := moved.weight_lt distinct
        dsimp only at lower
        rw [measured, ← moved.length_eq, ← moved.queued_eq distinct] at lower
        have distinct' : DistinctTimes ((queues.set c.high c.queueHigh).set c.low c.queueLow) := by
          unfold DistinctTimes
          rw [moved.queued_eq distinct]
          exact distinct
        obtain ⟨queues', ⟨enough, returns⟩, moves⟩ := ih _ lower distinct' rfl
        refine ⟨queues', ⟨enough + 1, fun rounds more => ?_⟩, .head moved moves⟩
        rw [unfolds rounds (by omega), rebalanceQueues, found]
        dsimp only
        rw [if_pos]
        · exact returns _ (by omega)
        · exact goesOn
      · refine ⟨_, ⟨1, fun rounds some_ => ?_⟩, .single moved⟩
        rw [unfolds rounds some_, rebalanceQueues, found]
        dsimp only
        rw [if_neg]
        exact goesOn

theorem moves_keep (distinct : DistinctTimes queues) (moves : Relation.ReflTransGen (Moved latency) queues queues') :
    queued queues' = queued queues ∧ maxLatency latency queues' ≤ maxLatency latency queues := by
  induction moves with
  | refl => exact ⟨rfl, le_rfl⟩
  | @tail queues₁ queues₂ _ moved ih =>
    have distinct' : DistinctTimes queues₁ := by
      unfold DistinctTimes
      rw [ih.1]
      exact distinct
    exact ⟨(moved.queued_eq distinct').trans ih.1, moved.maxLatency_le.trans ih.2⟩

/-- While the clock stands still, `rebalance_queues` comes to an end after moves each of which lowers the larger of two
latencies. It keeps the requests, and does not raise the largest latency. -/
theorem rebalanceQueues_lowers (models : Models) (stats : ServerId → ServerStat)
    (promptDispatchTimestamps : ServerId → List Time) (now : Time) (distinct : DistinctTimes queues) :
    let latency := serverLatency models stats promptDispatchTimestamps now
    (∀ (queues : List Queue) (c : Candidate), candidate? (.still latency) queues = some c →
      Moved latency queues ((queues.set c.high c.queueHigh).set c.low c.queueLow)) ∧
    ∃ queues', (∃ enough, ∀ rounds, enough ≤ rounds →
        rebalanceQueues (List.replicate rounds (.still latency)) queues = some queues') ∧
      Relation.ReflTransGen (Moved latency) queues queues' ∧ queued queues' = queued queues ∧
      maxLatency latency queues' ≤ maxLatency latency queues := by
  refine ⟨fun _ _ => moved_candidate, ?_⟩
  obtain ⟨queues', returns, moves⟩ := @rebalanceQueues_returns (serverLatency models stats promptDispatchTimestamps now) _ distinct
  exact ⟨queues', returns, moves, moves_keep distinct moves⟩

def twoQueues : List Queue := [((∅ : Queue).insert 1 (⟨1, 5⟩, 0)).insert 2 (⟨2, 7⟩, 1), ∅]

/-- Of two requests on one server, one is moved to the other server. -/
theorem rebalanceQueues_lowers_example :
    let latency := serverLatency (fun _ features => features.sum) (fun _ => .init 100 1) (fun _ => []) 3
    (∃ c, candidate? (.still latency) twoQueues = some c ∧ c.high = 0 ∧ c.low = 1 ∧
      Moved latency twoQueues ((twoQueues.set c.high c.queueHigh).set c.low c.queueLow)) ∧
    ∃ queues', (∃ enough, ∀ rounds, enough ≤ rounds →
        rebalanceQueues (List.replicate rounds (.still latency)) twoQueues = some queues') ∧
      queued queues' = queued twoQueues ∧ maxLatency latency queues' ≤ maxLatency latency twoQueues := by
  intro latency
  have distinct : DistinctTimes twoQueues := by
    unfold DistinctTimes
    decide +kernel
  obtain ⟨moves, queues', returns, -, same, lower⟩ :=
    rebalanceQueues_lowers (fun _ features => features.sum) (fun _ => .init 100 1) (fun _ => []) 3 distinct
  have found : ∃ c ∈ candidate? (.still latency) twoQueues, c.high = 0 ∧ c.low = 1 := by
    decide +kernel
  obtain ⟨c, candidate, servers⟩ := found
  exact ⟨⟨c, candidate, servers.1, servers.2, moves _ c candidate⟩, queues', returns, same, lower⟩

end Vllm.Benchmarks
