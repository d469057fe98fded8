import Mathlib

/-!
The prefix cache hit rate of the V1 engine: `PrefixCachingMetrics`, with counters that are to cover the requests of
the most recent updates. Divisions are taken exactly.
-/

namespace Vllm.V1

structure PrefixCacheStats where
  /-- Whether `reset_prefix_cache` was invoked. -/
  reset : Bool := false
  requests : ℕ := 0
  queries : ℕ := 0
  hits : ℕ := 0
  deriving DecidableEq, Repr

/-- An entry of the deque: requests, queries and hits. -/
abbrev QueryRecord := ℕ × ℕ × ℕ

def PrefixCacheStats.record (stats : PrefixCacheStats) : QueryRecord := (stats.requests, stats.queries, stats.hits)

structure PrefixCachingMetrics where
  interval : ℕ := 1000
  aggregatedRequests : ℤ := 0
  aggregatedQueryTotal : ℤ := 0
  aggregatedQueryHit : ℤ := 0
  queryQueue : List QueryRecord := []
  deriving DecidableEq, Repr

namespace PrefixCachingMetrics

def cleared (s : PrefixCachingMetrics) : PrefixCachingMetrics :=
  { s with aggregatedRequests := 0, aggregatedQueryTotal := 0, aggregatedQueryHit := 0, queryQueue := [] }

def append (s : PrefixCachingMetrics) (stats : PrefixCacheStats) : PrefixCachingMetrics :=
  { s with
    queryQueue := s.queryQueue ++ [stats.record]
    aggregatedRequests := s.aggregatedRequests + stats.requests
    aggregatedQueryTotal := s.aggregatedQueryTotal + stats.queries
    aggregatedQueryHit := s.aggregatedQueryHit + stats.hits }

/-- `popleft` and the subtractions after it. There is a record to pop: the one just appended at least. -/
def removeOldest (s : PrefixCachingMetrics) : PrefixCachingMetrics :=
  match s.queryQueue with
  | [] => s
  | (oldRequests, oldQueries, oldHits) :: rest =>
    { s with
      queryQueue := rest
      aggregatedRequests := s.aggregatedRequests - oldRequests
      aggregatedQueryTotal := s.aggregatedQueryTotal - oldQueries
      aggregatedQueryHit := s.aggregatedQueryHit - oldHits }

/-- `observe`, up to the test whether the number of requests exceeds the interval. -/
def update (s : PrefixCachingMetrics) (stats : PrefixCacheStats) : PrefixCachingMetrics :=
  if stats.reset then s.cleared.append stats else s.append stats

def observe (s : PrefixCachingMetrics) (stats : PrefixCacheStats) : PrefixCachingMetrics :=
  if ((s.update stats).interval : ℤ) < (s.update stats).aggregatedRequests then (s.update stats).removeOldest
  else s.update stats

def hitRate (s : PrefixCachingMetrics) : ℚ :=
  if s.aggregatedQueryTotal = 0 then 0 else s.aggregatedQueryHit / s.aggregatedQueryTotal

/-- The metrics after the updates, which are given latest first. -/
def observed (interval : ℕ) : List PrefixCacheStats → PrefixCachingMetrics
  | [] => { interval }
  | stats :: earlier => (observed interval earlier).observe stats

-- The records and the counters

def requestsIn (records : List QueryRecord) : ℕ := (records.map fun r => r.1).sum

def queriesIn (records : List QueryRecord) : ℕ := (records.map fun r => r.2.1).sum

def hitsIn (records : List QueryRecord) : ℕ := (records.map fun r => r.2.2).sum

/-- The counters are those of the records kept. -/
structure Counted (s : PrefixCachingMetrics) : Prop where
  requests : s.aggregatedRequests = requestsIn s.queryQueue
  queries : s.aggregatedQueryTotal = queriesIn s.queryQueue
  hits : s.aggregatedQueryHit = hitsIn s.queryQueue

/-- What is observed since the cache was last reset, oldest first. -/
def sinceReset : List PrefixCacheStats → List QueryRecord
  | [] => []
  | stats :: earlier => (if stats.reset then [] else sinceReset earlier) ++ [stats.record]

def newest (records : List QueryRecord) : Option QueryRecord := (records.filter fun r => 0 < r.1).getLast?

/-- The metrics speak of the most recent requests, `history` being all records since the last reset. -/
structure Windowed (s : PrefixCachingMetrics) (history : List QueryRecord) : Prop where
  counted : s.Counted
  rate : s.hitRate =
    if queriesIn s.queryQueue = 0 then 0 else (hitsIn s.queryQueue / queriesIn s.queryQueue : ℚ)
  recent : s.queryQueue <:+ history
  within : 1 < s.queryQueue.length → requestsIn s.queryQueue ≤ s.interval
  newest_kept : newest s.queryQueue = newest history

/-- The records that an update finds: none if it comes with a reset. -/
def found (s : PrefixCachingMetrics) (stats : PrefixCacheStats) : List QueryRecord :=
  if stats.reset then [] else s.queryQueue

/-- Removing one record is enough and does not take the newest one. -/
def Fits (s : PrefixCachingMetrics) (stats : PrefixCacheStats) : Prop :=
  match s.found stats with
  | [] => stats.requests ≤ s.interval
  | old :: rest =>
    requestsIn (old :: rest) + stats.requests ≤ s.interval ∨
      0 < stats.requests ∧ (rest = [] ∨ requestsIn rest + stats.requests ≤ s.interval)

instance (s : PrefixCachingMetrics) (stats : PrefixCacheStats) : Decidable (s.Fits stats) := by
  unfold Fits
  split <;> infer_instance

variable {s : PrefixCachingMetrics} {stats : PrefixCacheStats} {history records : List QueryRecord}

@[simp] theorem requestsIn_append (xs ys : List QueryRecord) :
    requestsIn (xs ++ ys) = requestsIn xs + requestsIn ys := by
  simp [requestsIn]

@[simp] theorem requestsIn_record : requestsIn [stats.record] = stats.requests := by
  simp [requestsIn, PrefixCacheStats.record]

@[simp] theorem requestsIn_cons (r : QueryRecord) (records : List QueryRecord) :
    requestsIn (r :: records) = r.1 + requestsIn records := by
  simp [requestsIn]

theorem Counted.hitRate (counted : s.Counted) :
    s.hitRate = if queriesIn s.queryQueue = 0 then 0 else (hitsIn s.queryQueue / queriesIn s.queryQueue : ℚ) := by
  unfold PrefixCachingMetrics.hitRate
  rw [counted.queries, counted.hits]
  simp

-- One update

theorem Counted.append (counted : s.Counted) : (s.append stats).Counted := by
  obtain ⟨requests, queries, hits⟩ := counted
  constructor
  · simp [PrefixCachingMetrics.append, requests, requestsIn, PrefixCacheStats.record]
  · simp [PrefixCachingMetrics.append, queries, queriesIn, PrefixCacheStats.record]
  · simp [PrefixCachingMetrics.append, hits, hitsIn, PrefixCacheStats.record]

theorem Counted.removeOldest (counted : s.Counted) : s.removeOldest.Counted := by
  obtain ⟨requests, queries, hits⟩ := counted
  unfold PrefixCachingMetrics.removeOldest
  split
  · exact ⟨requests, queries, hits⟩
  · next kept =>
    rw [kept] at requests queries hits
    constructor
    · simp [requests]
    · simp [queries, queriesIn]
    · simp [hits, hitsIn]

theorem removeOldest_queue (s : PrefixCachingMetrics) : s.removeOldest.queryQueue = s.queryQueue.tail := by
  unfold removeOldest
  split
  · next kept => rw [kept]; rfl
  · next kept => rw [kept]; rfl

@[simp] theorem removeOldest_interval (s : PrefixCachingMetrics) : s.removeOldest.interval = s.interval := by
  unfold removeOldest
  split <;> rfl

theorem Counted.update (counted : s.Counted) (stats : PrefixCacheStats) : (s.update stats).Counted := by
  unfold PrefixCachingMetrics.update
  split
  · exact Counted.append ⟨rfl, rfl, rfl⟩
  · exact counted.append

theorem update_queue (s : PrefixCachingMetrics) (stats : PrefixCacheStats) :
    (s.update stats).queryQueue = s.found stats ++ [stats.record] := by
  unfold update found
  split <;> rfl

theorem update_interval (s : PrefixCachingMetrics) (stats : PrefixCacheStats) :
    (s.update stats).interval = s.interval := by
  unfold update
  split <;> rfl

theorem Counted.observe (counted : s.Counted) : (s.observe stats).Counted := by
  unfold PrefixCachingMetrics.observe
  split
  · exact (counted.update stats).removeOldest
  · exact counted.update stats

theorem observe_interval (s : PrefixCachingMetrics) (stats : PrefixCacheStats) :
    (s.observe stats).interval = s.interval := by
  unfold observe
  split
  · rw [removeOldest_interval, update_interval]
  · exact update_interval s stats

theorem observe_queue (stats : PrefixCacheStats) (counted : s.Counted) :
    (s.observe stats).queryQueue =
      if s.interval < requestsIn (s.found stats) + stats.requests then (s.found stats ++ [stats.record]).tail
      else s.found stats ++ [stats.record] := by
  have requests : (s.update stats).aggregatedRequests = ((requestsIn (s.found stats) + stats.requests : ℕ) : ℤ) := by
    rw [(counted.update stats).requests, update_queue, requestsIn_append, requestsIn_record]
  unfold observe
  simp only [update_interval, requests, Nat.cast_lt]
  split
  · rw [removeOldest_queue, update_queue]
  · exact update_queue s stats

/-! ### The newest record -/

theorem newest_append_nonempty (records : List QueryRecord) (asks : 0 < stats.requests) :
    newest (records ++ [stats.record]) = some stats.record := by
  simp [newest, PrefixCacheStats.record, asks]

theorem newest_append_empty (records : List QueryRecord) (idle : stats.requests = 0) :
    newest (records ++ [stats.record]) = newest records := by
  simp [newest, PrefixCacheStats.record, idle]

theorem requestsIn_eq_zero (idle : newest records = none) : requestsIn records = 0 := by
  rw [newest, List.getLast?_eq_none_iff, List.filter_eq_nil_iff] at idle
  apply List.sum_eq_zero
  intro n member
  obtain ⟨r, there, rfl⟩ := List.mem_map.mp member
  simpa using idle r there

theorem newest_append_congr (same : newest records = newest history) :
    newest (records ++ [stats.record]) = newest (history ++ [stats.record]) := by
  rcases Nat.eq_zero_or_pos stats.requests with idle | asks
  · rw [newest_append_empty _ idle, newest_append_empty _ idle, same]
  · rw [newest_append_nonempty _ asks, newest_append_nonempty _ asks]

/-! ### The window after an update -/

variable {earlier : List PrefixCacheStats}

theorem Windowed.found (windowed : s.Windowed (sinceReset earlier)) (stats : PrefixCacheStats) :
    ∃ history, sinceReset (stats :: earlier) = history ++ [stats.record] ∧ s.found stats <:+ history ∧
      newest (s.found stats) = newest history ∧
      (1 < (s.found stats).length → requestsIn (s.found stats) ≤ s.interval) := by
  refine ⟨if stats.reset then [] else sinceReset earlier, rfl, ?_⟩
  unfold PrefixCachingMetrics.found
  split
  · exact ⟨List.suffix_rfl, rfl, by simp⟩
  · exact ⟨windowed.recent, windowed.newest_kept, windowed.within⟩

/-- The parts of `Windowed` that hold after every update. -/
theorem windowed_iff (counted : s.Counted) (recent : s.queryQueue <:+ history) :
    s.Windowed history ↔
      (1 < s.queryQueue.length → requestsIn s.queryQueue ≤ s.interval) ∧ newest s.queryQueue = newest history :=
  ⟨fun windowed => ⟨windowed.within, windowed.newest_kept⟩,
    fun ⟨within, newest_kept⟩ => ⟨counted, counted.hitRate, recent, within, newest_kept⟩⟩

/-- From good metrics, an update leads to good metrics exactly if it fits. -/
theorem windowed_observe_iff (windowed : s.Windowed (sinceReset earlier)) :
    (s.observe stats).Windowed (sinceReset (stats :: earlier)) ↔ s.Fits stats := by
  obtain ⟨history, since, recent, kept, within⟩ := windowed.found stats
  have queue := observe_queue stats windowed.counted
  have suffix : (s.observe stats).queryQueue <:+ history ++ [stats.record] := by
    rw [queue]
    have appended : s.found stats ++ [stats.record] <:+ history ++ [stats.record] := by
      obtain ⟨before, rfl⟩ := recent
      exact ⟨before, by rw [List.append_assoc]⟩
    split
    · exact (List.tail_suffix _).trans appended
    · exact appended
  rw [since, windowed_iff windowed.counted.observe suffix, observe_interval, queue, Fits]
  by_cases exceeds : s.interval < requestsIn (s.found stats) + stats.requests
  · rw [if_pos exceeds]
    cases found : s.found stats with
    | nil =>
      rw [found] at exceeds
      have asks : 0 < stats.requests := by
        simp only [requestsIn, List.map_nil, List.sum_nil] at exceeds
        omega
      have lost : newest ([] : List QueryRecord) ≠ newest (history ++ [stats.record]) := by
        rw [newest_append_nonempty _ asks]
        nofun
      have tooMany : ¬stats.requests ≤ s.interval := by
        simp only [requestsIn, List.map_nil, List.sum_nil] at exceeds
        omega
      simp [lost, tooMany]
    | cons old rest =>
      rw [found] at exceeds within kept
      simp only [List.cons_append, List.tail_cons, not_le.mpr exceeds, false_or]
      constructor
      · rintro ⟨bounded, newest_kept⟩
        refine ⟨Nat.pos_of_ne_zero fun idle => ?_, ?_⟩
        · -- the only record would be dropped for an empty one
          have single : rest = [] := by
            by_contra more
            have length := List.length_pos_iff.mpr more
            have fits := within (by rw [List.length_cons]; omega)
            omega
          rw [newest_append_empty _ idle, newest_append_empty _ idle, ← kept, single] at newest_kept
          have empty := requestsIn_eq_zero newest_kept.symm
          rw [single] at exceeds
          omega
        · by_cases single : rest = []
          · exact Or.inl single
          · have length := List.length_pos_iff.mpr single
            have fits := bounded (by rw [List.length_append, List.length_singleton]; omega)
            rw [requestsIn_append, requestsIn_record] at fits
            exact Or.inr fits
      · rintro ⟨asks, single | fits⟩
        · subst single
          exact ⟨by simp, by rw [newest_append_nonempty _ asks, newest_append_nonempty _ asks]⟩
        · refine ⟨fun _ => ?_, by rw [newest_append_nonempty _ asks, newest_append_nonempty _ asks]⟩
          rw [requestsIn_append, requestsIn_record]
          exact fits
  · rw [if_neg exceeds, newest_append_congr kept]
    have fits := Nat.le_of_not_lt exceeds
    have holds : requestsIn (s.found stats ++ [stats.record]) ≤ s.interval := by
      rw [requestsIn_append, requestsIn_record]
      exact fits
    cases found : s.found stats with
    | nil =>
      rw [found] at fits
      simpa [requestsIn] using fits
    | cons old rest =>
      rw [found] at fits holds
      exact ⟨fun _ => Or.inl fits, fun _ => ⟨fun _ => holds, rfl⟩⟩

theorem windowed_start (interval : ℕ) : Windowed { interval } [] where
  counted := ⟨rfl, rfl, rfl⟩
  rate := rfl
  recent := List.suffix_rfl
  within := by simp
  newest_kept := rfl

theorem observed_counted (interval : ℕ) (updates : List PrefixCacheStats) : (observed interval updates).Counted := by
  induction updates with
  | nil => exact ⟨rfl, rfl, rfl⟩
  | cons stats earlier ih => exact ih.observe

/-- The counters are right in every run; the metrics speak of the most recent requests in all its states exactly if
each update fits. -/
theorem windowed_iff_fits (interval : ℕ) (updates : List PrefixCacheStats) :
    (observed interval updates).Counted ∧
      ((∀ earlier, earlier <:+ updates → (observed interval earlier).Windowed (sinceReset earlier)) ↔
        ∀ stats earlier, stats :: earlier <:+ updates → (observed interval earlier).Fits stats) := by
  refine ⟨observed_counted interval updates, ?_⟩
  constructor
  · intro windowed stats earlier part
    have before := windowed earlier ((List.suffix_cons stats earlier).trans part)
    exact (windowed_observe_iff before).mp (windowed _ part)
  · intro fits earlier part
    induction earlier with
    | nil => exact windowed_start interval
    | cons stats earlier ih =>
      have before := ih ((List.suffix_cons stats earlier).trans part)
      exact (windowed_observe_iff before).mpr (fits stats earlier part)

/-- Three requests in one update leave nothing in a window of two, and after updates with one request each they leave
a window of four. -/
theorem windowed_fails :
    ¬(∀ earlier, earlier <:+ [{ requests := 3 }] → (observed 2 earlier).Windowed (sinceReset earlier)) ∧
      ¬(∀ earlier, earlier <:+ [{ requests := 3 }, { requests := 1 }, { requests := 1 }] →
        (observed 2 earlier).Windowed (sinceReset earlier)) := by
  constructor
  · intro windowed
    exact absurd (windowed _ List.suffix_rfl).newest_kept (by decide)
  · intro windowed
    exact absurd ((windowed _ List.suffix_rfl).within (by decide)) (by decide)

end PrefixCachingMetrics
end Vllm.V1
