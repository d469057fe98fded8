import VllmProofs.Base

/-!
The cache hit rate of the V0 block allocators: `CacheMetricData`, a running average over completed groups of queries
and the counts of the group in progress. Divisions are taken exactly.
-/

namespace Vllm

structure CacheMetricData where
  numCompletedBlocks : ℕ := 0
  completedBlockCacheHitRate : ℚ := 0
  numIncompletedBlockQueries : ℕ := 0
  numIncompletedBlockHit : ℕ := 0
  blockSize : ℕ := 1000

namespace CacheMetricData

def query (s : CacheMetricData) (hit : Bool) : CacheMetricData :=
  let numIncompletedBlockQueries := s.numIncompletedBlockQueries + 1
  let numIncompletedBlockHit := s.numIncompletedBlockHit + if hit then 1 else 0
  if numIncompletedBlockQueries = s.blockSize then
    let hitRate : ℚ := numIncompletedBlockHit / numIncompletedBlockQueries
    { s with
      completedBlockCacheHitRate :=
        (s.completedBlockCacheHitRate * s.numCompletedBlocks + hitRate) / (s.numCompletedBlocks + 1)
      numIncompletedBlockQueries := 0
      numIncompletedBlockHit := 0
      numCompletedBlocks := s.numCompletedBlocks + 1 }
  else { s with numIncompletedBlockQueries, numIncompletedBlockHit }

/-- `get_hit_rate`; the ratio of the group in progress is taken first, whatever the counts. -/
def getHitRate (s : CacheMetricData) : Except PyError ℚ :=
  if s.blockSize = 0 then .error .zeroDivisionError
  else
    let incompleteRatio : ℚ := s.numIncompletedBlockQueries / s.blockSize
    let totalBlocks := s.numCompletedBlocks + incompleteRatio
    if totalBlocks = 0 then .ok 0
    else
      let completedBlockHit :=
        if 0 < s.numCompletedBlocks then s.completedBlockCacheHitRate * s.numCompletedBlocks else 0
      let incompletedBlockHit :=
        if 0 < s.numIncompletedBlockQueries then
          (s.numIncompletedBlockHit / s.numIncompletedBlockQueries : ℚ) * incompleteRatio
        else 0
      .ok ((completedBlockHit + incompletedBlockHit) / totalBlocks)

/-- The calls `query(hit)`, in order. -/
def queries (s : CacheMetricData) (hits : List Bool) : CacheMetricData := hits.foldl query s

structure Records (s : CacheMetricData) (hits queries : ℕ) : Prop where
  queries_eq : s.numCompletedBlocks * s.blockSize + s.numIncompletedBlockQueries = queries
  hits_eq : s.completedBlockCacheHitRate * s.numCompletedBlocks * s.blockSize + s.numIncompletedBlockHit = hits
  hits_le : s.numIncompletedBlockHit ≤ s.numIncompletedBlockQueries

variable {s : CacheMetricData} {n m : ℕ}

theorem records_start (blockSize : ℕ) : Records { blockSize } 0 0 := ⟨by simp, by simp, le_rfl⟩

@[simp] theorem query_blockSize (hit : Bool) : (s.query hit).blockSize = s.blockSize := by
  unfold query
  dsimp only
  split <;> rfl

theorem Records.query (records : s.Records n m) (positive : 1 ≤ s.blockSize) (hit : Bool) :
    (s.query hit).Records (n + if hit then 1 else 0) (m + 1) := by
  obtain ⟨queries_eq, hits_eq, hits_le⟩ := records
  have le : s.numIncompletedBlockHit + (if hit then 1 else 0) ≤ s.numIncompletedBlockQueries + 1 := by
    split <;> omega
  unfold CacheMetricData.query
  dsimp only
  split
  · next full =>
    have size : (s.blockSize : ℚ) ≠ 0 := by exact_mod_cast (by omega : s.blockSize ≠ 0)
    have next : (s.numCompletedBlocks + 1 : ℚ) ≠ 0 := by positivity
    refine ⟨?_, ?_, le_rfl⟩
    · simp only
      rw [← queries_eq, ← full]
      ring
    · simp only
      rw [full]
      push_cast
      rw [← hits_eq]
      field_simp
      ring
  · refine ⟨?_, ?_, le⟩
    · simp only
      omega
    · simp only
      push_cast
      rw [← hits_eq]
      ring

theorem queries_records (positive : 1 ≤ s.blockSize) (records : s.Records n m) (hits : List Bool) :
    (s.queries hits).Records (n + hits.count true) (m + hits.length) ∧ (s.queries hits).blockSize = s.blockSize := by
  induction hits generalizing s n m with
  | nil => exact ⟨records, rfl⟩
  | cons hit hits ih =>
    obtain ⟨after, size⟩ := ih (s := s.query hit) (by simpa using positive) (records.query positive hit)
    refine ⟨?_, size.trans (query_blockSize hit)⟩
    have total : n + (if hit then 1 else 0) + hits.count true = n + (hit :: hits).count true := by
      cases hit <;> simp
      omega
    have length : m + 1 + hits.length = m + (hit :: hits).length := by simp; omega
    rw [total, length] at after
    exact after

theorem getHitRate_records (positive : 1 ≤ s.blockSize) (records : s.Records n m) :
    s.getHitRate = .ok (if m = 0 then 0 else (n / m : ℚ)) := by
  obtain ⟨queries_eq, hits_eq, hits_le⟩ := records
  have size : (s.blockSize : ℚ) ≠ 0 := by exact_mod_cast (by omega : s.blockSize ≠ 0)
  -- the number of groups, the last one counted by its fill
  have blocks : (s.numCompletedBlocks + s.numIncompletedBlockQueries / s.blockSize : ℚ) = m / s.blockSize := by
    rw [← queries_eq]
    push_cast
    field_simp
  have completed : (if 0 < s.numCompletedBlocks then s.completedBlockCacheHitRate * s.numCompletedBlocks else 0) =
      s.completedBlockCacheHitRate * s.numCompletedBlocks := by
    split
    · rfl
    · next none =>
      rw [Nat.eq_zero_of_not_pos none]
      simp
  have incompleted : (if 0 < s.numIncompletedBlockQueries then
      (s.numIncompletedBlockHit / s.numIncompletedBlockQueries : ℚ) *
        (s.numIncompletedBlockQueries / s.blockSize) else 0) = s.numIncompletedBlockHit / s.blockSize := by
    split
    · next some =>
      have queries : (s.numIncompletedBlockQueries : ℚ) ≠ 0 := by exact_mod_cast some.ne'
      field_simp
    · next none =>
      have no_hits : s.numIncompletedBlockHit = 0 := by omega
      simp [no_hits]
  unfold getHitRate
  rw [if_neg (by omega)]
  dsimp only
  rw [blocks, completed, incompleted]
  by_cases empty : m = 0
  · simp [empty]
  · have asked : (m : ℚ) ≠ 0 := by exact_mod_cast empty
    rw [if_neg (div_ne_zero asked size), if_neg empty, ← hits_eq]
    congr 1
    field_simp

/-- The rate is that of all queries, however they fall into groups. -/
theorem getHitRate_queries (blockSize : ℕ) (positive : 1 ≤ blockSize) (hits : List Bool) :
    (queries { blockSize } hits).getHitRate =
      .ok (if hits.length = 0 then 0 else (hits.count true / hits.length : ℚ)) := by
  obtain ⟨records, size⟩ := queries_records (s := { blockSize }) positive (records_start blockSize) hits
  rw [Nat.zero_add, Nat.zero_add] at records
  exact getHitRate_records (by rw [size]; exact positive) records

theorem getHitRate_queries_twoGroups :
    1 ≤ 2 ∧ (queries { blockSize := 2 } [true, false, true]).getHitRate =
      .ok (if [true, false, true].length = 0 then 0
        else ([true, false, true].count true / [true, false, true].length : ℚ)) :=
  ⟨by decide, getHitRate_queries 2 (by decide) [true, false, true]⟩

end CacheMetricData
end Vllm
