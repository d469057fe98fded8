import VllmProofs.V1.Conservation
import VllmProofs.V1.LockstepContract

/-!
Cascade attention reads the blocks of a common prefix once for the whole batch: these are blocks that all running
requests begin with, and whose tokens are computed for all of them.
-/

namespace Vllm.V1
open Exec

/-- `GPUModelRunner._compute_cascade_attn_prefix_len`; the attention backend decides on the length. -/
def computeCascadeAttnPrefixLen (blockSize numCommonPrefixBlocks : ℕ) (numComputedTokens : List ℕ)
    (useCascadeAttention : ℕ → Bool) : Option ℕ :=
  let commonPrefixLen := numCommonPrefixBlocks * blockSize
  if commonPrefixLen = 0 then some 0
  else do
    let least ← numComputedTokens.min?
    let commonPrefixLen := min commonPrefixLen least / blockSize * blockSize
    return if useCascadeAttention commonPrefixLen then commonPrefixLen else 0

theorem computeCascadeAttnPrefixLen_ok {blockSize n len : ℕ} {computed : List ℕ} {useCascade : ℕ → Bool}
    (computes : computeCascadeAttnPrefixLen blockSize n computed useCascade = some len) :
    blockSize ∣ len ∧ len ≤ n * blockSize ∧ ∀ c ∈ computed, len ≤ c := by
  unfold computeCascadeAttnPrefixLen at computes
  dsimp only at computes
  split at computes
  · cases computes
    exact ⟨dvd_zero _, Nat.zero_le _, fun _ _ => Nat.zero_le _⟩
  · obtain ⟨least, found, chosen⟩ := Option.bind_eq_some_iff.mp computes
    have cut := Nat.div_mul_le_self (min (n * blockSize) least) blockSize
    have below := (List.min?_eq_some_iff.mp found).2
    cases chosen
    split
    · refine ⟨Nat.dvd_mul_left _ _, by omega, fun c member => ?_⟩
      have least_le := below c member
      omega
    · exact ⟨dvd_zero _, Nat.zero_le _, fun _ _ => Nat.zero_le _⟩

namespace Scheduler

variable {s t : Scheduler} {ref ref' : RequestRef} {b : BlockId} {i j : ℕ}

def hashesAt (s : Scheduler) (ref : RequestRef) : List BlockHash :=
  s.kvCacheManager.hashesOf (s.objects ref).requestId

/-- The hashes of running requests do not collide, unless for blocks at the same place. -/
def HashesApart (s : Scheduler) : Prop :=
  ∀ ref ∈ s.running, ∀ ref' ∈ s.running, ∀ i < (s.hashesAt ref).length, ∀ j < (s.hashesAt ref').length,
    (s.hashesAt ref)[i]? = (s.hashesAt ref')[j]? → i = j

instance (s : Scheduler) : Decidable s.HashesApart :=
  inferInstanceAs (Decidable (∀ ref ∈ s.running, ∀ ref' ∈ s.running, ∀ i < (s.hashesAt ref).length,
    ∀ j < (s.hashesAt ref').length, (s.hashesAt ref)[i]? = (s.hashesAt ref')[j]? → i = j))

/-- A block with a hash is where the hash is, and one without a hash is in one place only. -/
theorem same_place (coherent : s.kvCacheManager.Coherent) (apart : s.HashesApart) (runs : ref ∈ s.running)
    (runs' : ref' ∈ s.running) (here : (s.blocksAt ref)[i]? = some b) (there : (s.blocksAt ref')[j]? = some b) :
    i = j := by
  cases hash : s.kvCacheManager.blockPool.hashOf b with
  | none => exact (KVCacheManager.held_unique (coherent.single b hash) here there).2
  | some h =>
    have first := coherent.aligned _ i b h here hash
    have second := coherent.aligned _ j b h there hash
    exact apart ref runs ref' runs' i (List.getElem?_eq_some_iff.mp first).1 j
      (List.getElem?_eq_some_iff.mp second).1 (first.trans second.symm)

theorem blocksAt_nodup (coherent : s.kvCacheManager.Coherent) (apart : s.HashesApart) (runs : ref ∈ s.running) :
    (s.blocksAt ref).Nodup := by
  rw [List.nodup_iff_getElem?_ne_getElem?]
  intro i j less inside same
  have there : (s.blocksAt ref)[j]? = some (s.blocksAt ref)[j] := List.getElem?_eq_getElem inside
  exact Nat.ne_of_lt less (same_place coherent apart runs runs (same.trans there) there)

/-- With as many holders as there are running requests, a block is held by each of them. -/
theorem Serving.listed_by_all (serving : s.Serving) (nodup : ∀ ref ∈ s.running, (s.blocksAt ref).Nodup)
    (all : (s.kvCacheManager.blockPool.block b).refCnt = s.running.length) (runs : ref ∈ s.running) :
    b ∈ s.blocksAt ref := by
  by_contra missing
  have held := serving.holding.sound.pool.refCnt b
  rw [all, serving.held, Int.natCast_inj] at held
  have fewer : (s.running.map fun ref => (s.blocksAt ref).count b).sum < (s.running.map fun _ => 1).sum := by
    refine List.sum_lt_sum _ _ (fun ref runs => List.nodup_iff_count_le_one.mp (nodup ref runs) b) ⟨ref, runs, ?_⟩
    rw [List.count_eq_zero_of_not_mem missing]
    exact Nat.one_pos
  rw [List.map_const', List.sum_replicate, smul_eq_mul, Nat.mul_one] at fewer
  omega

theorem Serving.shared {first : RequestRef} {shared : List BlockId} (serving : s.Serving)
    (coherent : s.kvCacheManager.Coherent) (apart : s.HashesApart) (runs : first ∈ s.running)
    (counted : ∀ b ∈ shared, (s.kvCacheManager.blockPool.block b).refCnt = s.running.length)
    (begins : shared <+: s.blocksAt first) (runs' : ref ∈ s.running) : shared <+: s.blocksAt ref := by
  rw [List.prefix_iff_getElem?] at begins ⊢
  intro j inside
  have listed := serving.listed_by_all (fun _ runs => blocksAt_nodup coherent apart runs)
    (counted _ (List.getElem_mem inside)) runs'
  obtain ⟨i, at_i⟩ := List.mem_iff_getElem?.mp listed
  have same := same_place coherent apart runs' runs at_i (begins j inside)
  exact same ▸ at_i

theorem numCommonPrefixBlocks_ok {n : ℕ} {u : Scheduler} (call : numCommonPrefixBlocks s = .ok n u) :
    u = s ∧ ∃ shared : List BlockId, shared.length = n ∧
      (∀ b ∈ shared, (s.kvCacheManager.blockPool.block b).refCnt = s.running.length) ∧
      ∀ first, s.running.head? = some first → shared <+: s.blocksAt first := by
  unfold numCommonPrefixBlocks at call
  rw [get_bind] at call
  cases queue : s.running.head? with
  | none =>
    rw [queue] at call
    cases call
    exact ⟨rfl, [], rfl, by simp, nofun⟩
  | some first =>
    rw [queue] at call
    obtain ⟨manager, inner, rfl⟩ := zoom_ok call
    obtain ⟨_, _, checked, inner⟩ := bind_ok inner
    obtain ⟨-, rfl⟩ := check_ok checked
    cases inner
    refine ⟨rfl, _, rfl, fun b member => ?_, fun first' same => ?_⟩
    · simpa using List.mem_takeWhile_imp member
    · cases same
      exact List.takeWhile_prefix _

theorem schedule_commonPrefix [TupleHash] {out : SchedulerOutput} (call : schedule s = .ok out t) :
    ∃ shared : List BlockId, shared.length = out.numCommonPrefixBlocks ∧
      (∀ b ∈ shared, (t.kvCacheManager.blockPool.block b).refCnt = t.running.length) ∧
      ∀ first, t.running.head? = some first → shared <+: t.blocksAt first := by
  unfold schedule at call
  rw [get_bind] at call
  obtain ⟨_, _, -, call⟩ := bind_ok call
  obtain ⟨_, _, -, call⟩ := bind_ok call
  obtain ⟨_, _, -, call⟩ := bind_ok call
  rw [modify_bind] at call
  obtain ⟨_, v, -, call⟩ := bind_ok call
  obtain ⟨n, u, counted, left⟩ := bind_ok call
  obtain ⟨rfl, shared⟩ := numCommonPrefixBlocks_ok counted
  cases left
  exact shared

end Scheduler

namespace Pipeline

section
variable [TupleHash] {config : SchedulerConfig} {history : List PipelineEvent} {e : Pipeline}

abbrev ReachesCovered (config : SchedulerConfig) (history : List PipelineEvent) (e : Pipeline) : Prop :=
  Run (fun e event e' => e.step event = some e' ∧ (event = .schedule → e.scheduler.CoversDrafts)) (start config) history e

theorem hashing (reached : ReachesCovered config history e) : e.scheduler.Hashing := by
  induction reached with
  | start => exact Scheduler.hashing_init config
  | call before stepped ih =>
    have serves := serving (before.mono fun _ _ _ stepped => stepped.1)
    rcases step_cases stepped.1 with ⟨rfl, out, t, call, rfl⟩ | ⟨-, between⟩
    · exact ih.schedule serves (stepped.2 rfl) call
    · exact ih.between serves between

/-- The common prefix of a batch consists of blocks that all running requests begin with; cascade attention
reads whole blocks of it, with no token that is not computed for some request. -/
theorem commonPrefix_shared {out : SchedulerOutput} {t : Scheduler} {computed : List ℕ} {useCascade : ℕ → Bool}
    {len : ℕ} (reached : ReachesCovered config history e) (covers : e.scheduler.CoversDrafts)
    (call : Scheduler.schedule e.scheduler = .ok out t) (apart : t.HashesApart)
    (computes : computeCascadeAttnPrefixLen t.blockSize out.numCommonPrefixBlocks computed useCascade = some len) :
    (∃ shared : List BlockId, shared.length = out.numCommonPrefixBlocks ∧ ∀ ref ∈ t.running, shared <+: t.blocksAt ref) ∧
      t.blockSize ∣ len ∧ len ≤ out.numCommonPrefixBlocks * t.blockSize ∧ ∀ c ∈ computed, len ≤ c := by
  refine ⟨?_, computeCascadeAttnPrefixLen_ok computes⟩
  have serves := serving (reached.mono fun _ _ _ stepped => stepped.1)
  have coherent := ((hashing reached).schedule serves covers call).coherent
  obtain ⟨shared, length, counted, begins⟩ := Scheduler.schedule_commonPrefix call
  refine ⟨shared, length, fun ref runs => ?_⟩
  cases queue : t.running with
  | nil =>
    rw [queue] at runs
    cases runs
  | cons first rest =>
    have head : first ∈ t.running := queue ▸ List.mem_cons_self
    exact (serves.schedule call).shared coherent apart head counted (begins first (by rw [queue]; rfl)) runs

end

section
attribute [local instance] sumHash
open Lockstep (manyDrafts draftedRequest)

def samePrompt : Pipeline :=
  { scheduler := ((Scheduler.init manyDrafts).addRequest (draftedRequest 0 [1, 2, 3, 4, 5])).addRequest
      (draftedRequest 1 [1, 2, 3, 4, 5]) }

/-- The second request finds the first block of the first one in the cache. -/
theorem commonPrefix_shared_samePrompt : ∃ out t, Scheduler.schedule samePrompt.scheduler = .ok out t ∧
    t.running = [0, 1] ∧ ∃ shared : List BlockId, shared.length = 1 ∧ ∀ ref ∈ t.running, shared <+: t.blocksAt ref := by
  have reached : ReachesCovered manyDrafts [.add (draftedRequest 1 [1, 2, 3, 4, 5]),
      .add (draftedRequest 0 [1, 2, 3, 4, 5])] samePrompt :=
    .call (.call .start ⟨step_add rfl (by decide), nofun⟩) ⟨step_add rfl (by decide), nofun⟩
  have covers := Scheduler.coversDrafts_of_few (s := samePrompt.scheduler)
    (serving (reached.mono fun _ _ _ stepped => stepped.1)) (by decide +kernel)
  have ran : ∃ out ∈ result? Scheduler.schedule samePrompt.scheduler,
      ∃ t ∈ next? Scheduler.schedule samePrompt.scheduler,
      out.numCommonPrefixBlocks = 1 ∧ t.HashesApart ∧ t.running = [0, 1] := by decide +kernel
  obtain ⟨out, given, t, left, one, apart, running⟩ := ran
  obtain ⟨u, call⟩ := result?_eq_some.mp given
  obtain ⟨_, call'⟩ := next?_eq_some.mp left
  cases call.symm.trans call'
  have computes : ∃ len, computeCascadeAttnPrefixLen t.blockSize out.numCommonPrefixBlocks [0, 4]
      (fun _ => true) = some len := by
    unfold computeCascadeAttnPrefixLen
    dsimp only
    split <;> exact ⟨_, rfl⟩
  obtain ⟨len, computes⟩ := computes
  exact ⟨out, t, call, running, one ▸ (commonPrefix_shared reached covers call apart computes).1⟩

end

end Pipeline
end Vllm.V1
