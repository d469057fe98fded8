import VllmProofs.V1.BlockHash

/-!
The chunks in which MLA attends to the context of its prefills, `vllm/v1/attention/backends/mla/common.py`. A
chunk gives every prefill the same share of a workspace; the shares of one chunk fit the workspace together.
-/

namespace Vllm.V1

def roundDown (x y : ℕ) : ℕ := x / y * y

def tensorMax (xs : List ℕ) : ℕ := xs.foldr max 0

/-- The settings the workspace is computed from, with chunked prefill enabled. -/
structure MLAConfig where
  maxModelLen : ℕ
  maxNumSeqs : ℕ
  blockSize : ℕ
  blockSize_pos : 0 < blockSize

def MLAConfig.workspaceSize (config : MLAConfig) : ℕ :=
  min (max (8 * config.maxModelLen) (4 * config.maxNumSeqs * config.blockSize)) (128 * 1024)

structure MLAChunkedPrefill where
  chunkedPrefillWorkspaceSize : ℕ
  pageSize : ℕ

structure ChunkedContextMetadata where
  cuSeqLens : List (List ℕ)
  starts : List (List ℕ)
  seqTot : List ℕ
  maxSeqLens : List ℕ

namespace MLAChunkedPrefill

def init (config : MLAConfig) : Except PyError MLAChunkedPrefill :=
  if config.maxNumSeqs * config.blockSize ≤ config.workspaceSize then
    .ok { chunkedPrefillWorkspaceSize := config.workspaceSize, pageSize := config.blockSize }
  else .error .assertionError

def maxContextChunk (s : MLAChunkedPrefill) (contextLens : List ℕ) : ℕ :=
  let numPrefillsWithContext := contextLens.countP (0 < ·)
  roundDown (s.chunkedPrefillWorkspaceSize / numPrefillsWithContext) s.pageSize

def chunkSeqLens (contextLens : List ℕ) (chunkStarts : List (List ℕ)) (maxContextChunk : ℕ) : List (List ℕ) :=
  chunkStarts.map fun starts => List.zipWith (fun (contextLen start : ℕ) =>
    ((min contextLen (start + maxContextChunk) : ℤ) - start).toNat) contextLens starts

/-- The part of `build` about the context of the prefills. -/
def chunkedContext (s : MLAChunkedPrefill) (contextLens : List ℕ) :
    Except PyError (Option ChunkedContextMetadata) :=
  if tensorMax contextLens = 0 then .ok none
  else
    let chunk := s.maxContextChunk contextLens
    if chunk = 0 then .error .assertionError
    else
      let numChunks := cdiv (tensorMax contextLens) chunk
      let chunkStarts := (List.range numChunks).map fun i => List.replicate contextLens.length (i * chunk)
      let seqLens := chunkSeqLens contextLens chunkStarts chunk
      let maxSeqLens := seqLens.map tensorMax
      if tensorMax maxSeqLens ≤ s.chunkedPrefillWorkspaceSize then .ok (some {
        cuSeqLens := seqLens.map fun lens => lens.scanl (· + ·) 0
        starts := chunkStarts
        seqTot := seqLens.map List.sum
        maxSeqLens })
      else .error .assertionError

end MLAChunkedPrefill

/-- The chunks of one prefill, each with its start and its length. -/
def ChunkedContextMetadata.chunksOf (metadata : ChunkedContextMetadata) (row : ℕ) : List (ℕ × ℕ) :=
  List.zipWith (fun starts cuSeqLens =>
    (starts.getD row 0, cuSeqLens.getD (row + 1) 0 - cuSeqLens.getD row 0)) metadata.starts metadata.cuSeqLens

/-- The chunks lie on page boundaries and list the positions below `contextLen` in order, each once. -/
structure Splits (pageSize contextLen : ℕ) (chunks : List (ℕ × ℕ)) : Prop where
  aligned : ∀ chunk ∈ chunks, pageSize ∣ chunk.1
  covers : chunks.flatMap (fun chunk => List.range' chunk.1 chunk.2) = List.range contextLen

variable {xs contextLens : List ℕ} {n c i row chunk start len : ℕ}

theorem le_tensorMax (member : c ∈ xs) : c ≤ tensorMax xs := by
  induction xs with
  | nil => cases member
  | cons x rest ih =>
    show c ≤ max x (tensorMax rest)
    rcases List.mem_cons.mp member with rfl | later
    · exact Nat.le_max_left _ _
    · have := ih later
      omega

theorem tensorMax_le (bound : ∀ c ∈ xs, c ≤ n) : tensorMax xs ≤ n := by
  induction xs with
  | nil => exact Nat.zero_le n
  | cons x rest ih =>
    show max x (tensorMax rest) ≤ n
    have here := bound x List.mem_cons_self
    have later := ih fun c member => bound c (List.mem_cons_of_mem x member)
    omega

theorem tensorMax_eq_zero : tensorMax xs = 0 ↔ ∀ c ∈ xs, c = 0 := by
  constructor
  · intro zero c member
    have := le_tensorMax member
    omega
  · intro zeros
    have := tensorMax_le (n := 0) fun c member => (zeros c member).le
    omega

theorem le_cdiv_mul (positive : 0 < c) : n ≤ cdiv n c * c := by
  have below : (n + c - 1) < c * ((n + c - 1) / c + 1) := Nat.lt_mul_div_succ _ positive
  rw [Nat.mul_add, Nat.mul_one, Nat.mul_comm] at below
  unfold cdiv
  omega

theorem roundDown_le (x y : ℕ) : roundDown x y ≤ x := Nat.div_mul_le_self x y

/-- The chunks up to the `n`-th list the positions below the end of the `n`-th. -/
theorem flatMap_chunks (len chunk n : ℕ) :
    ((List.range n).flatMap fun i => List.range' (i * chunk) (min (len - i * chunk) chunk)) =
      List.range (min len (n * chunk)) := by
  induction n with
  | zero => simp
  | succ n ih =>
    rw [List.range_succ, List.flatMap_append, ih, List.flatMap_singleton, Nat.succ_mul]
    rcases Nat.le_total len (n * chunk) with past | more
    · have none_ : min (len - n * chunk) chunk = 0 := by omega
      rw [none_, List.range'_zero, List.append_nil]
      congr 1
      omega
    · have joined := List.range'_append_1 (s := 0) (m := n * chunk) (n := min (len - n * chunk) chunk)
      rw [Nat.zero_add] at joined
      rw [Nat.min_eq_right more, List.range_eq_range', List.range_eq_range', joined]
      congr 1
      omega

theorem getD_scanl_sub (xs : List ℕ) (start row : ℕ) (inside : row < xs.length) :
    (xs.scanl (· + ·) start).getD (row + 1) 0 - (xs.scanl (· + ·) start).getD row 0 = xs.getD row 0 := by
  induction xs generalizing start row with
  | nil => cases inside
  | cons x rest ih =>
    cases row with
    | zero => simp
    | succ row => simpa using ih (start + x) row (by simpa using inside)

theorem sum_map_le (xs : List ℕ) (f : ℕ → ℕ) (zero : f 0 = 0) (bound : ∀ x, f x ≤ chunk) :
    (xs.map f).sum ≤ xs.countP (0 < ·) * chunk := by
  induction xs with
  | nil => simp
  | cons x rest ih =>
    rw [List.map_cons, List.sum_cons]
    by_cases positive : 0 < x
    · rw [List.countP_cons_of_pos (by simpa using positive), Nat.succ_mul]
      have := bound x
      omega
    · obtain rfl : x = 0 := by omega
      rw [List.countP_cons_of_neg (by simp), zero]
      omega

namespace MLAChunkedPrefill

variable {s : MLAChunkedPrefill}

theorem chunkSeqLens_eq (contextLens : List ℕ) (n chunk : ℕ) :
    chunkSeqLens contextLens ((List.range n).map fun i => List.replicate contextLens.length (i * chunk)) chunk =
      (List.range n).map fun i => contextLens.map fun len => min (len - i * chunk) chunk := by
  unfold chunkSeqLens
  rw [List.map_map]
  apply List.map_congr_left
  intro i _
  apply List.ext_getElem
  · simp
  · intro row _ _
    simp only [Function.comp_apply, List.getElem_zipWith, List.getElem_map, List.getElem_replicate]
    omega

theorem chunk_le (s : MLAChunkedPrefill) (contextLens : List ℕ) :
    contextLens.countP (0 < ·) * s.maxContextChunk contextLens ≤ s.chunkedPrefillWorkspaceSize := by
  unfold maxContextChunk
  calc contextLens.countP (0 < ·) * roundDown (s.chunkedPrefillWorkspaceSize / contextLens.countP (0 < ·)) s.pageSize
      ≤ contextLens.countP (0 < ·) * (s.chunkedPrefillWorkspaceSize / contextLens.countP (0 < ·)) :=
        Nat.mul_le_mul_left _ (roundDown_le _ _)
    _ ≤ s.chunkedPrefillWorkspaceSize := Nat.mul_div_le _ _

theorem chunk_pos (page : 0 < s.pageSize) (room : contextLens.length * s.pageSize ≤ s.chunkedPrefillWorkspaceSize)
    (context : tensorMax contextLens ≠ 0) : 0 < s.maxContextChunk contextLens := by
  have some_ : 0 < contextLens.countP (0 < ·) := by
    apply List.countP_pos_iff.mpr
    by_contra none_
    apply context
    apply tensorMax_eq_zero.mpr
    intro c member
    by_contra positive
    exact none_ ⟨c, member, by simpa using Nat.pos_of_ne_zero positive⟩
  have pages : s.pageSize ≤ s.chunkedPrefillWorkspaceSize / contextLens.countP (0 < ·) := by
    apply (Nat.le_div_iff_mul_le some_).mpr
    calc s.pageSize * contextLens.countP (0 < ·) ≤ s.pageSize * contextLens.length :=
          Nat.mul_le_mul_left _ List.countP_le_length
      _ = contextLens.length * s.pageSize := Nat.mul_comm _ _
      _ ≤ s.chunkedPrefillWorkspaceSize := room
  exact Nat.mul_pos (Nat.div_pos pages page) page

theorem splits_chunks {metadata : ChunkedContextMetadata} (positive : 0 < chunk) (aligned : s.pageSize ∣ chunk)
    (starts : metadata.starts = (List.range (cdiv (tensorMax contextLens) chunk)).map fun i =>
      List.replicate contextLens.length (i * chunk))
    (cuSeqLens : metadata.cuSeqLens = (List.range (cdiv (tensorMax contextLens) chunk)).map fun i =>
      (contextLens.map fun len => min (len - i * chunk) chunk).scanl (· + ·) 0)
    (inside : row < contextLens.length) : Splits s.pageSize contextLens[row] (metadata.chunksOf row) := by
  have chunks : metadata.chunksOf row = (List.range (cdiv (tensorMax contextLens) chunk)).map fun i =>
      (i * chunk, min (contextLens[row] - i * chunk) chunk) := by
    unfold ChunkedContextMetadata.chunksOf
    rw [starts, cuSeqLens, List.zipWith_map, List.zipWith_self]
    apply List.map_congr_left
    intro i _
    rw [getD_scanl_sub _ 0 row (by simpa using inside)]
    simp [List.getD_eq_getElem?_getD, inside]
  rw [chunks]
  constructor
  · intro item member
    obtain ⟨i, -, rfl⟩ := List.mem_map.mp member
    exact Dvd.dvd.mul_left aligned i
  · rw [List.flatMap_map]
    show ((List.range _).flatMap fun i => List.range' (i * chunk) (min (contextLens[row] - i * chunk) chunk)) = _
    rw [flatMap_chunks]
    congr 1
    have most := le_tensorMax (List.getElem_mem inside)
    have far := le_cdiv_mul (n := tensorMax contextLens) positive
    omega

/-- A batch of at most `max_num_seqs` prefills, some with context, is split; one without any needs no chunks. -/
theorem context_splits {config : MLAConfig} (built : init config = .ok s)
    (rows : contextLens.length ≤ config.maxNumSeqs) :
    (tensorMax contextLens = 0 → s.chunkedContext contextLens = .ok none) ∧
      (tensorMax contextLens ≠ 0 → 0 < s.maxContextChunk contextLens ∧
        ∃ metadata, s.chunkedContext contextLens = .ok (some metadata) ∧
          (∀ row (inside : row < contextLens.length), Splits s.pageSize contextLens[row] (metadata.chunksOf row)) ∧
          ∀ total ∈ metadata.seqTot, total ≤ s.chunkedPrefillWorkspaceSize) := by
  unfold init at built
  split at built
  · rename_i fits
    cases built
    refine ⟨fun none_ => if_pos none_, fun context => ?_⟩
    have room : contextLens.length * config.blockSize ≤ config.workspaceSize :=
      (Nat.mul_le_mul_right _ rows).trans fits
    generalize made : ({ chunkedPrefillWorkspaceSize := config.workspaceSize, pageSize := config.blockSize } :
      MLAChunkedPrefill) = s
    have positive : 0 < s.maxContextChunk contextLens := by
      subst made
      exact chunk_pos config.blockSize_pos room context
    refine ⟨positive, ?_⟩
    have within := s.chunk_le contextLens
    unfold chunkedContext
    rw [if_neg context]
    dsimp only
    rw [if_neg (by omega), chunkSeqLens_eq]
    have total : ∀ i, (contextLens.map fun len => min (len - i * s.maxContextChunk contextLens)
        (s.maxContextChunk contextLens)).sum ≤ s.chunkedPrefillWorkspaceSize := by
      intro i
      apply (sum_map_le contextLens _ (by simp) fun _ => Nat.min_le_right _ _).trans within
    rw [if_pos]
    · refine ⟨_, rfl, fun row inside => ?_, ?_⟩
      · exact splits_chunks positive (Dvd.intro_left _ rfl) rfl (by rw [List.map_map]; rfl) inside
      · intro sum member
        obtain ⟨_, listed, rfl⟩ := List.mem_map.mp member
        obtain ⟨i, -, rfl⟩ := List.mem_map.mp listed
        exact total i
    · -- the longest share of a chunk is at most the chunk's total
      apply tensorMax_le
      intro most member
      obtain ⟨_, listed, rfl⟩ := List.mem_map.mp member
      obtain ⟨i, -, rfl⟩ := List.mem_map.mp listed
      apply tensorMax_le
      intro share listed
      exact (List.le_sum_of_mem listed).trans (total i)
  · cases built

/-- Settings whose workspace holds 32768 tokens. -/
def smallConfig : MLAConfig where
  maxModelLen := 4096
  maxNumSeqs := 64
  blockSize := 16
  blockSize_pos := by decide

theorem context_splits_small : ∃ s, init smallConfig = .ok s ∧ 0 < s.maxContextChunk [4000, 0, 17] ∧
    ∃ metadata, s.chunkedContext [4000, 0, 17] = .ok (some metadata) ∧
      Splits s.pageSize 4000 (metadata.chunksOf 0) ∧ ∀ total ∈ metadata.seqTot, total ≤ s.chunkedPrefillWorkspaceSize := by
  have built : init smallConfig = .ok { chunkedPrefillWorkspaceSize := 32768, pageSize := 16 } := by rfl
  obtain ⟨positive, metadata, made, splits, fits⟩ :=
    (context_splits built (show [4000, 0, 17].length ≤ smallConfig.maxNumSeqs by decide)).2 (by decide)
  exact ⟨_, built, positive, metadata, made, splits 0 (by decide), fits⟩

end MLAChunkedPrefill
end Vllm.V1
