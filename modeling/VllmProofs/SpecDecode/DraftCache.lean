import VllmProofs.SpecDecode.Worker

/-!
The key-value cache of the draft model. An entry is given by the token it was computed from, and kept
by sequence and position: without prefix caching no two sequences share a block.
-/

namespace Vllm.SpecDecode

/-- The entries of one sequence. -/
abbrev Entries := ℕ → Option TokenId

abbrev KVCache := SeqId → Entries

-- One forward pass

def SequenceGroupMetadata.seqLen (group : SequenceGroupMetadata) : ℕ :=
  if group.isPrompt then min group.tokenIds.length (group.numComputedTokens + group.tokenChunkSize)
  else group.tokenIds.length

/-- The input tokens of a group are the ones from `context_len` to `seq_len`. -/
def SequenceGroupMetadata.write (group : SequenceGroupMetadata) (entries : Entries) : Entries := fun p =>
  if group.numComputedTokens ≤ p ∧ p < group.seqLen then group.tokenIds[p]? else entries p

def forwardPass (groups : List SequenceGroupMetadata) (cache : KVCache) : KVCache :=
  groups.foldl (fun cache group =>
    Function.update cache group.seqId (group.write (cache group.seqId))) cache

-- Several passes in a row

/-- The last token of the next group that is not a copy: what a copy is continued with. -/
def bonusTokenOfNext : List DraftGroup → TokenId
  | [] => 0
  | draft :: rest =>
    if draft.withoutBonus then bonusTokenOfNext rest else draft.group.tokenIds.getLastD 0

def appendNewTokens (sampled : SeqId → TokenId) : List DraftGroup → List DraftGroup
  | [] => []
  | draft :: rest =>
    let tokenId := if draft.withoutBonus then bonusTokenOfNext rest else sampled draft.group.seqId
    { draft with
      group := { draft.group with
        isPrompt := false
        tokenIds := draft.group.tokenIds ++ [tokenId]
        numComputedTokens := draft.group.numComputedTokens + 1 } } :: appendNewTokens sampled rest

/-- The loop of `sampler_output`, from pass `i` on. -/
def sampleLoop (drafts : SeqId → List TokenId) : ℕ → ℕ → List DraftGroup → KVCache → KVCache
  | _, 0, _, cache => cache
  | i, n + 1, groups, cache =>
    sampleLoop drafts (i + 1) n (appendNewTokens (fun seqId => (drafts seqId).getD i 0) groups)
      (forwardPass (groups.map (·.group)) cache)

/-- The caches of the draft model on the device and on the host. `leaving` are the contents of the
blocks that a step swaps out: they can be overwritten from the first pass on. -/
structure DraftCache where
  gpu : KVCache := fun _ _ => none
  cpu : KVCache := fun _ _ => none
  leaving : KVCache := fun _ _ => none

namespace DraftCache

/-- Swapped sequences get new blocks, with unknown contents. -/
def startStep (request : ExecuteModelRequest) (c : DraftCache) : DraftCache where
  gpu := fun seqId =>
    if seqId ∈ request.blocksToSwapIn ∨ seqId ∈ request.blocksToSwapOut then fun _ => none
    else c.gpu seqId
  cpu := c.cpu
  leaving := c.gpu

/-- A pass over a batch of a request swaps blocks first, one of several passes does not swap. -/
def call (drafts : SeqId → List TokenId) (c : DraftCache) : DraftCall → DraftCache
  | .executeModel request =>
    { gpu := forwardPass request.seqGroupMetadataList fun seqId =>
        if seqId ∈ request.blocksToSwapIn then c.cpu seqId else c.gpu seqId
      cpu := fun seqId => if seqId ∈ request.blocksToSwapOut then c.leaving seqId else c.cpu seqId }
  | .samplerOutput groups sampleLen _ =>
    { gpu := sampleLoop drafts 0 sampleLen groups c.gpu
      cpu := c.cpu }

end DraftCache

variable {seqId : SeqId}

-- What a pass writes

theorem foldl_update_other {α : Type} {key : α → SeqId} {f : α → Entries → Entries} {xs : List α} (absent : seqId ∉ xs.map key) (cache : KVCache) :
    (xs.foldl (fun cache x => Function.update cache (key x) (f x (cache (key x)))) cache) seqId =
      cache seqId := by
  induction xs generalizing cache with
  | nil => rfl
  | cons x xs ih =>
    rw [List.map_cons, List.mem_cons, not_or] at absent
    rw [List.foldl_cons, ih absent.2, Function.update_of_ne absent.1]

theorem foldl_update_own {α : Type} {key : α → SeqId} {f : α → Entries → Entries} {xs : List α}
    (distinct : (xs.map key).Nodup) {x : α} (mem : x ∈ xs) (cache : KVCache) :
    (xs.foldl (fun cache x => Function.update cache (key x) (f x (cache (key x)))) cache) (key x) =
      f x (cache (key x)) := by
  induction xs generalizing cache with
  | nil => simp at mem
  | cons head rest ih =>
    rw [List.map_cons, List.nodup_cons] at distinct
    rw [List.foldl_cons]
    rcases List.mem_cons.mp mem with rfl | mem
    · rw [foldl_update_other distinct.1, Function.update_self]
    · have other : key x ≠ key head := by
        intro same
        exact distinct.1 (same ▸ List.mem_map_of_mem mem)
      rw [ih distinct.2 mem, Function.update_of_ne other]

variable {groups : List SequenceGroupMetadata}

theorem forwardPass_other (absent : seqId ∉ getAllSeqIds groups) (cache : KVCache) :
    forwardPass groups cache seqId = cache seqId :=
  foldl_update_other absent cache

variable {group : SequenceGroupMetadata}

theorem forwardPass_own (distinct : (getAllSeqIds groups).Nodup) (mem : group ∈ groups) (cache : KVCache) :
    forwardPass groups cache group.seqId = group.write (cache group.seqId) :=
  foldl_update_own distinct mem cache

theorem write_write (group : SequenceGroupMetadata) (entries : Entries) :
    group.write (group.write entries) = group.write entries := by
  funext p
  by_cases inside : group.numComputedTokens ≤ p ∧ p < group.seqLen
  · simp [SequenceGroupMetadata.write, inside]
  · simp [SequenceGroupMetadata.write, inside]

variable {n : ℕ}

-- What the loop writes

section Loop
variable (bonus : Finset SeqId) (drafts : SeqId → List TokenId)

/-- A group after `i` passes, and its copy: they hold the sequence up to the token that they write. -/
def originalAt (i : ℕ) (group : SequenceGroupMetadata) : SequenceGroupMetadata :=
  { group with
    isPrompt := false
    tokenIds := (group.tokenIds ++ drafts group.seqId).take (group.tokenIds.length + i)
    numComputedTokens := group.numComputedTokens + i }

def copyAt (i : ℕ) (group : SequenceGroupMetadata) : SequenceGroupMetadata :=
  { group with
    isPrompt := false
    tokenIds := (group.tokenIds ++ drafts group.seqId).take (group.tokenIds.length - 1 + i)
    numComputedTokens := group.numComputedTokens - 1 + i }

def stage (i : ℕ) (groups : List SequenceGroupMetadata) : List DraftGroup :=
  groups.flatMap fun group =>
    if group.seqId ∈ bonus then
      [{ group := copyAt drafts i group, withoutBonus := true },
        { group := originalAt drafts i group, withoutBonus := false }]
    else [{ group := originalAt drafts i group, withoutBonus := false }]

structure Decoding (group : SequenceGroupMetadata) : Prop where
  decode : group.isPrompt = false
  computed : group.numComputedTokens + 1 = group.tokenIds.length
  long : 2 ≤ group.tokenIds.length

theorem expandGroups_eq_stage
    (decoding : ∀ group ∈ groups, Decoding group) : expandGroups bonus groups = stage bonus drafts 0 groups := by
  apply List.flatMap_congr
  intro group mem
  have original : originalAt drafts 0 group = group := by
    have decode := (decoding group mem).decode
    obtain ⟨_, _, _, _, _, _, _, _, _⟩ := group
    simp only at decode
    simp [originalAt, decode]
  have copy : copyAt drafts 0 group = copySeqMetadataExcludingLastToken group := by
    have decode := (decoding group mem).decode
    obtain ⟨_, _, _, _, _, _, _, _, _⟩ := group
    simp only at decode
    simp [copyAt, copySeqMetadataExcludingLastToken, decode, List.dropLast_eq_take,
      List.take_append_of_le_length]
  rw [original, copy]

variable {bonus drafts}

theorem stage_cons_marked (i : ℕ) (rest : List SequenceGroupMetadata)
    (marked : group.seqId ∈ bonus) :
    stage bonus drafts i (group :: rest) =
      { group := copyAt drafts i group, withoutBonus := true } ::
        { group := originalAt drafts i group, withoutBonus := false } :: stage bonus drafts i rest := by
  simp [stage, marked]

theorem stage_cons_unmarked (i : ℕ)
    (rest : List SequenceGroupMetadata) (unmarked : group.seqId ∉ bonus) :
    stage bonus drafts i (group :: rest) =
      { group := originalAt drafts i group, withoutBonus := false } :: stage bonus drafts i rest := by
  simp [stage, unmarked]

section Next
variable {group : SequenceGroupMetadata} {i : ℕ}

/-- The token at position `n` of the sequence, be it its own or a draft token. -/
theorem originalAt_succ (more : i < (drafts group.seqId).length) : { originalAt drafts i group with
      isPrompt := false
      tokenIds := (originalAt drafts i group).tokenIds ++ [(drafts group.seqId).getD i 0]
      numComputedTokens := (originalAt drafts i group).numComputedTokens + 1 } =
      originalAt drafts (i + 1) group := by
  have inside : group.tokenIds.length + i < (group.tokenIds ++ drafts group.seqId).length := by
    rw [List.length_append]
    omega
  have token : (drafts group.seqId).getD i 0 =
      (group.tokenIds ++ drafts group.seqId)[group.tokenIds.length + i] := by
    rw [List.getD_eq_getElem _ _ more, List.getElem_append_right (by omega)]
    simp
  simp only [originalAt, token, ← List.take_succ_eq_append_getElem inside]
  rfl

theorem getLastD_originalAt (decoding : Decoding group) (more : i < (drafts group.seqId).length) :
    (originalAt drafts i group).tokenIds.getLastD 0 =
      (group.tokenIds ++ drafts group.seqId).getD (group.tokenIds.length - 1 + i) 0 := by
  have long := decoding.long
  have length : ((group.tokenIds ++ drafts group.seqId).take (group.tokenIds.length + i)).length =
      group.tokenIds.length + i := by
    rw [List.length_take, List.length_append]
    omega
  have last : group.tokenIds.length + i - 1 = group.tokenIds.length - 1 + i := by omega
  rw [originalAt, List.getLastD_eq_getLast?, List.getLast?_eq_getElem?, length,
    List.getElem?_take_of_lt (by omega), last, List.getD_eq_getElem?_getD]

theorem copyAt_succ (decoding : Decoding group) (more : i < (drafts group.seqId).length) :
    { copyAt drafts i group with
      isPrompt := false
      tokenIds := (copyAt drafts i group).tokenIds ++ [(originalAt drafts i group).tokenIds.getLastD 0]
      numComputedTokens := (copyAt drafts i group).numComputedTokens + 1 } =
      copyAt drafts (i + 1) group := by
  have long := decoding.long
  have inside : group.tokenIds.length - 1 + i < (group.tokenIds ++ drafts group.seqId).length := by
    rw [List.length_append]
    omega
  simp only [getLastD_originalAt decoding more, List.getD_eq_getElem _ _ inside, copyAt,
    ← List.take_succ_eq_append_getElem inside]
  rfl

end Next

variable {i : ℕ}

theorem appendNewTokens_stage (decoding : ∀ group ∈ groups, Decoding group)
    (drafted : ∀ group ∈ groups, i < (drafts group.seqId).length) :
    appendNewTokens (fun seqId => (drafts seqId).getD i 0) (stage bonus drafts i groups) =
      stage bonus drafts (i + 1) groups := by
  induction groups with
  | nil => rfl
  | cons group rest ih =>
    have own := decoding group List.mem_cons_self
    have more := drafted group List.mem_cons_self
    have later := ih (fun g mem => decoding g (List.mem_cons_of_mem _ mem))
      (fun g mem => drafted g (List.mem_cons_of_mem _ mem))
    by_cases marked : group.seqId ∈ bonus
    · rw [stage_cons_marked i rest marked, stage_cons_marked (i + 1) rest marked, appendNewTokens,
        appendNewTokens, later, ← copyAt_succ own more, ← originalAt_succ more]
      simp [bonusTokenOfNext, originalAt]
    · rw [stage_cons_unmarked i rest marked, stage_cons_unmarked (i + 1) rest marked, appendNewTokens,
        later, ← originalAt_succ more]
      simp [originalAt]

/-- What a pass does to the entries of a sequence: its copy writes, then it does. -/
def stageWrite (bonus : Finset SeqId) (drafts : SeqId → List TokenId) (i : ℕ)
    (group : SequenceGroupMetadata) (entries : Entries) : Entries :=
  (originalAt drafts i group).write
    (if group.seqId ∈ bonus then (copyAt drafts i group).write entries else entries)

theorem forwardPass_stage (i : ℕ) (groups : List SequenceGroupMetadata) (cache : KVCache) :
    forwardPass ((stage bonus drafts i groups).map (·.group)) cache =
      groups.foldl (fun cache group =>
        Function.update cache group.seqId (stageWrite bonus drafts i group (cache group.seqId)))
        cache := by
  induction groups generalizing cache with
  | nil => rfl
  | cons group rest ih =>
    rw [List.foldl_cons, ← ih]
    by_cases marked : group.seqId ∈ bonus
    · rw [stage_cons_marked i rest marked]
      simp [forwardPass, stageWrite, marked, originalAt, copyAt]
    · rw [stage_cons_unmarked i rest marked]
      simp [forwardPass, stageWrite, marked, originalAt]

theorem getElem?_take_append {tokens more : List TokenId} {p : ℕ} (inside : p < n) :
    ((tokens ++ more).take n)[p]? = (tokens ++ more)[p]? :=
  List.getElem?_take_of_lt inside

/-- A pass writes the last token of the group, and the one before it where there is a copy. -/
theorem stageWrite_eq (decoding : Decoding group)
    (more : i < (drafts group.seqId).length) (entries : Entries) (p : ℕ) :
    stageWrite bonus drafts i group entries p =
      if group.tokenIds.length + i ≤ p + (if group.seqId ∈ bonus then 2 else 1) ∧
          p < group.tokenIds.length + i then
        (group.tokenIds ++ drafts group.seqId)[p]?
      else entries p := by
  have computed := decoding.computed
  have long := decoding.long
  have originalLen : (originalAt drafts i group).seqLen = group.tokenIds.length + i := by
    simp only [SequenceGroupMetadata.seqLen, originalAt, Bool.false_eq_true, if_false,
      List.length_take, List.length_append]
    omega
  have copyLen : (copyAt drafts i group).seqLen = group.tokenIds.length - 1 + i := by
    simp only [SequenceGroupMetadata.seqLen, copyAt, Bool.false_eq_true, if_false,
      List.length_take, List.length_append]
    omega
  have originalStart : (originalAt drafts i group).numComputedTokens =
      group.tokenIds.length - 1 + i := by
    simp only [originalAt]
    omega
  have copyStart : (copyAt drafts i group).numComputedTokens = group.tokenIds.length - 2 + i := by
    simp only [copyAt]
    omega
  simp only [stageWrite, SequenceGroupMetadata.write, originalLen, originalStart]
  by_cases last : group.tokenIds.length - 1 + i ≤ p ∧ p < group.tokenIds.length + i
  · rw [if_pos last, if_pos (by split_ifs <;> omega), originalAt, getElem?_take_append (by omega)]
  · rw [if_neg last]
    by_cases marked : group.seqId ∈ bonus
    · simp only [marked, if_true, SequenceGroupMetadata.write, copyLen, copyStart]
      by_cases before : group.tokenIds.length - 2 + i ≤ p ∧ p < group.tokenIds.length - 1 + i
      · rw [if_pos before, if_pos (by omega), copyAt, getElem?_take_append (by omega)]
      · rw [if_neg before, if_neg (by omega)]
    · rw [if_neg marked, if_neg marked, if_neg (by omega)]

theorem sampleLoop_other (decoding : ∀ group ∈ groups, Decoding group)
    (drafted : ∀ group ∈ groups, i + n ≤ (drafts group.seqId).length)
    (absent : seqId ∉ getAllSeqIds groups) (cache : KVCache) :
    sampleLoop drafts i n (stage bonus drafts i groups) cache seqId = cache seqId := by
  induction n generalizing i cache with
  | zero => rfl
  | succ n ih =>
    rw [sampleLoop, appendNewTokens_stage decoding fun group mem => by have := drafted group mem; omega,
      ih (fun group mem => by have := drafted group mem; omega), forwardPass_stage]
    exact foldl_update_other absent cache

/-- After all passes, the entries from the last token on, or the one before it where there is a copy,
are the ones of the sequence continued with the draft tokens. -/
theorem sampleLoop_own
    (decoding : ∀ group ∈ groups, Decoding group) (distinct : (getAllSeqIds groups).Nodup)
    (drafted : ∀ group ∈ groups, i + n ≤ (drafts group.seqId).length)
    (mem : group ∈ groups) (cache : KVCache) (p : ℕ) :
    sampleLoop drafts i n (stage bonus drafts i groups) cache group.seqId p =
      if 0 < n ∧ group.tokenIds.length + i ≤ p + (if group.seqId ∈ bonus then 2 else 1) ∧
          p + 1 < group.tokenIds.length + i + n then
        (group.tokenIds ++ drafts group.seqId)[p]?
      else cache group.seqId p := by
  induction n generalizing i cache with
  | zero => simp [sampleLoop]
  | succ n ih =>
    have bound := drafted group mem
    have own := decoding group mem
    have long := own.long
    rw [sampleLoop, appendNewTokens_stage decoding fun group mem => by have := drafted group mem; omega,
      ih (fun group mem => by have := drafted group mem; omega), forwardPass_stage,
      foldl_update_own distinct mem, stageWrite_eq own (by omega)]
    split_ifs <;> first | rfl | omega

end Loop
-- What a request that is executed leaves

namespace DraftCache

section Execute
variable {drafts : SeqId → List TokenId} {request : ExecuteModelRequest} {seqId : SeqId}

theorem executed_other (absent : seqId ∉ getAllSeqIds request.seqGroupMetadataList)
    (resident : seqId ∉ request.blocksToSwapIn) (n : ℕ) (c : DraftCache) :
    ((List.replicate n (DraftCall.executeModel request)).foldl (call drafts) c).gpu seqId =
      c.gpu seqId := by
  induction n generalizing c with
  | zero => rfl
  | succ n ih =>
    rw [List.replicate_succ, List.foldl_cons, ih]
    exact (forwardPass_other absent _).trans (if_neg resident)

theorem executed_cpu (resident : seqId ∉ request.blocksToSwapOut) (n : ℕ) (c : DraftCache) :
    ((List.replicate n (DraftCall.executeModel request)).foldl (call drafts) c).cpu seqId =
      c.cpu seqId := by
  induction n generalizing c with
  | zero => rfl
  | succ n ih =>
    rw [List.replicate_succ, List.foldl_cons, ih]
    exact if_neg resident

theorem executed_out (leaves : seqId ∈ request.blocksToSwapOut) (c : DraftCache) :
    ((List.replicate 1 (DraftCall.executeModel request)).foldl (call drafts) c).cpu seqId =
      c.leaving seqId :=
  if_pos leaves

theorem executed_own (some : 0 < n) (distinct : (getAllSeqIds request.seqGroupMetadataList).Nodup)
    (mem : group ∈ request.seqGroupMetadataList) (stays : group.seqId ∉ request.blocksToSwapOut)
    (c : DraftCache) :
    ((List.replicate n (DraftCall.executeModel request)).foldl (call drafts) c).gpu group.seqId =
      group.write (if group.seqId ∈ request.blocksToSwapIn then c.cpu group.seqId
        else c.gpu group.seqId) := by
  induction n generalizing c with
  | zero => omega
  | succ n ih =>
    rw [List.replicate_succ, List.foldl_cons]
    have once : (call drafts c (.executeModel request)).gpu group.seqId =
        group.write (if group.seqId ∈ request.blocksToSwapIn then c.cpu group.seqId
          else c.gpu group.seqId) := forwardPass_own distinct mem _
    have host : (call drafts c (.executeModel request)).cpu group.seqId = c.cpu group.seqId :=
      if_neg stays
    rcases Nat.eq_zero_or_pos n with rfl | more
    · exact once
    · rw [ih more, once, host]
      split_ifs
      · rfl
      · exact write_write _ _

end Execute

-- What a speculative step leaves

section Speculate
variable {cfg : SpecDecodeConfig} {bonus : Finset SeqId} {drafts : SeqId → List TokenId}
  {request : ExecuteModelRequest} {previous : Option HiddenStates} {proposals : List DraftCall}

theorem getSpecProposals_cases (proposed : getSpecProposals cfg bonus previous request = .ok proposals) :
    cfg.nonzeroProposalLenSeqs request = [] ∧ proposals = [] ∨
    cfg.nonzeroProposalLenSeqs request ≠ [] ∧ ∃ expanded, proposals =
      [.samplerOutput (expandGroups bonus (cfg.nonzeroProposalLenSeqs request))
        request.numLookaheadSlots expanded] := by
  simp only [getSpecProposals] at proposed
  split_ifs at proposed with nothing
  · exact Or.inl ⟨nothing, (Except.ok.inj proposed).symm⟩
  · refine Or.inr ⟨nothing, ?_⟩
    cases previous with
    | none => exact ⟨none, (Except.ok.inj proposed).symm⟩
    | some hs =>
      simp only [bind, Except.bind] at proposed
      cases pruned : hs.prune (cfg.nonzeroProposalLenSeqs request) with
      | error e =>
        rw [pruned] at proposed
        cases proposed
      | ok hs' =>
        rw [pruned] at proposed
        dsimp only at proposed
        cases expanded : hs'.expandWithBonusTokens bonus with
        | error e =>
          rw [expanded] at proposed
          cases proposed
        | ok hs'' =>
          rw [expanded] at proposed
          exact ⟨some hs'', (Except.ok.inj proposed).symm⟩

theorem mem_nonzero :
    group ∈ cfg.nonzeroProposalLenSeqs request ↔ group ∈ request.seqGroupMetadataList ∧
      cfg.proposes request.numLookaheadSlots group = true :=
  List.mem_filter

theorem nonzero_sublist : (getAllSeqIds (cfg.nonzeroProposalLenSeqs request)).Sublist
    (getAllSeqIds request.seqGroupMetadataList) :=
  List.filter_sublist.map _

/-- What the proposals do to the caches. -/
theorem proposals_rule (proposed : getSpecProposals cfg bonus previous request = .ok proposals)
    (decoding : ∀ group ∈ cfg.nonzeroProposalLenSeqs request, Decoding group)
    (distinct : (getAllSeqIds request.seqGroupMetadataList).Nodup)
    (drafted : ∀ seqId, (drafts seqId).length = request.numLookaheadSlots) (c : DraftCache) :
    (proposals.foldl (call drafts) c).cpu = c.cpu ∧
    (∀ seqId, seqId ∉ getAllSeqIds (cfg.nonzeroProposalLenSeqs request) →
      (proposals.foldl (call drafts) c).gpu seqId = c.gpu seqId) ∧
    ∀ group ∈ cfg.nonzeroProposalLenSeqs request, ∀ p,
      (proposals.foldl (call drafts) c).gpu group.seqId p =
        if 0 < request.numLookaheadSlots ∧
            group.tokenIds.length ≤ p + (if group.seqId ∈ bonus then 2 else 1) ∧
            p + 1 < group.tokenIds.length + request.numLookaheadSlots then
          (group.tokenIds ++ drafts group.seqId)[p]?
        else c.gpu group.seqId p := by
  have bound : ∀ group ∈ cfg.nonzeroProposalLenSeqs request,
      0 + request.numLookaheadSlots ≤ (drafts group.seqId).length := by
    intro group _
    rw [drafted]
    omega
  rcases getSpecProposals_cases proposed with ⟨nothing, rfl⟩ | ⟨-, expanded, rfl⟩
  · rw [nothing]
    exact ⟨rfl, fun _ _ => rfl, by simp⟩
  · have result : ([DraftCall.samplerOutput (expandGroups bonus (cfg.nonzeroProposalLenSeqs request))
        request.numLookaheadSlots expanded].foldl (call drafts) c).gpu =
        sampleLoop drafts 0 request.numLookaheadSlots
          (stage bonus drafts 0 (cfg.nonzeroProposalLenSeqs request)) c.gpu := by
      rw [← expandGroups_eq_stage bonus drafts decoding]
      rfl
    rw [result]
    refine ⟨rfl, ?_, ?_⟩
    · intro seqId absent
      exact sampleLoop_other decoding bound absent c.gpu
    · intro group mem p
      rw [sampleLoop_own decoding (distinct.sublist nonzero_sublist) bound mem c.gpu p]
      simp only [Nat.add_zero]

/-- What the pass over the groups without proposals does to them. -/
theorem syncPrefills_rule (cfg : SpecDecodeConfig) (drafts : SeqId → List TokenId)
    (distinct : (getAllSeqIds request.seqGroupMetadataList).Nodup) (c : DraftCache) :
    (∀ seqId, seqId ∉ request.blocksToSwapOut →
      ((syncPrefills cfg request).foldl (call drafts) c).cpu seqId = c.cpu seqId) ∧
    (∀ seqId, seqId ∉ request.blocksToSwapIn →
      (∀ group ∈ request.seqGroupMetadataList, group.seqId = seqId →
        cfg.proposes request.numLookaheadSlots group = true) →
      ((syncPrefills cfg request).foldl (call drafts) c).gpu seqId = c.gpu seqId) ∧
    ∀ group ∈ request.seqGroupMetadataList, group.isPrompt = true →
      ((syncPrefills cfg request).foldl (call drafts) c).gpu group.seqId =
        group.write (if group.seqId ∈ request.blocksToSwapIn then c.cpu group.seqId
          else c.gpu group.seqId) := by
  have unproposed : ∀ group : SequenceGroupMetadata, group.isPrompt = true →
      cfg.proposes request.numLookaheadSlots group = false := by
    intro group prompt
    simp [SpecDecodeConfig.proposes, prompt]
  have sub : (getAllSeqIds (request.seqGroupMetadataList.filter fun group =>
      !cfg.proposes request.numLookaheadSlots group)).Sublist
      (getAllSeqIds request.seqGroupMetadataList) := List.filter_sublist.map _
  simp only [syncPrefills]
  split_ifs with prompts
  · refine ⟨fun seqId stays => if_neg stays, ?_, ?_⟩
    · intro seqId resident proposing
      have absent : seqId ∉ getAllSeqIds (request.seqGroupMetadataList.filter fun group =>
          !cfg.proposes request.numLookaheadSlots group) := by
        intro listed
        obtain ⟨group, mem, same⟩ := List.mem_map.mp listed
        obtain ⟨mem, without⟩ := List.mem_filter.mp mem
        simp [proposing group mem same] at without
      exact (forwardPass_other absent _).trans (if_neg resident)
    · intro group mem prompt
      exact forwardPass_own (distinct.sublist sub)
        (List.mem_filter.mpr ⟨mem, by simp [unproposed group prompt]⟩) _
  · refine ⟨fun _ _ => rfl, fun _ _ _ => rfl, ?_⟩
    intro group mem prompt
    exact absurd (List.any_eq_true.mpr ⟨group, List.mem_filter.mpr ⟨mem, by
      simp [unproposed group prompt]⟩, prompt⟩) prompts

end Speculate

end DraftCache
end Vllm.SpecDecode
