import VllmProofs.Data.IndexedRows
import VllmProofs.SpecDecode.HiddenStates

/-!
`Top1Proposer`: the draft tokens of a batch, one row for each sequence. Which sequences speculate, which of them the
draft worker has no proposal for, and the rows of the others put back in the order of the batch. Tensors are lists of
rows, and numbers are taken exactly.
-/

namespace Vllm.SpecDecode.Top1
open IndexedRows

/-- Beside its log probabilities and hidden states, which the proposals do not have. -/
structure SamplerOutput where
  sampledTokenIds : List TokenId
  sampledTokenProbs : List (List ℚ)
  deriving DecidableEq, Repr

/-- What `sampler_output` of the draft worker returns: the outputs, and whether they are transposed. -/
abbrev WorkerOutput := Option (List (Option SamplerOutput)) × Bool

structure SpeculativeProposals where
  proposalTokenIds : List (List TokenId)
  proposalProbs : List (List (List ℚ))
  proposalLens : List ℕ
  noProposals : Bool
  deriving DecidableEq, Repr

def torch {α : Type} : Option α → Except PyError α
  | some x => .ok x
  | none => .error (.runtimeError "")

/-- `_split_by_proposal_len`, from group `i` on: the proposal lengths, and the groups that speculate with their rows.
The groups it passes get the length for their `num_speculative_tokens`; those that do not speculate are not used
again. -/
def splitByProposalLen (maxProposalLen : Option ℕ) (proposalLen : ℕ) :
    ℕ → List SequenceGroupMetadata → List ℕ × List SequenceGroupMetadata × List ℕ
  | _, [] => ([], [], [])
  | i, group :: groups =>
    let (proposalLens, seqs, indices) := splitByProposalLen maxProposalLen proposalLen (i + 1) groups
    if group.isPrompt ∨ group.numSpeculativeTokens = some 0 then (0 :: proposalLens, seqs, indices)
    else
      let seqLen := group.tokenIds.length
      if maxProposalLen.all (seqLen + proposalLen < ·) then
        (proposalLen :: proposalLens, { group with numSpeculativeTokens := some proposalLen } :: seqs, i :: indices)
      else (0 :: proposalLens, seqs, indices)

/-- The loop of `_remove_no_proposal_seqs`, from `seq_idx` on, with the proposal lengths that remain. -/
def removeFrom (outputs : List (Option SamplerOutput)) (indices : List ℕ) :
    ℕ → ℕ → List ℕ → Except PyError (List ℕ × List SamplerOutput × List ℕ)
  | _, _, [] => .ok ([], [], [])
  | seqIdx, ptr, len :: lens =>
    match indices[ptr]? with
    | none => .ok (len :: lens, [], [])
    | some index =>
      if seqIdx < index then
        if len ≠ 0 then .error .assertionError
        else do
          let (newLens, newOutputs, newIndices) ← removeFrom outputs indices (seqIdx + 1) ptr lens
          return (0 :: newLens, newOutputs, newIndices)
      else
        match outputs[ptr]? with
        | none => .error .indexError
        | some none => do
          let (newLens, newOutputs, newIndices) ← removeFrom outputs indices (seqIdx + 1) (ptr + 1) lens
          return (0 :: newLens, newOutputs, newIndices)
        | some (some output) => do
          let (newLens, newOutputs, newIndices) ← removeFrom outputs indices (seqIdx + 1) (ptr + 1) lens
          return (len :: newLens, output :: newOutputs, seqIdx :: newIndices)

def removeNoProposalSeqs (proposalLens : List ℕ) (outputs : List (Option SamplerOutput)) (indices : List ℕ) :
    Except PyError (List ℕ × List SamplerOutput × List ℕ) := do
  let (newLens, newOutputs, newIndices) ← removeFrom outputs indices 0 0 proposalLens
  if newOutputs = [] then throw .assertionError
  return (newLens, newOutputs, newIndices)

section
variable {α : Type}

def stack : List (List α) → Option (List (List α))
  | [] => none
  | row :: rows => if rows.all (·.length = row.length) then some (row :: rows) else none

def transpose (rows : List (List α)) : List (List α) :=
  (List.range (rows.headD []).length).map fun j => rows.filterMap (·[j]?)

end

def samplerOutputToTorch (outputs : List SamplerOutput) (transposed : Bool) :
    Option (List (List TokenId) × List (List (List ℚ))) := do
  let probs ← stack (outputs.map (·.sampledTokenProbs))
  let tokenIds ← stack (outputs.map (·.sampledTokenIds))
  if transposed then return (transpose tokenIds, transpose probs) else return (tokenIds, probs)

def mergeOutputs (batchSize proposalLen vocabSize : ℕ) (proposalLens : List ℕ)
    (outputs : Option (List SamplerOutput)) (indices : List ℕ) (transposed : Bool) :
    Except PyError SpeculativeProposals :=
  match outputs with
  | none =>
    .ok { proposalTokenIds := List.replicate batchSize (List.replicate proposalLen (-1))
          proposalProbs := List.replicate batchSize (List.replicate proposalLen (List.replicate vocabSize 0))
          proposalLens := List.replicate proposalLens.length 0
          noProposals := true }
  | some outputs => do
    let (tokenIds, probs) ← torch (samplerOutputToTorch outputs transposed)
    let width := (tokenIds.headD []).length
    let proposalTokenIds ← torch (assign (List.replicate batchSize (List.replicate width (-1))) indices tokenIds)
    let proposalProbs ←
      torch (assign (List.replicate batchSize (List.replicate width (List.replicate vocabSize 0))) indices probs)
    let proposalLens ← torch (assign (List.replicate batchSize 0) indices [proposalLen])
    return { proposalTokenIds, proposalProbs, proposalLens, noProposals := false }

/-- A list with a hole, in which an attribute of every entry is read. -/
def allOutputs : List (Option SamplerOutput) → Except PyError (List SamplerOutput)
  | [] => .ok []
  | none :: _ => .error .attributeError
  | some output :: rest => (allOutputs rest).map (output :: ·)

/-- `get_spec_proposals`; `samplerOutput` is the draft worker's, and is given the groups that speculate, their hidden
states and the proposal length. -/
def getSpecProposals (maxProposalLen : Option ℕ) (vocabSize : ℕ)
    (samplerOutput : List SequenceGroupMetadata → Option HiddenStates → ℕ → WorkerOutput)
    (groups : List SequenceGroupMetadata) (previousHiddenStates : Option HiddenStates) (proposalLen : ℕ) :
    Except PyError SpeculativeProposals :=
  let (proposalLens, seqs, indices) := splitByProposalLen maxProposalLen proposalLen 0 groups
  if seqs = [] then mergeOutputs groups.length proposalLen vocabSize proposalLens none indices false
  else do
    let hiddenStates ← previousHiddenStates.mapM (·.prune seqs)
    match samplerOutput seqs hiddenStates proposalLen with
    | (none, transposed) =>
      mergeOutputs groups.length proposalLen vocabSize proposalLens none indices transposed
    | (some outputs, true) => do
      let outputs ← allOutputs outputs
      mergeOutputs groups.length proposalLen vocabSize proposalLens (some outputs) indices true
    | (some outputs, false) => do
      let (proposalLens, outputs, indices) ← removeNoProposalSeqs proposalLens outputs indices
      mergeOutputs groups.length proposalLen vocabSize proposalLens (some outputs) indices false

-- The rows of the proposals: each sequence gets what the draft worker proposes for it, and -1 without a proposal

instance : Inhabited SequenceGroupMetadata :=
  ⟨{ requestId := 0, seqId := 0, isPrompt := false, doSample := false, tokenIds := [], numComputedTokens := 0
     tokenChunkSize := 0 }⟩

variable {maxProposalLen : Option ℕ} {k n : ℕ} {groups : List SequenceGroupMetadata}
  {samplerOutput : List SequenceGroupMetadata → ℕ → WorkerOutput}

/-- The draft worker is asked for the group. -/
def Speculates (maxProposalLen : Option ℕ) (k : ℕ) (group : SequenceGroupMetadata) : Prop :=
  ¬ group.isPrompt ∧ group.numSpeculativeTokens ≠ some 0 ∧ maxProposalLen.all (group.tokenIds.length + k < ·)

instance (maxProposalLen : Option ℕ) (k : ℕ) : DecidablePred (Speculates maxProposalLen k) :=
  fun _ => inferInstanceAs (Decidable (_ ∧ _ ∧ _))

def askedRows (maxProposalLen : Option ℕ) (k : ℕ) (groups : List SequenceGroupMetadata) : List ℕ :=
  (List.range groups.length).filter fun i => Speculates maxProposalLen k (groups.getD i default)

def askedGroups (maxProposalLen : Option ℕ) (k : ℕ) (groups : List SequenceGroupMetadata) :
    List SequenceGroupMetadata :=
  (askedRows maxProposalLen k groups).map fun i => { groups.getD i default with numSpeculativeTokens := some k }

structure Proposal where
  tokenIds : List TokenId
  probs : List (List ℚ)

/-- The proposal for the `r`-th group the worker is given: one output for each group, or one for each token. -/
def WorkerOutput.proposal (output : WorkerOutput) (r : ℕ) : Option Proposal :=
  match output with
  | (none, _) => none
  | (some outputs, false) => outputs[r]?.join.map fun o => ⟨o.sampledTokenIds, o.sampledTokenProbs⟩
  | (some outputs, true) =>
    some ⟨outputs.filterMap fun o => o.bind (·.sampledTokenIds[r]?),
      outputs.filterMap fun o => o.bind (·.sampledTokenProbs[r]?)⟩

/-- No proposals, or `k` tokens for each of `m` groups: not for all of them, when there is one output for each. -/
def WorkerOutput.WellShaped (output : WorkerOutput) (m k : ℕ) : Prop :=
  match output with
  | (none, _) => True
  | (some outputs, false) =>
    outputs.length = m ∧ (∃ o, some o ∈ outputs) ∧
      ∀ o, some o ∈ outputs → o.sampledTokenIds.length = k ∧ o.sampledTokenProbs.length = k
  | (some outputs, true) =>
    outputs.length = k ∧
      ∀ o ∈ outputs, ∃ s, o = some s ∧ s.sampledTokenIds.length = m ∧ s.sampledTokenProbs.length = m

def proposalOf (maxProposalLen : Option ℕ) (samplerOutput : List SequenceGroupMetadata → ℕ → WorkerOutput)
    (groups : List SequenceGroupMetadata) (k i : ℕ) : Option Proposal :=
  if i ∈ askedRows maxProposalLen k groups then
    (samplerOutput (askedGroups maxProposalLen k groups) k).proposal ((askedRows maxProposalLen k groups).idxOf i)
  else none

/-! ### Splitting the batch -/

theorem splitByProposalLen_range' (g : ℕ → SequenceGroupMetadata) (i m : ℕ) :
    splitByProposalLen maxProposalLen k i ((List.range' i m).map g) =
      ((List.range' i m).map fun j => if Speculates maxProposalLen k (g j) then k else 0,
        ((List.range' i m).filter fun j => Speculates maxProposalLen k (g j)).map fun j =>
          { g j with numSpeculativeTokens := some k },
        (List.range' i m).filter fun j => Speculates maxProposalLen k (g j)) := by
  induction m generalizing i with
  | zero => rfl
  | succ m ih =>
    rw [List.range'_succ, List.map_cons, splitByProposalLen, ih (i + 1)]
    by_cases skipped : (g i).isPrompt ∨ (g i).numSpeculativeTokens = some 0
    · have quiet : ¬ Speculates maxProposalLen k (g i) := by
        rintro ⟨decode, enabled, -⟩
        exact skipped.elim decode enabled
      simp [skipped, quiet]
    · obtain ⟨decode, enabled⟩ := not_or.mp skipped
      by_cases short : maxProposalLen.all ((g i).tokenIds.length + k < ·)
      · have speculates : Speculates maxProposalLen k (g i) := ⟨decode, enabled, short⟩
        simp only [if_neg skipped, if_pos short, List.map_cons, List.filter_cons, speculates, decide_true, if_true]
      · have quiet : ¬ Speculates maxProposalLen k (g i) := fun speculates => short speculates.2.2
        simp only [if_neg skipped, if_neg short, List.map_cons, List.filter_cons, quiet, decide_false, if_false]
        rfl

theorem splitByProposalLen_eq (groups : List SequenceGroupMetadata) :
    splitByProposalLen maxProposalLen k 0 groups =
      ((List.range groups.length).map fun i => if Speculates maxProposalLen k (groups.getD i default) then k else 0,
        askedGroups maxProposalLen k groups, askedRows maxProposalLen k groups) := by
  have all : groups = (List.range' 0 groups.length).map fun i => groups.getD i default := by
    apply List.ext_getElem
    · simp
    · intro i left right
      simp [List.getD_eq_getElem?_getD, left]
  conv_lhs => rw [all]
  rw [splitByProposalLen_range', ← List.range_eq_range']
  rfl

theorem nodup_askedRows : (askedRows maxProposalLen k groups).Nodup := List.nodup_range.filter _

theorem lt_of_mem_askedRows {i : ℕ} (asked : i ∈ askedRows maxProposalLen k groups) : i < groups.length :=
  List.mem_range.mp (List.mem_filter.mp asked).1

/-! ### Removing the sequences without a proposal -/

/-- The walk finds each output at the row it belongs to. -/
theorem removeFrom_eq {spec : ℕ → Prop} [DecidablePred spec] (p : ℕ → Option SamplerOutput) (i m : ℕ)
    (before : List ℕ) (outputsBefore : List (Option SamplerOutput)) (same : outputsBefore.length = before.length) :
    removeFrom (outputsBefore ++ ((List.range' i m).filter (spec ·)).map p)
        (before ++ (List.range' i m).filter (spec ·)) i before.length
        ((List.range' i m).map fun j => if spec j then k else 0) =
      .ok ((List.range' i m).map fun j => if spec j ∧ (p j).isSome then k else 0,
        ((List.range' i m).filter (spec ·)).filterMap p,
        (List.range' i m).filter fun j => spec j ∧ (p j).isSome) := by
  induction m generalizing i before outputsBefore with
  | zero => rfl
  | succ m ih =>
    rw [List.range'_succ, List.map_cons, List.filter_cons]
    by_cases here : spec i
    · have index : (before ++ i :: (List.range' (i + 1) m).filter (spec ·))[before.length]? = some i := by
        rw [List.getElem?_append_right le_rfl, Nat.sub_self]
        rfl
      have output : (outputsBefore ++ (i :: (List.range' (i + 1) m).filter (spec ·)).map p)[before.length]? =
          some (p i) := by
        rw [List.getElem?_append_right (le_of_eq same), same, Nat.sub_self]
        rfl
      have later := ih (i + 1) (before ++ [i]) (outputsBefore ++ [p i]) (by simp [same])
      rw [List.append_assoc, List.append_assoc, List.length_append] at later
      simp only [here, decide_true, if_true]
      rw [removeFrom, index]
      simp only [lt_irrefl, if_false, output]
      cases found : p i with
      | none =>
        rw [found] at later
        simp only [List.map_cons, found]
        erw [later]
        simp [found, here, bind, Except.bind, pure, Except.pure]
      | some o =>
        rw [found] at later
        simp only [List.map_cons, found]
        erw [later]
        simp [found, here, bind, Except.bind, pure, Except.pure]
    · simp only [here, decide_false, Bool.false_eq_true, if_false]
      rw [removeFrom]
      cases rest : (before ++ (List.range' (i + 1) m).filter (spec ·))[before.length]? with
      | none =>
        -- no sequence speculates from here on
        have none : (List.range' (i + 1) m).filter (spec ·) = [] := by
          rw [List.getElem?_eq_none_iff, List.length_append] at rest
          exact List.eq_nil_of_length_eq_zero (by omega)
        have quiet : ∀ j ∈ List.range' (i + 1) m, ¬ spec j := by
          intro j member own
          have kept : j ∈ (List.range' (i + 1) m).filter (spec ·) := List.mem_filter.mpr ⟨member, by simpa using own⟩
          rw [none] at kept
          cases kept
        have lens : (List.range' (i + 1) m).map (fun j => if spec j then k else 0) =
            (List.range' (i + 1) m).map fun j => if spec j ∧ (p j).isSome then k else 0 :=
          List.map_congr_left fun j member => by simp [quiet j member]
        have kept : (List.range' (i + 1) m).filter (fun j => spec j ∧ (p j).isSome) = [] :=
          List.filter_eq_nil_iff.mpr fun j member => by simp [quiet j member]
        simp only [none, lens, kept, List.map_cons, List.filter_cons, here, false_and, decide_false,
          Bool.false_eq_true, if_false, List.filterMap_nil]
      | some index =>
        have later := ih (i + 1) before outputsBefore same
        have above : i < index := by
          rw [List.getElem?_append_right le_rfl, Nat.sub_self] at rest
          have member := List.mem_of_getElem? rest
          have := (List.mem_range'_1.mp (List.mem_filter.mp member).1).1
          omega
        simp only [above, if_true]
        rw [later]
        simp [here, bind, Except.bind, pure, Except.pure]

variable {outputs : List (Option SamplerOutput)}

/-- Outputs of `p`'s rows; the rows without one are removed. -/
theorem removeNoProposalSeqs_eq (p : ℕ → Option SamplerOutput)
    (given : outputs = (askedRows maxProposalLen k groups).map p) (some : ∃ o, some o ∈ outputs) :
    removeNoProposalSeqs
        ((List.range groups.length).map fun i => if Speculates maxProposalLen k (groups.getD i default) then k else 0)
        outputs (askedRows maxProposalLen k groups) =
      .ok ((List.range groups.length).map fun i =>
          if Speculates maxProposalLen k (groups.getD i default) ∧ (p i).isSome then k else 0,
        (askedRows maxProposalLen k groups).filterMap p,
        (askedRows maxProposalLen k groups).filter fun i => (p i).isSome) := by
  have walk := @removeFrom_eq k (fun i => Speculates maxProposalLen k (groups.getD i default)) _ p 0
    groups.length [] [] rfl
  have nonempty : (askedRows maxProposalLen k groups).filterMap p ≠ [] := by
    obtain ⟨o, member⟩ := some
    rw [given] at member
    obtain ⟨i, asked, found⟩ := List.mem_map.mp member
    exact List.ne_nil_of_mem (List.mem_filterMap.mpr ⟨i, asked, found⟩)
  have rows : (askedRows maxProposalLen k groups).filter (fun i => (p i).isSome) =
      (List.range groups.length).filter fun i =>
        Speculates maxProposalLen k (groups.getD i default) ∧ (p i).isSome := by
    unfold askedRows
    rw [List.filter_filter]
    refine List.filter_congr fun i _ => ?_
    simp [Bool.and_comm]
  simp only [List.nil_append, List.length_nil, ← List.range_eq_range', ← rows] at walk
  change removeFrom ((askedRows maxProposalLen k groups).map p) (askedRows maxProposalLen k groups) 0 0 _ =
    .ok (_, (askedRows maxProposalLen k groups).filterMap p, _) at walk
  unfold removeNoProposalSeqs
  rw [given, walk]
  simp only [bind, Except.bind]
  rw [if_neg nonempty]
  rfl

/-! ### Merging the outputs -/

theorem stack_eq {α : Type} {rows : List (List α)} {width : ℕ} (nonempty : rows ≠ [])
    (same : ∀ row ∈ rows, row.length = width) : stack rows = some rows := by
  cases rows with
  | nil => exact absurd rfl nonempty
  | cons row rows =>
    have all : rows.all (·.length = row.length) = true := by
      rw [List.all_eq_true]
      intro other member
      rw [same other (List.mem_cons_of_mem _ member), same row List.mem_cons_self]
      simp
    simp only [stack, all, if_true]

variable {vocabSize : ℕ} {outputs : List SamplerOutput}

/-- The rows of the proposals, from the outputs of the rows `indices`. -/
theorem mergeOutputs_eq {proposalLens : List ℕ} {indices : List ℕ}
    {transposed : Bool} (tokenIds : ℕ → List TokenId) (probs : ℕ → List (List ℚ))
    (converted : samplerOutputToTorch outputs transposed = some (indices.map tokenIds, indices.map probs))
    (width : ∀ i ∈ indices, (tokenIds i).length = k) (nonempty : indices ≠ []) (inside : ∀ i ∈ indices, i < n)
    (distinct : indices.Nodup) :
    mergeOutputs n k vocabSize proposalLens (some outputs) indices transposed = .ok
      { proposalTokenIds := (List.range n).map fun i => if i ∈ indices then tokenIds i else List.replicate k (-1)
        proposalProbs := (List.range n).map fun i =>
          if i ∈ indices then probs i else List.replicate k (List.replicate vocabSize 0)
        proposalLens := (List.range n).map fun i => if i ∈ indices then k else 0
        noProposals := false } := by
  obtain ⟨first, rest, rfl⟩ := List.exists_cons_of_ne_nil nonempty
  have headWidth : (((first :: rest).map tokenIds).headD []).length = k := width first List.mem_cons_self
  have table : ∀ {α : Type} (fill : α) (value : ℕ → α), (List.replicate n fill).mapIdx
      (fun i row => if i ∈ first :: rest then value i else row) =
        (List.range n).map fun i => if i ∈ first :: rest then value i else fill := by
    intro α fill value
    apply List.ext_getElem
    · simp
    · intro i left right
      simp
  unfold mergeOutputs
  simp only [converted, torch, bind, Except.bind, headWidth]
  rw [assign_map tokenIds (by simpa using inside) distinct, assign_map probs (by simpa using inside) distinct,
    assign_one k (by simpa using inside) distinct, table, table, table]
  rfl

theorem mergeOutputs_none (vocabSize : ℕ) (proposalLens : List ℕ) (size : proposalLens.length = n) (indices : List ℕ)
    (transposed : Bool) :
    mergeOutputs n k vocabSize proposalLens none indices transposed = .ok
      { proposalTokenIds := (List.range n).map fun _ => List.replicate k (-1)
        proposalProbs := (List.range n).map fun _ => List.replicate k (List.replicate vocabSize 0)
        proposalLens := (List.range n).map fun _ => 0
        noProposals := true } := by
  simp [mergeOutputs, size, List.map_const']

theorem samplerOutputToTorch_rows (nonempty : outputs ≠ [])
    (widths : ∀ o ∈ outputs, o.sampledTokenIds.length = k ∧ o.sampledTokenProbs.length = k) :
    samplerOutputToTorch outputs false =
      some (outputs.map (·.sampledTokenIds), outputs.map (·.sampledTokenProbs)) := by
  have tokenIds := @stack_eq _ (outputs.map (·.sampledTokenIds)) k (by simpa using nonempty) (by
    rintro _ member
    obtain ⟨o, own, rfl⟩ := List.mem_map.mp member
    exact (widths o own).1)
  have probs := @stack_eq _ (outputs.map (·.sampledTokenProbs)) k (by simpa using nonempty) (by
    rintro _ member
    obtain ⟨o, own, rfl⟩ := List.mem_map.mp member
    exact (widths o own).2)
  simp [samplerOutputToTorch, tokenIds, probs]

theorem transpose_eq {α : Type} {rows : List (List α)} {m : ℕ} (nonempty : rows ≠ [])
    (same : ∀ row ∈ rows, row.length = m) :
    transpose rows = (List.range m).map fun j => rows.filterMap (·[j]?) := by
  obtain ⟨first, rest, rfl⟩ := List.exists_cons_of_ne_nil nonempty
  unfold transpose
  rw [List.headD_cons, same first List.mem_cons_self]

theorem length_filterMap_column {α : Type} {rows : List (List α)} {m j : ℕ} (same : ∀ row ∈ rows, row.length = m)
    (inside : j < m) : (rows.filterMap (·[j]?)).length = rows.length := by
  induction rows with
  | nil => rfl
  | cons row rows ih =>
    have here : j < row.length := by rwa [same row List.mem_cons_self]
    rw [List.filterMap_cons, List.getElem?_eq_getElem here]
    simp [ih fun other member => same other (List.mem_cons_of_mem _ member)]

theorem samplerOutputToTorch_columns {m : ℕ} (nonempty : outputs ≠ [])
    (heights : ∀ o ∈ outputs, o.sampledTokenIds.length = m ∧ o.sampledTokenProbs.length = m) :
    samplerOutputToTorch outputs true =
      some ((List.range m).map fun r => (outputs.map (·.sampledTokenIds)).filterMap (·[r]?),
        (List.range m).map fun r => (outputs.map (·.sampledTokenProbs)).filterMap (·[r]?)) := by
  have tokenIds : ∀ row ∈ outputs.map (·.sampledTokenIds), row.length = m := by
    rintro _ member
    obtain ⟨o, own, rfl⟩ := List.mem_map.mp member
    exact (heights o own).1
  have probs : ∀ row ∈ outputs.map (·.sampledTokenProbs), row.length = m := by
    rintro _ member
    obtain ⟨o, own, rfl⟩ := List.mem_map.mp member
    exact (heights o own).2
  have some : outputs.map (·.sampledTokenIds) ≠ [] ∧ outputs.map (·.sampledTokenProbs) ≠ [] := by simpa using nonempty
  simp [samplerOutputToTorch, stack_eq some.1 tokenIds, stack_eq some.2 probs, transpose_eq some.1 tokenIds,
    transpose_eq some.2 probs]

theorem allOutputs_eq {outputs : List (Option SamplerOutput)} (all : ∀ o ∈ outputs, ∃ s, o = some s) :
    ∃ found, outputs = found.map some ∧ allOutputs outputs = .ok found := by
  induction outputs with
  | nil => exact ⟨[], rfl, rfl⟩
  | cons o outputs ih =>
    obtain ⟨s, rfl⟩ := all o List.mem_cons_self
    obtain ⟨found, rfl, read⟩ := ih fun other member => all other (List.mem_cons_of_mem _ member)
    exact ⟨s :: found, rfl, by rw [allOutputs, read]; rfl⟩

/-! ### The proposals of a batch -/

/-- Row `i` has the proposal for the `i`-th sequence, or is empty. -/
structure SpeculativeProposals.Rows (proposals : SpeculativeProposals) (n k vocabSize : ℕ)
    (p : ℕ → Option Proposal) : Prop where
  tokenIds : proposals.proposalTokenIds = (List.range n).map fun i =>
    match p i with
    | some proposal => proposal.tokenIds
    | none => List.replicate k (-1)
  probs : proposals.proposalProbs = (List.range n).map fun i =>
    match p i with
    | some proposal => proposal.probs
    | none => List.replicate k (List.replicate vocabSize 0)
  lens : proposals.proposalLens = (List.range n).map fun i => if (p i).isSome then k else 0
  width : ∀ i proposal, p i = some proposal → proposal.tokenIds.length = k ∧ proposal.probs.length = k

theorem idxOf_askedRows (m : ℕ) (size : (askedRows maxProposalLen k groups).length = m) :
    (askedRows maxProposalLen k groups).map (fun i => (askedRows maxProposalLen k groups).idxOf i) =
      List.range m := by
  apply List.ext_getElem
  · simp [size]
  · intro r left right
    simp [nodup_askedRows.idxOf_getElem r (by simpa using left)]

variable {p : ℕ → Option Proposal}

theorem rows_of_merge {indices : List ℕ}
    {proposals : SpeculativeProposals} (tokenIds : ℕ → List TokenId) (probs : ℕ → List (List ℚ))
    (made : ∀ i ∈ indices, p i = some ⟨tokenIds i, probs i⟩) (others : ∀ i ∉ indices, p i = none)
    (width : ∀ i ∈ indices, (tokenIds i).length = k ∧ (probs i).length = k)
    (tokens : proposals.proposalTokenIds =
      (List.range n).map fun i => if i ∈ indices then tokenIds i else List.replicate k (-1))
    (probRows : proposals.proposalProbs =
      (List.range n).map fun i => if i ∈ indices then probs i else List.replicate k (List.replicate vocabSize 0))
    (lens : proposals.proposalLens = (List.range n).map fun i => if i ∈ indices then k else 0) :
    proposals.Rows n k vocabSize p := by
  refine ⟨tokens.trans ?_, probRows.trans ?_, lens.trans ?_, ?_⟩
  · refine List.map_congr_left fun i _ => ?_
    by_cases own : i ∈ indices
    · rw [if_pos own, made i own]
    · rw [if_neg own, others i own]
  · refine List.map_congr_left fun i _ => ?_
    by_cases own : i ∈ indices
    · rw [if_pos own, made i own]
    · rw [if_neg own, others i own]
  · refine List.map_congr_left fun i _ => ?_
    by_cases own : i ∈ indices
    · rw [if_pos own, made i own]
      rfl
    · rw [if_neg own, others i own]
      rfl
  · intro i proposal found
    by_cases own : i ∈ indices
    · rw [made i own] at found
      cases found
      exact width i own
    · rw [others i own] at found
      cases found

theorem rows_of_none (none : ∀ i, p i = none) (noProposals : Bool) : SpeculativeProposals.Rows
      { proposalTokenIds := (List.range n).map fun _ => List.replicate k (-1)
        proposalProbs := (List.range n).map fun _ => List.replicate k (List.replicate vocabSize 0)
        proposalLens := (List.range n).map fun _ => 0
        noProposals } n k vocabSize p :=
  @rows_of_merge _ _ _ _ [] _ (fun _ => []) (fun _ => []) (fun _ member => nomatch member) (fun i _ => none i)
    (fun _ member => nomatch member) (by simp) (by simp) (by simp)

/-- One output for each token. -/
theorem getSpecProposals_columns (positive : 0 < k) {outputs : List (Option SamplerOutput)}
    (called : samplerOutput (askedGroups maxProposalLen k groups) k = (some outputs, true))
    (shaped : WorkerOutput.WellShaped (some outputs, true) (askedRows maxProposalLen k groups).length k)
    (asked : askedGroups maxProposalLen k groups ≠ []) :
    ∃ proposals, getSpecProposals maxProposalLen vocabSize (fun seqs _ => samplerOutput seqs) groups none k =
        .ok proposals ∧
      proposals.Rows groups.length k vocabSize (proposalOf maxProposalLen samplerOutput groups k) := by
  obtain ⟨size, all⟩ := shaped
  obtain ⟨found, rfl, read⟩ := allOutputs_eq fun o member => (all o member).imp fun _ h => h.1
  rw [List.length_map] at size
  have nonempty : found ≠ [] := List.ne_nil_of_length_pos (size ▸ positive)
  have heights : ∀ o ∈ found, o.sampledTokenIds.length = (askedRows maxProposalLen k groups).length ∧
      o.sampledTokenProbs.length = (askedRows maxProposalLen k groups).length := by
    intro o member
    obtain ⟨s, same, heights⟩ := all (some o) (List.mem_map_of_mem member)
    cases same
    exact heights
  have someRows : askedRows maxProposalLen k groups ≠ [] := fun none => asked (by rw [askedGroups, none]; rfl)
  have converted := samplerOutputToTorch_columns nonempty heights
  rw [← idxOf_askedRows _ rfl, List.map_map, List.map_map] at converted
  have width : ∀ i ∈ askedRows maxProposalLen k groups,
      ((found.map (·.sampledTokenIds)).filterMap (·[(askedRows maxProposalLen k groups).idxOf i]?)).length = k ∧
        ((found.map (·.sampledTokenProbs)).filterMap
          (·[(askedRows maxProposalLen k groups).idxOf i]?)).length = k := by
    intro i own
    have inside := List.idxOf_lt_length_iff.mpr own
    refine ⟨?_, ?_⟩
    · rw [length_filterMap_column (m := (askedRows maxProposalLen k groups).length) _ inside, List.length_map, size]
      rintro _ member
      obtain ⟨o, o_mem, rfl⟩ := List.mem_map.mp member
      exact (heights o o_mem).1
    · rw [length_filterMap_column (m := (askedRows maxProposalLen k groups).length) _ inside, List.length_map, size]
      rintro _ member
      obtain ⟨o, o_mem, rfl⟩ := List.mem_map.mp member
      exact (heights o o_mem).2
  obtain ⟨lens, merged⟩ : ∃ lens,
      getSpecProposals maxProposalLen vocabSize (fun seqs _ => samplerOutput seqs) groups none k =
      mergeOutputs groups.length k vocabSize lens (some found) (askedRows maxProposalLen k groups) true := by
    unfold getSpecProposals
    rw [splitByProposalLen_eq]
    simp only [if_neg asked, Option.mapM_none, pure, Except.pure, called, read, bind, Except.bind]
    exact ⟨_, rfl⟩
  refine ⟨_, merged.trans (mergeOutputs_eq _ _ converted (fun i own => (width i own).1) someRows
    (fun i => lt_of_mem_askedRows) nodup_askedRows),
    rows_of_merge _ _ (fun i own => ?_) (fun i other => ?_) width rfl rfl rfl⟩
  · unfold proposalOf
    rw [if_pos own, called]
    simp [WorkerOutput.proposal, List.filterMap_map]
  · unfold proposalOf
    rw [if_neg other]

/-- One output for each sequence, and none for some of them. -/
theorem getSpecProposals_rows {outputs : List (Option SamplerOutput)}
    (called : samplerOutput (askedGroups maxProposalLen k groups) k = (some outputs, false))
    (shaped : WorkerOutput.WellShaped (some outputs, false) (askedRows maxProposalLen k groups).length k)
    (asked : askedGroups maxProposalLen k groups ≠ []) :
    ∃ proposals, getSpecProposals maxProposalLen vocabSize (fun seqs _ => samplerOutput seqs) groups none k =
        .ok proposals ∧
      proposals.Rows groups.length k vocabSize (proposalOf maxProposalLen samplerOutput groups k) := by
  obtain ⟨size, proposed, widths⟩ := shaped
  have given : outputs = (askedRows maxProposalLen k groups).map fun i =>
      outputs[(askedRows maxProposalLen k groups).idxOf i]?.join := by
    apply List.ext_getElem
    · simp [size]
    · intro r left right
      have inside : r < (askedRows maxProposalLen k groups).length := size ▸ left
      simp [nodup_askedRows.idxOf_getElem r inside, left]
  generalize row : (fun i => outputs[(askedRows maxProposalLen k groups).idxOf i]?.join) = p at given
  have removed := removeNoProposalSeqs_eq p given proposed
  have kept : (askedRows maxProposalLen k groups).filterMap p =
      ((askedRows maxProposalLen k groups).filter fun i => (p i).isSome).map fun i => (p i).getD ⟨[], []⟩ := by
    generalize askedRows maxProposalLen k groups = rows
    induction rows with
    | nil => rfl
    | cons i rows ih => cases found : p i <;> simp [found, ih]
  have width : ∀ i ∈ (askedRows maxProposalLen k groups).filter fun i => (p i).isSome,
      ((p i).getD ⟨[], []⟩).sampledTokenIds.length = k ∧ ((p i).getD ⟨[], []⟩).sampledTokenProbs.length = k := by
    intro i member
    obtain ⟨own, present⟩ := List.mem_filter.mp member
    obtain ⟨o, found⟩ := Option.isSome_iff_exists.mp present
    rw [found]
    refine widths o ?_
    rw [given, ← found]
    exact List.mem_map_of_mem own
  have nonempty : ((askedRows maxProposalLen k groups).filter fun i => (p i).isSome) ≠ [] := by
    obtain ⟨o, member⟩ := proposed
    rw [given] at member
    obtain ⟨i, own, found⟩ := List.mem_map.mp member
    exact List.ne_nil_of_mem (List.mem_filter.mpr ⟨own, by rw [found]; rfl⟩)
  have converted := @samplerOutputToTorch_rows k ((askedRows maxProposalLen k groups).filterMap p)
    (by rw [kept]; simpa using nonempty) (by
      rw [kept]
      intro o member
      obtain ⟨i, own, rfl⟩ := List.mem_map.mp member
      exact width i own)
  rw [kept, List.map_map, List.map_map] at converted
  have made : ∀ i, proposalOf maxProposalLen samplerOutput groups k i =
      if i ∈ askedRows maxProposalLen k groups then
        (p i).map fun o => ⟨o.sampledTokenIds, o.sampledTokenProbs⟩ else none := by
    intro i
    unfold proposalOf
    rw [called, ← row]
    rfl
  obtain ⟨lens, merged⟩ : ∃ lens,
      getSpecProposals maxProposalLen vocabSize (fun seqs _ => samplerOutput seqs) groups none k =
      mergeOutputs groups.length k vocabSize lens (some ((askedRows maxProposalLen k groups).filterMap p))
        ((askedRows maxProposalLen k groups).filter fun i => (p i).isSome) false := by
    unfold getSpecProposals
    rw [splitByProposalLen_eq]
    simp only [if_neg asked, Option.mapM_none, pure, Except.pure, called, removed, bind, Except.bind]
    exact ⟨_, rfl⟩
  rw [kept] at merged
  refine ⟨_, merged.trans (mergeOutputs_eq _ _ converted (fun i own => (width i own).1) nonempty
    (fun i member => lt_of_mem_askedRows (List.mem_filter.mp member).1) (nodup_askedRows.filter _)),
    rows_of_merge _ _ (fun i member => ?_) (fun i other => ?_) width rfl rfl rfl⟩
  · obtain ⟨own, present⟩ := List.mem_filter.mp member
    obtain ⟨o, found⟩ := Option.isSome_iff_exists.mp present
    rw [made, if_pos own, found]
    rfl
  · rw [made]
    split
    · rename_i own
      cases found : p i with
      | none => rfl
      | some o => exact absurd (List.mem_filter.mpr ⟨own, by rw [found]; rfl⟩) other
    · rfl

/-- Each row has what the draft worker proposes for its sequence. -/
theorem getSpecProposals_proposalOf (vocabSize : ℕ) (positive : 0 < k)
    (shaped : ∀ seqs, seqs ≠ [] → (samplerOutput seqs k).WellShaped seqs.length k) :
    ∃ proposals, getSpecProposals maxProposalLen vocabSize (fun seqs _ => samplerOutput seqs) groups none k =
        .ok proposals ∧
      proposals.Rows groups.length k vocabSize (proposalOf maxProposalLen samplerOutput groups k) := by
  by_cases asked : askedGroups maxProposalLen k groups = []
  · have noRows : askedRows maxProposalLen k groups = [] := List.map_eq_nil_iff.mp asked
    refine ⟨_, ?_, rows_of_none (fun i => ?_) true⟩
    · unfold getSpecProposals
      rw [splitByProposalLen_eq]
      simp only [asked, if_true]
      exact mergeOutputs_none _ _ (by simp) _ _
    · unfold proposalOf
      rw [noRows, if_neg List.not_mem_nil]
  · have shaped := shaped _ asked
    have size : (askedGroups maxProposalLen k groups).length = (askedRows maxProposalLen k groups).length :=
      List.length_map _
    rw [size] at shaped
    cases called : samplerOutput (askedGroups maxProposalLen k groups) k with
    | mk outputs transposed =>
      rw [called] at shaped
      cases outputs with
      | none =>
        refine ⟨_, ?_, rows_of_none (fun i => ?_) true⟩
        · unfold getSpecProposals
          rw [splitByProposalLen_eq]
          simp only [if_neg asked, Option.mapM_none, pure, Except.pure, called, bind, Except.bind]
          exact mergeOutputs_none _ _ (by simp) _ _
        · unfold proposalOf
          rw [called]
          split <;> rfl
      | some outputs =>
        cases transposed with
        | true => exact getSpecProposals_columns positive called shaped asked
        | false => exact getSpecProposals_rows called shaped asked

/-! ### The hidden states -/

section
variable {vocabSize : ℕ} {samplerOutput : List SequenceGroupMetadata → Option HiddenStates → ℕ → WorkerOutput}
  {previous : Option HiddenStates}

/-- What the draft worker is given of the previous hidden states. -/
def handedOn (previous : Option HiddenStates) (seqs : List SequenceGroupMetadata) : Option HiddenStates :=
  previous.bind fun hs => (hs.prune seqs).toOption

/-- Every sequence that speculates has a row, if there are hidden states. -/
def Covered (maxProposalLen : Option ℕ) (k : ℕ) (groups : List SequenceGroupMetadata)
    (previous : Option HiddenStates) : Prop :=
  ∀ hs ∈ previous, ∀ group ∈ groups, Speculates maxProposalLen k group → group.seqId ∈ hs.seqIds

theorem mem_askedGroups {group : SequenceGroupMetadata} :
    group ∈ askedGroups maxProposalLen k groups ↔
      ∃ own ∈ groups, Speculates maxProposalLen k own ∧ { own with numSpeculativeTokens := some k } = group := by
  simp only [askedGroups, askedRows, List.mem_map, List.mem_filter, List.mem_range, decide_eq_true_eq]
  constructor
  · rintro ⟨i, ⟨inside, speculates⟩, same⟩
    rw [List.getD_eq_getElem _ _ inside] at speculates same
    exact ⟨groups[i], List.getElem_mem inside, speculates, same⟩
  · rintro ⟨own, member, speculates, same⟩
    obtain ⟨i, inside, rfl⟩ := List.getElem_of_mem member
    refine ⟨i, ⟨inside, ?_⟩, ?_⟩ <;> rw [List.getD_eq_getElem _ _ inside]
    · exact speculates
    · exact same

theorem getSpecProposals_of_pruned {given : Option HiddenStates}
    (pruned : previous.mapM (·.prune (askedGroups maxProposalLen k groups)) = .ok given) :
    getSpecProposals maxProposalLen vocabSize samplerOutput groups previous k =
      getSpecProposals maxProposalLen vocabSize (fun seqs _ => samplerOutput seqs given) groups none k := by
  unfold getSpecProposals
  rw [splitByProposalLen_eq]
  dsimp only
  rw [pruned]
  rfl

theorem prune_covered (sized : ∀ hs ∈ previous, hs.Shaped) (covered : Covered maxProposalLen k groups previous) :
    previous.mapM (·.prune (askedGroups maxProposalLen k groups)) =
      .ok (handedOn previous (askedGroups maxProposalLen k groups)) := by
  cases previous with
  | none => rfl
  | some hs =>
    have present : ∀ seqId ∈ getAllSeqIds (askedGroups maxProposalLen k groups), seqId ∈ hs.seqIds := by
      intro seqId listed
      obtain ⟨group, asked, rfl⟩ := List.mem_map.mp listed
      obtain ⟨own, member, speculates, rfl⟩ := mem_askedGroups.mp asked
      exact covered hs rfl own member speculates
    obtain ⟨pruned, returned⟩ := HiddenStates.prune_returns (sized hs rfl) present
    have read : handedOn (some hs) (askedGroups maxProposalLen k groups) = some pruned := by
      simp [handedOn, returned, Except.toOption]
    rw [Option.mapM_some, returned, read]
    rfl

theorem getSpecProposals_uncovered (missing : ¬ Covered maxProposalLen k groups previous)
    (proposals : SpeculativeProposals) :
    getSpecProposals maxProposalLen vocabSize samplerOutput groups previous k ≠ .ok proposals := by
  intro returned
  simp only [Covered, not_forall] at missing
  obtain ⟨hs, rfl, own, member, speculates, missing⟩ := missing
  have asked := mem_askedGroups.mpr ⟨own, member, speculates, rfl⟩
  unfold getSpecProposals at returned
  rw [splitByProposalLen_eq] at returned
  simp only [if_neg (List.ne_nil_of_mem asked), Option.mapM_some] at returned
  cases pruned : hs.prune (askedGroups maxProposalLen k groups) with
  | error e =>
    rw [pruned] at returned
    cases returned
  | ok hs' => exact HiddenStates.prune_fails asked missing pruned

end

end Vllm.SpecDecode.Top1
