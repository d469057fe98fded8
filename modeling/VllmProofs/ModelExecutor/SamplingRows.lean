import VllmProofs.ModelExecutor.SamplingMetadata

/-!
Which rows and which logits belong to a group, when the rows of the model's output are laid out group by group; and
the loop of `_prepare_seq_groups`, which selects them.
-/

namespace Vllm.ModelExecutor
open V1 (SamplingParams SamplingType)

variable {batch : Batch} {group : SequenceGroupMetadata} {n i : ℕ} {a b c : ℤ}

/-! ### Ranges -/

@[simp] theorem length_pyRange (a b : ℤ) : (pyRange a b).length = (b - a).toNat := by
  simp [pyRange]

@[simp] theorem mem_pyRange {x : ℤ} : x ∈ pyRange a b ↔ a ≤ x ∧ x < b := by
  simp only [pyRange, List.mem_map, List.mem_range]
  constructor
  · rintro ⟨k, inside, rfl⟩
    omega
  · intro inside
    exact ⟨(x - a).toNat, by omega, by omega⟩

@[simp] theorem pyRange_self (a : ℤ) : pyRange a a = [] := by
  simp [pyRange]

theorem pyRange_append (first : a ≤ b) (second : b ≤ c) : pyRange a b ++ pyRange b c = pyRange a c := by
  unfold pyRange
  have size : (c - a).toNat = (b - a).toNat + (c - b).toNat := by omega
  rw [size, List.range_add, List.map_append, List.map_map]
  congr 1
  apply List.map_congr_left
  intro k _
  simp only [Function.comp_apply, Nat.cast_add]
  omega

theorem pyRange_one (a : ℤ) : pyRange a (a + 1) = [a] := by
  simp [pyRange]

theorem pairwise_pyRange (a b : ℤ) : (pyRange a b).Pairwise (· < ·) := by
  unfold pyRange
  rw [List.pairwise_map]
  refine List.pairwise_lt_range.imp ?_
  intro k l less
  omega

def rowAt (selected : List ℤ) (place : ℤ) : Option ℤ := selected[place.toNat]?

theorem map_rowAt_pyRange (before rows after : List ℤ) :
    (pyRange before.length (before.length + rows.length)).map (rowAt (before ++ rows ++ after)) = rows.map some := by
  have size : ((before.length : ℤ) + rows.length - before.length).toNat = rows.length := by omega
  unfold pyRange rowAt
  rw [size, List.map_map]
  apply List.ext_getElem
  · simp
  · intro k short _
    have inside : k < rows.length := by simpa using short
    have place : ((before.length : ℤ) + k).toNat = before.length + k := by omega
    have row : (before ++ rows ++ after)[before.length + k]? = some rows[k] := by
      rw [List.append_assoc, List.getElem?_append_right (Nat.le_add_right _ _), Nat.add_sub_cancel_left,
        List.getElem?_append_left inside, List.getElem?_eq_getElem inside]
    simp only [List.getElem_map, Function.comp_apply, List.getElem_range, place, row]

theorem rowAt_append {place : ℤ} {selected : List ℤ} (inside : place < selected.length) (nonneg : 0 ≤ place)
    (rows : List ℤ) : rowAt (selected ++ rows) place = rowAt selected place := by
  unfold rowAt
  rw [List.getElem?_append_left (by omega)]

/-! ### The layout -/

/-- The number of query tokens of a sequence of the `i`-th group. -/
def Batch.queryLen (batch : Batch) (i : ℕ) : ℕ := (batch.queryLens.bind (·[i]?)).getD 1

def SequenceGroupMetadata.numRows (group : SequenceGroupMetadata) (queryLen : ℕ) : ℕ :=
  if group.isPrompt then queryLen else group.seqData.length * queryLen

/-- Where the rows of the `i`-th group start. -/
def Batch.start (batch : Batch) (i : ℕ) : ℤ :=
  ((batch.seqGroupMetadataList.zipIdx.take i).map fun entry => (entry.1.numRows (batch.queryLen entry.2) : ℤ)).sum

/-- The rows of a group from `start` on that prompt logprobs are computed from: every row that is not sampled from. -/
def SequenceGroupMetadata.promptLogprobRows (group : SequenceGroupMetadata) (queryLen : ℕ) (start : ℤ) : List ℤ :=
  if group.isPrompt ∧ group.samplingParams.promptLogprobs ≠ none then
    pyRange start (start + queryLen - if group.doSample then 1 else 0)
  else []

/-- The rows that are sampled from: the last of a prompt chunk, and all of a decode. -/
def SequenceGroupMetadata.sampleRows (group : SequenceGroupMetadata) (queryLen : ℕ) (start : ℤ) : List ℤ :=
  if group.doSample then
    if group.isPrompt then [start + queryLen - 1] else pyRange start (start + group.numRows queryLen)
  else []

def Batch.promptLogprobRows (batch : Batch) (i : ℕ) (group : SequenceGroupMetadata) : List ℤ :=
  group.promptLogprobRows (batch.queryLen i) (batch.start i)

def Batch.sampleRows (batch : Batch) (i : ℕ) (group : SequenceGroupMetadata) : List ℤ :=
  group.sampleRows (batch.queryLen i) (batch.start i)

/-- A prompt chunk of one sequence with its lengths, or a decode that samples. -/
def Batch.LaidOut (batch : Batch) : Prop :=
  ∀ (i : ℕ) (group : SequenceGroupMetadata), batch.seqGroupMetadataList[i]? = some group →
    if group.isPrompt then
      group.seqData.length = 1 ∧ (∃ lens, batch.queryLens = some lens ∧ i < lens.length) ∧
        (∃ lens, batch.seqLens = some lens ∧ i < lens.length) ∧ (group.doSample → 1 ≤ batch.queryLen i)
    else group.doSample ∧ ∀ lens, batch.queryLens = some lens → lens = [] ∨ i < lens.length

structure Selects (batch : Batch) (n : ℕ) (groups : List SequenceGroupToSample) (selected : List ℤ)
    (categorized : SamplingType → List ℤ) (numPrompts : ℕ) : Prop where
  length : groups.length = n
  describes : ∀ (i : ℕ) (group : SequenceGroupMetadata) (o : SequenceGroupToSample),
    batch.seqGroupMetadataList[i]? = some group → groups[i]? = some o →
    o.seqIds = group.seqData.map Prod.fst ∧ o.samplingParams = some group.samplingParams ∧
      o.seqData = some group.seqData ∧ o.isPrompt = group.isPrompt
  increasing : selected.Pairwise (· < ·)
  needed : ∀ row, row ∈ selected ↔
    ∃ i < n, ∃ group : SequenceGroupMetadata, batch.seqGroupMetadataList[i]? = some group ∧
      (row ∈ batch.promptLogprobRows i group ∨ row ∈ batch.sampleRows i group)
  partition : groups.flatMap (fun o => o.promptLogprobIndices ++ o.sampleIndices) = pyRange 0 selected.length
  ownRows : ∀ (i : ℕ) (group : SequenceGroupMetadata) (o : SequenceGroupToSample),
    batch.seqGroupMetadataList[i]? = some group → groups[i]? = some o →
    o.promptLogprobIndices.map (rowAt selected) = (batch.promptLogprobRows i group).map some ∧
      o.sampleIndices.map (rowAt selected) = (batch.sampleRows i group).map some
  byType : ∀ type, categorized type =
    (groups.filter fun o => o.samplingParams.any (·.samplingType = type)).flatMap (·.sampleIndices)
  prompts : numPrompts = (batch.seqGroupMetadataList.take n).countP (·.isPrompt)

theorem Batch.start_succ (here : batch.seqGroupMetadataList[n]? = some group) :
    batch.start (n + 1) = batch.start n + group.numRows (batch.queryLen n) := by
  have entry : batch.seqGroupMetadataList.zipIdx[n]? = some (group, n) := by
    rw [List.getElem?_zipIdx, here]
    simp
  unfold Batch.start
  rw [List.take_add_one, entry]
  simp

theorem Batch.start_mono (batch : Batch) {m n : ℕ} (before : m ≤ n) : batch.start m ≤ batch.start n := by
  unfold Batch.start
  obtain ⟨k, rfl⟩ := Nat.exists_eq_add_of_le before
  rw [List.take_add, List.map_append, List.sum_append]
  have rest : 0 ≤ (((batch.seqGroupMetadataList.zipIdx.drop m).take k).map fun entry =>
      (entry.1.numRows (batch.queryLen entry.2) : ℤ)).sum := by
    apply List.sum_nonneg
    intro x member
    obtain ⟨entry, -, rfl⟩ := List.mem_map.mp member
    exact Int.natCast_nonneg _
  omega

/-! ### One group -/

structure LensFit (batch : Batch) (i : ℕ) (group : SequenceGroupMetadata) (lens : SampleLens) : Prop where
  promptLogprobLen : 0 ≤ lens.promptLogprobLen
  sampleLen : 0 ≤ lens.sampleLen
  numRows : lens.promptLogprobLen + lens.sampleLen = group.numRows (batch.queryLen i)
  promptLogprobRows : ∀ start, group.samplingParams.promptLogprobs ≠ none →
    pyRange start (start + lens.promptLogprobLen) = group.promptLogprobRows (batch.queryLen i) start
  sampleRows : ∀ start, group.doSample →
    pyRange (start + lens.promptLogprobLen) (start + lens.promptLogprobLen + lens.sampleLen) =
      group.sampleRows (batch.queryLen i) start
  prompt : group.isPrompt → lens.seqLen ≠ none ∧ lens.queryLen ≠ none

theorem decodeQueryLen_eq (inside : ∀ lens, batch.queryLens = some lens → lens = [] ∨ i < lens.length) :
    decodeQueryLen batch.queryLens i = .ok (batch.queryLen i) := by
  unfold Batch.queryLen decodeQueryLen
  cases given : batch.queryLens with
  | none => rfl
  | some queryLens =>
    rcases queryLens with _ | ⟨first, rest⟩
    · rfl
    · have inside : i < (first :: rest).length := (inside _ given).resolve_left (List.cons_ne_nil _ _)
      simp only [item, Option.bind_some]
      rw [List.getElem?_eq_getElem inside]
      rfl

theorem sampleLens_fit (laid : batch.LaidOut) (here : batch.seqGroupMetadataList[i]? = some group) (g : Generators) :
    ∃ lens g', sampleLens batch i group g = .ok (lens, g') ∧ LensFit batch i group lens := by
  have laid := laid i group here
  unfold sampleLens
  cases kind : group.isPrompt
  · rw [kind] at laid
    obtain ⟨samples, lens⟩ := laid
    refine ⟨_, _, by simp only [decodeLens, decodeQueryLen_eq lens]; rfl, ?_⟩
    constructor
    · exact le_rfl
    · simp only [samples, if_true]
      exact_mod_cast Nat.zero_le _
    · simp [SequenceGroupMetadata.numRows, kind, samples]
    · intro start _
      simp [SequenceGroupMetadata.promptLogprobRows, kind]
    · intro start _
      simp [SequenceGroupMetadata.sampleRows, SequenceGroupMetadata.numRows, kind, samples]
    · intro prompt
      rw [kind] at prompt
      cases prompt
  · rw [kind] at laid
    obtain ⟨single, ⟨queryLens, givenQuery, insideQuery⟩, ⟨seqLens, givenSeq, insideSeq⟩, nonempty⟩ := laid
    have queryLen : batch.queryLen i = queryLens[i] := by
      simp [Batch.queryLen, givenQuery, insideQuery]
    refine ⟨_, _, by
      simp only [promptLens, single, givenQuery, givenSeq, item, List.getElem?_eq_getElem insideQuery,
        List.getElem?_eq_getElem insideSeq]
      rfl, ?_⟩
    constructor
    · cases samples : group.doSample
      · simp
      · have nonempty := nonempty samples
        rw [queryLen] at nonempty
        simpa using nonempty
    · dsimp only
      split <;> simp
    · cases samples : group.doSample <;> simp [SequenceGroupMetadata.numRows, kind, queryLen]
    · intro start wanted
      cases samples : group.doSample <;>
        simp [SequenceGroupMetadata.promptLogprobRows, kind, queryLen, wanted, samples, add_sub_assoc]
    · intro start samples
      have one := pyRange_one (start + (queryLens[i] - 1 : ℤ))
      simp only [SequenceGroupMetadata.sampleRows, kind, queryLen, samples, if_true, Nat.cast_one]
      rw [one, add_sub_assoc]
    · intro _
      simp

variable {lens : SampleLens}

theorem promptLogprobRows_none (none : group.samplingParams.promptLogprobs = none) (queryLen : ℕ) (start : ℤ) :
    group.promptLogprobRows queryLen start = [] := by
  simp [SequenceGroupMetadata.promptLogprobRows, none]

section
variable (fit : LensFit batch i group lens)
include fit

theorem LensFit.length_promptLogprobRows (start : ℤ)
    (wanted : group.samplingParams.promptLogprobs ≠ none) :
    ((group.promptLogprobRows (batch.queryLen i) start).length : ℤ) = lens.promptLogprobLen := by
  have nonneg := fit.promptLogprobLen
  rw [← fit.promptLogprobRows start wanted, length_pyRange]
  omega

theorem LensFit.length_sampleRows (start : ℤ) (samples : group.doSample) :
    ((group.sampleRows (batch.queryLen i) start).length : ℤ) = lens.sampleLen := by
  have nonneg := fit.sampleLen
  rw [← fit.sampleRows start samples, length_pyRange]
  omega

/-- The group's rows are selected, and all of its rows passed. -/
theorem LensFit.selectRows (c : Counters) (start : c.modelOutputIdx = batch.start i) :
    c.selectRows group lens =
      { c with
        selectedTokenIndices :=
          c.selectedTokenIndices ++ (batch.promptLogprobRows i group ++ batch.sampleRows i group)
        modelOutputIdx := batch.start i + group.numRows (batch.queryLen i) } := by
  have passed := fit.numRows
  have first : (if group.samplingParams.promptLogprobs ≠ none then
      c.selectedTokenIndices ++ pyRange c.modelOutputIdx (c.modelOutputIdx + lens.promptLogprobLen)
      else c.selectedTokenIndices) = c.selectedTokenIndices ++ batch.promptLogprobRows i group := by
    rw [start]
    split
    · rename_i wanted
      rw [fit.promptLogprobRows _ wanted]
      rfl
    · rename_i unwanted
      rw [Batch.promptLogprobRows, promptLogprobRows_none (not_not.mp unwanted), List.append_nil]
  have second : ∀ selected : List ℤ,
      (if group.doSample then selected ++ pyRange (c.modelOutputIdx + lens.promptLogprobLen)
        (c.modelOutputIdx + lens.promptLogprobLen + lens.sampleLen) else selected) =
      selected ++ batch.sampleRows i group := by
    intro selected
    rw [start]
    split
    · rename_i samples
      rw [fit.sampleRows _ samples]
      rfl
    · rename_i quiet
      simp [Batch.sampleRows, SequenceGroupMetadata.sampleRows, quiet]
  unfold Counters.selectRows
  rw [first]
  dsimp only
  rw [second, List.append_assoc, ← passed, start, add_assoc]

/-- The logits of the group's rows come after those that are placed. -/
theorem LensFit.placeLogits (c : Counters) (prompts samples : ℤ)
    (promptRows : prompts = (batch.promptLogprobRows i group).length)
    (sampleRows : samples = (batch.sampleRows i group).length) :
    c.placeLogits group lens =
      (pyRange c.logitIdx (c.logitIdx + prompts), pyRange (c.logitIdx + prompts) (c.logitIdx + prompts + samples),
        { c with
          logitIdx := c.logitIdx + prompts + samples
          categorizedSampleIndices := fun type => c.categorizedSampleIndices type ++
            if group.samplingParams.samplingType = type then
              pyRange (c.logitIdx + prompts) (c.logitIdx + prompts + samples)
            else [] }) := by
  have first : (if group.samplingParams.promptLogprobs ≠ none then
      (pyRange c.logitIdx (c.logitIdx + lens.promptLogprobLen), c.logitIdx + lens.promptLogprobLen)
      else ([], c.logitIdx)) = (pyRange c.logitIdx (c.logitIdx + prompts), c.logitIdx + prompts) := by
    split
    · rename_i wanted
      rw [promptRows, Batch.promptLogprobRows, fit.length_promptLogprobRows _ wanted]
    · rename_i unwanted
      rw [promptRows, Batch.promptLogprobRows, promptLogprobRows_none (not_not.mp unwanted)]
      simp
  unfold Counters.placeLogits
  rw [first]
  dsimp only
  cases quiet : group.doSample
  · have none : samples = 0 := by
      rw [sampleRows, Batch.sampleRows]
      simp [SequenceGroupMetadata.sampleRows, quiet]
    simp [none]
  · rw [if_pos rfl, sampleRows, Batch.sampleRows, fit.length_sampleRows _ quiet]
    congr 4
    funext type
    by_cases same : group.samplingParams.samplingType = type
    · subst same
      simp
    · rw [Function.update_of_ne (Ne.symm same), if_neg same, List.append_nil]

end

def Batch.countersAfter (batch : Batch) (n : ℕ) (group : SequenceGroupMetadata) (c : Counters) : Counters :=
  let first := c.logitIdx + (batch.promptLogprobRows n group).length
  let second := first + (batch.sampleRows n group).length
  { selectedTokenIndices := c.selectedTokenIndices ++ (batch.promptLogprobRows n group ++ batch.sampleRows n group)
    modelOutputIdx := batch.start n + group.numRows (batch.queryLen n)
    categorizedSampleIndices := fun type => c.categorizedSampleIndices type ++
      if group.samplingParams.samplingType = type then pyRange first second else []
    logitIdx := second
    numPrompts := c.numPrompts + if group.isPrompt then 1 else 0 }

theorem LensFit.addGroup (fit : LensFit batch i group lens) (c : Counters)
    (start : c.modelOutputIdx = batch.start i) :
    c.addGroup group lens =
      (pyRange c.logitIdx (c.logitIdx + (batch.promptLogprobRows i group).length),
        pyRange (c.logitIdx + (batch.promptLogprobRows i group).length)
          (c.logitIdx + (batch.promptLogprobRows i group).length + (batch.sampleRows i group).length),
        batch.countersAfter i group c) := by
  have selected := fit.selectRows { c with numPrompts := c.numPrompts + if group.isPrompt then 1 else 0 } start
  unfold Counters.addGroup
  dsimp only
  rw [selected, fit.placeLogits _ _ _ rfl rfl]
  rfl

/-! ### The loop -/

theorem lt_start_succ (laid : batch.LaidOut) (here : batch.seqGroupMetadataList[i]? = some group) {row : ℤ}
    (own : row ∈ batch.promptLogprobRows i group ++ batch.sampleRows i group) :
    batch.start i ≤ row ∧ row < batch.start (i + 1) := by
  obtain ⟨lens, -, -, fit⟩ := sampleLens_fit laid here {}
  have first := fit.promptLogprobLen
  have second := fit.sampleLen
  have rows := fit.numRows
  have next := Batch.start_succ here
  rcases List.mem_append.mp own with prompt | sample
  · by_cases wanted : group.samplingParams.promptLogprobs = none
    · rw [Batch.promptLogprobRows, promptLogprobRows_none wanted] at prompt
      cases prompt
    · rw [Batch.promptLogprobRows, ← fit.promptLogprobRows _ wanted, mem_pyRange] at prompt
      omega
  · cases samples : group.doSample
    · rw [Batch.sampleRows, SequenceGroupMetadata.sampleRows, samples] at sample
      cases sample
    · rw [Batch.sampleRows, ← fit.sampleRows _ samples, mem_pyRange] at sample
      omega

theorem pairwise_rows (laid : batch.LaidOut) (here : batch.seqGroupMetadataList[i]? = some group) :
    (batch.promptLogprobRows i group ++ batch.sampleRows i group).Pairwise (· < ·) := by
  obtain ⟨lens, -, -, fit⟩ := sampleLens_fit laid here {}
  unfold Batch.promptLogprobRows Batch.sampleRows
  by_cases wanted : group.samplingParams.promptLogprobs = none
  · rw [promptLogprobRows_none wanted, List.nil_append]
    cases samples : group.doSample
    · simp [SequenceGroupMetadata.sampleRows, samples]
    · rw [← fit.sampleRows _ samples]
      exact pairwise_pyRange _ _
  · cases samples : group.doSample
    · have quiet : group.sampleRows (batch.queryLen i) (batch.start i) = [] := by
        simp [SequenceGroupMetadata.sampleRows, samples]
      rw [quiet, List.append_nil, ← fit.promptLogprobRows _ wanted]
      exact pairwise_pyRange _ _
    · rw [← fit.promptLogprobRows _ wanted, ← fit.sampleRows _ samples,
        pyRange_append (by have := fit.promptLogprobLen; omega) (by have := fit.sampleLen; omega)]
      exact pairwise_pyRange _ _

structure Describes (batch : Batch) (i : ℕ) (group : SequenceGroupMetadata) (selected : List ℤ)
    (o : SequenceGroupToSample) : Prop where
  seqIds : o.seqIds = group.seqData.map Prod.fst
  samplingParams : o.samplingParams = some group.samplingParams
  seqData : o.seqData = some group.seqData
  isPrompt : o.isPrompt = group.isPrompt
  promptLogprobIndices :
    o.promptLogprobIndices = pyRange selected.length (selected.length + (batch.promptLogprobRows i group).length)
  sampleIndices :
    o.sampleIndices = pyRange (selected.length + (batch.promptLogprobRows i group).length)
      (selected.length + (batch.promptLogprobRows i group).length + (batch.sampleRows i group).length)

theorem Selects.empty (batch : Batch) : Selects batch 0 [] [] (fun _ => []) 0 where
  length := rfl
  describes := by simp
  increasing := List.Pairwise.nil
  needed := by simp
  partition := rfl
  ownRows := by simp
  byType _ := rfl
  prompts := rfl

variable {groups : List SequenceGroupToSample} {selected : List ℤ} {categorized : SamplingType → List ℤ}
  {numPrompts : ℕ}

section
variable (selects : Selects batch n groups selected categorized numPrompts)
include selects

theorem Selects.lt_start (laid : batch.LaidOut)
    {row : ℤ} (member : row ∈ selected) : row < batch.start n := by
  obtain ⟨i, before, group, here, own⟩ := (selects.needed row).mp member
  have below := (lt_start_succ laid here (List.mem_append.mpr own)).2
  exact below.trans_le (batch.start_mono before)

theorem Selects.inside {o : SequenceGroupToSample}
    (member : o ∈ groups) {place : ℤ} (own : place ∈ o.promptLogprobIndices ∨ place ∈ o.sampleIndices) :
    0 ≤ place ∧ place < selected.length := by
  rw [← mem_pyRange, ← selects.partition, List.mem_flatMap]
  exact ⟨o, member, List.mem_append.mpr own⟩

/-- The next group's rows are selected. -/
theorem Selects.next (laid : batch.LaidOut)
    (here : batch.seqGroupMetadataList[n]? = some group) {o : SequenceGroupToSample}
    (describes : Describes batch n group selected o) :
    Selects batch (n + 1) (groups ++ [o])
      (selected ++ (batch.promptLogprobRows n group ++ batch.sampleRows n group))
      (fun type => categorized type ++ if group.samplingParams.samplingType = type then o.sampleIndices else [])
      (numPrompts + if group.isPrompt then 1 else 0) := by
  -- an entry of the list is the new one, or an earlier one
  have cases : ∀ (i : ℕ) (group' : SequenceGroupMetadata) (o' : SequenceGroupToSample),
      batch.seqGroupMetadataList[i]? = some group' → (groups ++ [o])[i]? = some o' →
        (groups[i]? = some o') ∨ (i = n ∧ group' = group ∧ o' = o) := by
    intro i group' o' there found
    rcases Nat.lt_or_ge i groups.length with old | new
    · rw [List.getElem?_append_left old] at found
      exact Or.inl found
    · rw [List.getElem?_append_right new, List.getElem?_singleton] at found
      split at found
      · have last : i = n := by
          have length := selects.length
          omega
        subst last
        rw [there] at here
        exact Or.inr ⟨rfl, Option.some.inj here, (Option.some.inj found).symm⟩
      · cases found
  constructor
  · rw [List.length_append, selects.length]
    rfl
  · intro i group' o' there found
    rcases cases i group' o' there found with old | ⟨rfl, rfl, rfl⟩
    · exact selects.describes i group' o' there old
    · exact ⟨describes.seqIds, describes.samplingParams, describes.seqData, describes.isPrompt⟩
  · refine List.pairwise_append.mpr ⟨selects.increasing, pairwise_rows laid here, fun row old row' new => ?_⟩
    exact (selects.lt_start laid old).trans_le (lt_start_succ laid here new).1
  · intro row
    rw [List.mem_append, selects.needed]
    constructor
    · rintro (⟨i, before, group', there, own⟩ | new)
      · exact ⟨i, Nat.lt_succ_of_lt before, group', there, own⟩
      · exact ⟨n, Nat.lt_succ_self n, group, here, List.mem_append.mp new⟩
    · rintro ⟨i, before, group', there, own⟩
      rcases Nat.lt_succ_iff_lt_or_eq.mp before with before | rfl
      · exact Or.inl ⟨i, before, group', there, own⟩
      · rw [here] at there
        cases there
        exact Or.inr (List.mem_append.mpr own)
  · rw [List.flatMap_append, selects.partition, List.flatMap_singleton, describes.promptLogprobIndices,
      describes.sampleIndices, pyRange_append (by omega) (by omega), pyRange_append (by omega) (by omega)]
    congr 1
    simp only [List.length_append, Nat.cast_add]
    omega
  · intro i group' o' there found
    rcases cases i group' o' there found with old | ⟨rfl, rfl, rfl⟩
    · obtain ⟨prompts, samples⟩ := selects.ownRows i group' o' there old
      have inside : ∀ place, place ∈ o'.promptLogprobIndices ∨ place ∈ o'.sampleIndices →
          0 ≤ place ∧ place < selected.length := fun place => selects.inside (List.mem_of_getElem? old)
      rw [← prompts, ← samples]
      constructor
      · exact List.map_congr_left fun place own =>
          rowAt_append (inside place (Or.inl own)).2 (inside place (Or.inl own)).1 _
      · exact List.map_congr_left fun place own =>
          rowAt_append (inside place (Or.inr own)).2 (inside place (Or.inr own)).1 _
    · rw [describes.promptLogprobIndices, describes.sampleIndices]
      constructor
      · rw [← List.append_assoc]
        exact map_rowAt_pyRange _ _ _
      · have last := map_rowAt_pyRange (selected ++ batch.promptLogprobRows i group') (batch.sampleRows i group') []
        rw [List.append_nil, List.append_assoc, List.length_append, Nat.cast_add] at last
        exact last
  · intro type
    rw [List.filter_append, List.flatMap_append, ← selects.byType type]
    congr 1
    rw [List.filter_singleton, describes.samplingParams]
    simp only [Option.any_some]
    by_cases same : group.samplingParams.samplingType = type <;> simp [same]
  · rw [selects.prompts, List.take_add_one, here, Option.toList_some, List.countP_append]
    cases kind : group.isPrompt <;> simp [kind]

end

end Vllm.ModelExecutor
