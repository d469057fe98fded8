import VllmProofs.Sequence
import VllmProofs.V1.Request

/-!
`_prepare_seq_groups` of `vllm/model_executor/sampling_metadata.py`: which rows of the model's output get
logits, and which of the logits each group samples from or computes prompt logprobs of. The objects it returns may
come from a `SamplingMetadataCache`, which hands out objects one after another and again after a reset.
-/

namespace Vllm.ModelExecutor

structure PyObjectCache (α : Type) where
  index : ℕ := 0
  objCache : List α

namespace PyObjectCache

variable {α : Type}

/-- `PyObjectCache(obj_builder)`; `object` is what the builder returns. -/
def init (object : α) : PyObjectCache α where
  objCache := List.replicate 128 object

def growCache (object : α) (c : PyObjectCache α) : PyObjectCache α :=
  { c with objCache := c.objCache ++ List.replicate c.objCache.length object }

def getObject (object : α) (c : PyObjectCache α) : Except PyError (ℕ × PyObjectCache α) :=
  let c := if c.objCache.length ≤ c.index then c.growCache object else c
  if c.index < c.objCache.length then .ok (c.index, { c with index := c.index + 1 }) else .error .assertionError

def reset (c : PyObjectCache α) : PyObjectCache α := { c with index := 0 }

end PyObjectCache

/-- The caches, by the size of their objects. -/
abbrev SizedCaches (α : Type) := ℕ → Option (PyObjectCache α)

namespace SizedCaches

variable {α : Type}

def get? (c : SizedCaches α) (size place : ℕ) : Option α := (c size).bind (·.objCache[place]?)

/-- How many objects of a size are handed out. -/
def handedOut (c : SizedCaches α) (size : ℕ) : ℕ := ((c size).map (·.index)).getD 0

def getCached (build : ℕ → α) (size : ℕ) (c : SizedCaches α) : Except PyError (ℕ × SizedCaches α) := do
  let (place, objects) ← ((c size).getD (.init (build size))).getObject (build size)
  return (place, Function.update c size (some objects))

def modify (size place : ℕ) (f : α → α) (c : SizedCaches α) : SizedCaches α :=
  Function.update c size ((c size).map fun objects => { objects with objCache := objects.objCache.modify place f })

def reset (c : SizedCaches α) : SizedCaches α := fun size => (c size).map PyObjectCache.reset

/-- Each cache has objects, of the kind that belongs to its size. -/
def Sized (good : ℕ → α → Prop) (c : SizedCaches α) : Prop :=
  ∀ size objects, c size = some objects →
    objects.index ≤ objects.objCache.length ∧ 0 < objects.objCache.length ∧ ∀ o ∈ objects.objCache, good size o

/-- The objects handed out are the same, and still handed out. -/
def Keeps (c c' : SizedCaches α) : Prop :=
  ∀ size, c.handedOut size ≤ c'.handedOut size ∧
    ∀ place < c.handedOut size, c'.get? size place = c.get? size place

variable {good : ℕ → α → Prop} {build : ℕ → α} {c c' c'' : SizedCaches α}

theorem sized_empty : Sized good (fun _ => none) := nofun

theorem Sized.reset (sized : Sized good c) : Sized good c.reset := by
  intro size objects found
  obtain ⟨old, there, rfl⟩ := Option.map_eq_some_iff.mp found
  obtain ⟨-, nonempty, all⟩ := sized size old there
  exact ⟨Nat.zero_le _, nonempty, all⟩

@[simp] theorem get?_reset (c : SizedCaches α) (size place : ℕ) : c.reset.get? size place = c.get? size place := by
  unfold get? SizedCaches.reset
  cases c size <;> rfl

theorem Sized.start (sized : Sized good c) (builds : ∀ size, good size (build size)) (size : ℕ) :
    ((c size).getD (.init (build size))).index = c.handedOut size ∧
      (∀ place < c.handedOut size,
        ((c size).getD (.init (build size))).objCache[place]? = c.get? size place) ∧
      c.handedOut size ≤ ((c size).getD (.init (build size))).objCache.length ∧
      0 < ((c size).getD (.init (build size))).objCache.length ∧
      ∀ o ∈ ((c size).getD (.init (build size))).objCache, good size o := by
  unfold handedOut get?
  cases found : c size with
  | none =>
    refine ⟨rfl, fun _ handed => absurd handed (Nat.not_lt_zero _), Nat.zero_le _, by simp [PyObjectCache.init], ?_⟩
    intro o member
    rw [List.eq_of_mem_replicate member]
    exact builds size
  | some objects =>
    obtain ⟨bound, some, all⟩ := sized size objects found
    exact ⟨rfl, fun _ _ => rfl, bound, some, all⟩

/-- The next object is one that is not handed out. -/
theorem Sized.getCached (sized : Sized good c) (builds : ∀ size, good size (build size)) (size : ℕ) :
    ∃ c' o, c.getCached build size = .ok (c.handedOut size, c') ∧ Sized good c' ∧ Keeps c c' ∧
      c'.handedOut size = c.handedOut size + 1 ∧ c'.get? size (c.handedOut size) = some o ∧ good size o := by
  obtain ⟨index, same, bound, some, all⟩ := sized.start builds size
  have call : c.getCached build size = (((c size).getD (.init (build size))).getObject (build size)).map
      fun r => (r.1, Function.update c size (Option.some r.2)) := by
    unfold SizedCaches.getCached
    cases ((c size).getD (.init (build size))).getObject (build size) <;> rfl
  -- the cache after it has grown, if it has to
  have grown : ∃ objects : PyObjectCache α,
      ((c size).getD (.init (build size))).getObject (build size) =
        .ok (c.handedOut size, { objects with index := c.handedOut size + 1 }) ∧
      (∀ place < c.handedOut size, objects.objCache[place]? = c.get? size place) ∧
      c.handedOut size < objects.objCache.length ∧ ∀ o ∈ objects.objCache, good size o := by
    generalize (c size).getD (.init (build size)) = objects at index same bound some all
    unfold PyObjectCache.getObject
    dsimp only
    by_cases full : objects.objCache.length ≤ objects.index
    · rw [if_pos full]
      have room : objects.index < (objects.growCache (build size)).objCache.length := by
        simp only [PyObjectCache.growCache, List.length_append, List.length_replicate]
        omega
      refine ⟨objects.growCache (build size), ?_, ?_, index ▸ room, ?_⟩
      · rw [if_pos (by exact room), ← index]
        rfl
      · intro place handed
        rw [← same place handed]
        exact List.getElem?_append_left (handed.trans_le bound)
      · intro o member
        rcases List.mem_append.mp member with old | new
        · exact all o old
        · rw [List.eq_of_mem_replicate new]
          exact builds size
    · rw [if_neg full, if_pos (Nat.lt_of_not_le full), ← index]
      exact ⟨objects, rfl, by rwa [index], Nat.lt_of_not_le full, all⟩
  obtain ⟨objects, given, same, room, all⟩ := grown
  have here : (Function.update c size (Option.some { objects with index := c.handedOut size + 1 })) size =
      Option.some { objects with index := c.handedOut size + 1 } := Function.update_self _ _ _
  refine ⟨_, objects.objCache[c.handedOut size], by rw [call, given]; rfl, ?_, ?_, ?_, ?_, ?_⟩
  · intro size' objects' found
    by_cases own : size' = size
    · subst own
      rw [here] at found
      cases found
      exact ⟨room, Nat.zero_lt_of_lt room, all⟩
    · rw [Function.update_of_ne own] at found
      exact sized size' objects' found
  · intro size'
    by_cases own : size' = size
    · subst own
      refine ⟨by simp [handedOut], fun place handed => ?_⟩
      rw [get?, here]
      exact same place handed
    · simp [handedOut, get?, Function.update_of_ne own]
  · simp [handedOut]
  · rw [get?, here]
    exact List.getElem?_eq_getElem room
  · exact all _ (List.getElem_mem room)

@[simp] theorem handedOut_modify (c : SizedCaches α) (size place : ℕ) (f : α → α) (size' : ℕ) :
    (c.modify size place f).handedOut size' = c.handedOut size' := by
  unfold handedOut SizedCaches.modify
  by_cases own : size' = size
  · subst own
    rw [Function.update_self]
    cases c size' <;> rfl
  · rw [Function.update_of_ne own]

theorem get?_modify_self (c : SizedCaches α) (size place : ℕ) (f : α → α) :
    (c.modify size place f).get? size place = (c.get? size place).map f := by
  unfold get? SizedCaches.modify
  rw [Function.update_self]
  cases c size with
  | none => rfl
  | some objects => simp

theorem get?_modify_of_ne {size place size' place' : ℕ} (c : SizedCaches α) (f : α → α)
    (other : size' = size → place' ≠ place) : (c.modify size place f).get? size' place' = c.get? size' place' := by
  unfold get? SizedCaches.modify
  by_cases own : size' = size
  · subst own
    rw [Function.update_self]
    cases c size' with
    | none => rfl
    | some objects => simp [(other rfl).symm]
  · rw [Function.update_of_ne own]

theorem Keeps.modify (keeps : Keeps c c') {size place : ℕ} (fresh : c.handedOut size ≤ place) (f : α → α) :
    Keeps c (c'.modify size place f) := by
  intro size'
  refine ⟨by rw [handedOut_modify]; exact (keeps size').1, fun place' handed => ?_⟩
  rw [get?_modify_of_ne]
  · exact (keeps size').2 place' handed
  · rintro rfl rfl
    exact absurd handed (Nat.not_lt_of_le fresh)

theorem Sized.modify (sized : Sized good c) {f : α → α} (size place : ℕ)
    (keeps : ∀ o, good size o → good size (f o)) :
    Sized good (c.modify size place f) := by
  intro size' objects found
  by_cases own : size' = size
  · subst own
    rw [SizedCaches.modify, Function.update_self] at found
    obtain ⟨old, there, rfl⟩ := Option.map_eq_some_iff.mp found
    obtain ⟨bound, nonempty, all⟩ := sized size' old there
    refine ⟨by simpa using bound, by simpa using nonempty, ?_⟩
    intro o member
    obtain ⟨i, inside, rfl⟩ := List.mem_iff_getElem.mp member
    rw [List.getElem_modify]
    split
    · exact keeps _ (all _ (List.getElem_mem _))
    · exact all _ (List.getElem_mem _)
  · rw [SizedCaches.modify, Function.update_of_ne own] at found
    exact sized size' objects found

end SizedCaches
end Vllm.ModelExecutor

namespace Vllm.ModelExecutor
open V1 (SamplingParams SamplingType)

abbrev RequestId := ℕ
abbrev SequenceDataRef := ℕ

structure SequenceGroupMetadata where
  requestId : RequestId
  isPrompt : Bool
  /-- In the order of the dictionary. -/
  seqData : List (SeqId × SequenceDataRef)
  samplingParams : SamplingParams
  doSample : Bool := true
  distinct : (seqData.map Prod.fst).Nodup := by decide

structure Generator where
  seed : ℤ
  number : ℕ
  deriving DecidableEq, Repr

/-- The generators made so far, and those that are stored. -/
structure Generators where
  made : ℕ := 0
  store : Option (RequestId → Option Generator) := some fun _ => none

structure SequenceGroupToSample where
  seqIds : List SeqId
  samplingParams : Option SamplingParams
  seqData : Option (List (SeqId × SequenceDataRef))
  seqLen : Option ℕ
  queryLen : Option ℕ
  generator : Option Generator
  isPrompt : Bool
  promptLogprobIndices : List ℤ
  sampleIndices : List ℤ
  deriving DecidableEq

def SequenceGroupToSample.postInit (o : SequenceGroupToSample) : Except PyError SequenceGroupToSample :=
  if o.promptLogprobIndices ≠ [] ∧ o.samplingParams.bind (·.promptLogprobs) = none then .error .assertionError
  else if o.isPrompt ∧ (o.seqLen = none ∨ o.queryLen = none) then .error .assertionError
  else .ok o

def genSeqGroupToSampleBuilder (numSeqs : ℕ) : SequenceGroupToSample where
  seqIds := List.replicate numSeqs 0
  samplingParams := none
  seqData := none
  seqLen := some 0
  queryLen := some 0
  generator := none
  isPrompt := true
  promptLogprobIndices := []
  sampleIndices := []

abbrev SamplingMetadataCache := SizedCaches SequenceGroupToSample

/-- An entry of `seq_groups`. -/
inductive SampleObj where
  | cached (numSeqs place : ℕ)
  | object (o : SequenceGroupToSample)

/-- What `_prepare_seq_groups` is called with, and the requests that finished before. -/
structure Batch where
  seqGroupMetadataList : List SequenceGroupMetadata
  seqLens : Option (List ℕ)
  queryLens : Option (List ℕ)
  finishedRequestIds : List RequestId := []

def pyRange (a b : ℤ) : List ℤ := (List.range (b - a).toNat).map fun k : ℕ => a + k

structure Counters where
  selectedTokenIndices : List ℤ := []
  modelOutputIdx : ℤ := 0
  categorizedSampleIndices : SamplingType → List ℤ := fun _ => []
  logitIdx : ℤ := 0
  numPrompts : ℕ := 0

structure SampleLens where
  generator : Option Generator
  seqLen : Option ℕ
  queryLen : Option ℕ
  promptLogprobLen : ℤ
  sampleLen : ℤ

structure Loop where
  cache : Option SamplingMetadataCache
  generators : Generators
  seqGroups : List SampleObj := []
  counters : Counters := {}

/-- `get_generators` of `vllm/worker/model_runner_base.py` -/
def Generators.getGenerators (finishedRequestIds : List RequestId) (g : Generators) : Generators :=
  { g with store := g.store.map fun store id => if id ∈ finishedRequestIds then none else store id }

/-- A new generator is stored under the request's id, when they are stored. -/
def Generators.seed (group : SequenceGroupMetadata) (g : Generators) : Option Generator × Generators :=
  match group.samplingParams.seed with
  | none => (none, g)
  | some seed =>
    let generator := { seed, number := g.made }
    (some generator, { made := g.made + 1
                       store := g.store.map fun store => Function.update store group.requestId (some generator) })

def item (lens : List ℕ) (i : ℕ) : Except PyError ℕ :=
  match lens[i]? with
  | none => .error .indexError
  | some len => .ok len

def promptLens (batch : Batch) (i : ℕ) (group : SequenceGroupMetadata) (g : Generators) :
    Except PyError (SampleLens × Generators) := do
  let (generator, g) := g.seed group
  let numPrefillSample := group.seqData.length
  if numPrefillSample ≠ 1 then throw .assertionError
  match batch.queryLens, batch.seqLens with
  | some queryLens, some seqLens =>
    let queryLen ← item queryLens i
    let seqLen ← item seqLens i
    -- the prompt logprobs leave out the token that is sampled from
    let promptLogprobLen : ℤ := if group.doSample then queryLen - numPrefillSample else queryLen
    let sampleLen : ℤ := if group.doSample then numPrefillSample else 0
    return ({ generator, seqLen := some seqLen, queryLen := some queryLen, promptLogprobLen, sampleLen }, g)
  | _, _ => throw .assertionError

/-- `query_lens[i] if query_lens is not None and len(query_lens) > 0 else 1` -/
def decodeQueryLen (queryLens : Option (List ℕ)) (i : ℕ) : Except PyError ℕ :=
  match queryLens with
  | none | some [] => .ok 1
  | some queryLens => item queryLens i

def decodeLens (batch : Batch) (i : ℕ) (group : SequenceGroupMetadata) (g : Generators) :
    Except PyError (SampleLens × Generators) := do
  let queryLen ← decodeQueryLen batch.queryLens i
  let sampleLen : ℤ := if group.doSample then group.seqData.length * queryLen else 0
  let generator :=
    if group.samplingParams.seed ≠ none then g.store.bind fun store => store group.requestId else none
  return ({ generator, seqLen := none, queryLen := some queryLen, promptLogprobLen := 0, sampleLen }, g)

def sampleLens (batch : Batch) (i : ℕ) (group : SequenceGroupMetadata) (g : Generators) :
    Except PyError (SampleLens × Generators) :=
  if group.isPrompt then promptLens batch i group g else decodeLens batch i group g

/-- The rows that `selected_token_indices` takes from the model's output. -/
def Counters.selectRows (group : SequenceGroupMetadata) (lens : SampleLens) (c : Counters) : Counters :=
  let selected :=
    if group.samplingParams.promptLogprobs ≠ none then
      c.selectedTokenIndices ++ pyRange c.modelOutputIdx (c.modelOutputIdx + lens.promptLogprobLen)
    else c.selectedTokenIndices
  let modelOutputIdx := c.modelOutputIdx + lens.promptLogprobLen
  let selected :=
    if group.doSample then selected ++ pyRange modelOutputIdx (modelOutputIdx + lens.sampleLen) else selected
  { c with selectedTokenIndices := selected, modelOutputIdx := modelOutputIdx + lens.sampleLen }

/-- The logits that the group's prompt logprobs and samples come from. -/
def Counters.placeLogits (group : SequenceGroupMetadata) (lens : SampleLens) (c : Counters) :
    List ℤ × List ℤ × Counters :=
  let (promptLogprobIndices, logitIdx) :=
    if group.samplingParams.promptLogprobs ≠ none then
      (pyRange c.logitIdx (c.logitIdx + lens.promptLogprobLen), c.logitIdx + lens.promptLogprobLen)
    else ([], c.logitIdx)
  if group.doSample then
    let sampleIndices := pyRange logitIdx (logitIdx + lens.sampleLen)
    let type := group.samplingParams.samplingType
    (promptLogprobIndices, sampleIndices,
      { c with
        logitIdx := logitIdx + lens.sampleLen
        categorizedSampleIndices :=
          Function.update c.categorizedSampleIndices type (c.categorizedSampleIndices type ++ sampleIndices) })
  else (promptLogprobIndices, [], { c with logitIdx })

/-- `for j, seq_id in enumerate(seq_ids): sample_obj.seq_ids[j] = seq_id`, and the lists are cleared. -/
def SequenceGroupToSample.reuse (seqIds : List SeqId) (o : SequenceGroupToSample) : SequenceGroupToSample :=
  { o with
    seqIds := seqIds.zipIdx.foldl (fun ids entry => ids.set entry.2 entry.1) o.seqIds
    promptLogprobIndices := []
    sampleIndices := [] }

def takeSampleObj (seqIds : List SeqId) :
    Option SamplingMetadataCache → Except PyError (Option (ℕ × SamplingMetadataCache))
  | none => .ok none
  | some cache => do
    let (place, cache) ← cache.getCached genSeqGroupToSampleBuilder seqIds.length
    if (cache.get? seqIds.length place).any (·.seqIds.length < seqIds.length) then throw .indexError
    return some (place, cache.modify seqIds.length place (·.reuse seqIds))

/-- The lists of `sample_obj` are extended and its other fields assigned. -/
def SequenceGroupToSample.fill (group : SequenceGroupMetadata) (lens : SampleLens)
    (promptLogprobIndices sampleIndices : List ℤ) (o : SequenceGroupToSample) : SequenceGroupToSample :=
  { o with
    promptLogprobIndices := o.promptLogprobIndices ++ promptLogprobIndices
    sampleIndices := o.sampleIndices ++ sampleIndices
    samplingParams := some group.samplingParams
    seqData := some group.seqData
    seqLen := lens.seqLen
    queryLen := lens.queryLen
    generator := lens.generator
    isPrompt := group.isPrompt }

def SequenceGroupMetadata.toSample (group : SequenceGroupMetadata) (lens : SampleLens)
    (promptLogprobIndices sampleIndices : List ℤ) : SequenceGroupToSample where
  seqIds := group.seqData.map Prod.fst
  samplingParams := some group.samplingParams
  seqData := some group.seqData
  seqLen := lens.seqLen
  queryLen := lens.queryLen
  generator := lens.generator
  isPrompt := group.isPrompt
  promptLogprobIndices := promptLogprobIndices
  sampleIndices := sampleIndices

def Counters.addGroup (group : SequenceGroupMetadata) (lens : SampleLens) (c : Counters) :
    List ℤ × List ℤ × Counters :=
  let c := { c with numPrompts := c.numPrompts + if group.isPrompt then 1 else 0 }
  (c.selectRows group lens).placeLogits group lens

def prepareSeqGroup (batch : Batch) (i : ℕ) (group : SequenceGroupMetadata) (s : Loop) : Except PyError Loop := do
  let seqIds := group.seqData.map Prod.fst
  let taken ← takeSampleObj seqIds s.cache
  let (lens, generators) ← sampleLens batch i group s.generators
  let (promptLogprobIndices, sampleIndices, counters) := s.counters.addGroup group lens
  match taken with
  | some (place, cache) =>
    let cache := cache.modify seqIds.length place (·.fill group lens promptLogprobIndices sampleIndices)
    return { cache := some cache, generators, seqGroups := s.seqGroups ++ [.cached seqIds.length place], counters }
  | none =>
    let o ← (group.toSample lens promptLogprobIndices sampleIndices).postInit
    return { cache := none, generators, seqGroups := s.seqGroups ++ [.object o], counters }

/-- The loop from the `i`-th group on. -/
def prepareFrom (batch : Batch) : ℕ → List SequenceGroupMetadata → Loop → Except PyError Loop
  | _, [], s => .ok s
  | i, group :: groups, s => do
    let s ← prepareSeqGroup batch i group s
    prepareFrom batch (i + 1) groups s

def prepareSeqGroups (batch : Batch) (generators : Generators) (cache : Option SamplingMetadataCache) :
    Except PyError Loop := do
  let s ← prepareFrom batch 0 batch.seqGroupMetadataList { cache, generators }
  return { s with cache := s.cache.map SizedCaches.reset }

/-! ### What the sampler reads -/

/-- What is reached through an entry of `seq_groups`. -/
def SampleObj.read (cache : Option SamplingMetadataCache) : SampleObj → Option SequenceGroupToSample
  | .cached numSeqs place => cache.bind (·.get? numSeqs place)
  | .object o => some o

structure SamplingMetadata where
  seqGroups : List (Option SequenceGroupToSample)
  selectedTokenIndices : List ℤ
  categorizedSampleIndices : SamplingType → List ℤ
  numPrompts : ℕ

def Loop.samplingMetadata (s : Loop) : SamplingMetadata where
  seqGroups := s.seqGroups.map (·.read s.cache)
  selectedTokenIndices := s.counters.selectedTokenIndices
  categorizedSampleIndices := s.counters.categorizedSampleIndices
  numPrompts := s.counters.numPrompts

/-- The batches of a model runner, one step after the other: what each step's sampler reads. -/
def prepareSteps (generators : Generators) (cache : Option SamplingMetadataCache) :
    List Batch → Except PyError (List SamplingMetadata)
  | [] => .ok []
  | batch :: batches => do
    let s ← prepareSeqGroups batch (generators.getGenerators batch.finishedRequestIds) cache
    let later ← prepareSteps s.generators s.cache batches
    return s.samplingMetadata :: later

end Vllm.ModelExecutor
