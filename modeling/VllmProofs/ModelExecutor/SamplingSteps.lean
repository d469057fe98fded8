import VllmProofs.ModelExecutor.SamplingRows

/-!
The batches of a model runner, built with a `SamplingMetadataCache` and without: the same, and each of them selects
the rows that are needed.
-/

namespace Vllm.ModelExecutor
open V1 (SamplingParams SamplingType)
open SizedCaches (Sized Keeps)

variable {batch : Batch} {group : SequenceGroupMetadata} {n i : ℕ} {s t : Loop} {c : SamplingMetadataCache}
  {groups : List SequenceGroupToSample} {seqIds : List SeqId}

/-- The objects of a cache have room for the ids of as many sequences. -/
abbrev RoomFor (numSeqs : ℕ) (o : SequenceGroupToSample) : Prop := o.seqIds.length = numSeqs

theorem roomFor_builder (numSeqs : ℕ) : RoomFor numSeqs (genSeqGroupToSampleBuilder numSeqs) := by
  simp [RoomFor, genSeqGroupToSampleBuilder]

/-! ### An object that is used again -/

theorem foldl_set (seqIds before old after : List SeqId) (room : old.length = seqIds.length) :
    (seqIds.zipIdx before.length).foldl (fun ids entry => ids.set entry.2 entry.1) (before ++ old ++ after) =
      before ++ seqIds ++ after := by
  induction seqIds generalizing before old with
  | nil =>
    rw [List.eq_nil_of_length_eq_zero room]
    rfl
  | cons seqId seqIds ih =>
    obtain ⟨first, rest, rfl⟩ := List.exists_cons_of_length_eq_add_one room
    have set : (before ++ first :: rest ++ after).set before.length seqId = before ++ [seqId] ++ rest ++ after := by
      rw [List.append_assoc, List.set_append_right _ _ le_rfl, Nat.sub_self]
      simp
    have next := ih (before ++ [seqId]) rest (by simpa using room)
    rw [List.length_append] at next
    rw [List.zipIdx_cons, List.foldl_cons, set]
    simpa using next

variable {o : SequenceGroupToSample}

theorem seqIds_reuse (room : RoomFor seqIds.length o) : (o.reuse seqIds).seqIds = seqIds := by
  have written := foldl_set seqIds [] o.seqIds [] room
  simpa [SequenceGroupToSample.reuse] using written

theorem fill_reuse (room : RoomFor (group.seqData.map Prod.fst).length o)
    (lens : SampleLens) (promptLogprobIndices sampleIndices : List ℤ) :
    (o.reuse (group.seqData.map Prod.fst)).fill group lens promptLogprobIndices sampleIndices =
      group.toSample lens promptLogprobIndices sampleIndices := by
  have written := seqIds_reuse room
  simp only [SequenceGroupToSample.fill, written]
  simp [SequenceGroupToSample.reuse, SequenceGroupMetadata.toSample]

theorem takeSampleObj_some (sized : Sized RoomFor c) (seqIds : List SeqId) :
    ∃ c' o, takeSampleObj seqIds (some c) = .ok (some (c.handedOut seqIds.length, c')) ∧ Sized RoomFor c' ∧
      Keeps c c' ∧ c'.handedOut seqIds.length = c.handedOut seqIds.length + 1 ∧ RoomFor seqIds.length o ∧
      c'.get? seqIds.length (c.handedOut seqIds.length) = some (o.reuse seqIds) := by
  obtain ⟨c', o, taken, sized, keeps, count, found, room⟩ := sized.getCached roomFor_builder seqIds.length
  refine ⟨c'.modify seqIds.length (c.handedOut seqIds.length) (·.reuse seqIds), o, ?_, ?_, keeps.modify le_rfl _, ?_,
    room, ?_⟩
  · have enough : ¬ (o.seqIds.length < seqIds.length) := by rw [room]; exact lt_irrefl _
    unfold takeSampleObj
    simp [taken, bind, Except.bind, found, enough, pure, Except.pure]
  · refine sized.modify _ _ fun o room => ?_
    have length : ∀ (entries : List (SeqId × ℕ)) (ids : List SeqId),
        (entries.foldl (fun ids entry => ids.set entry.2 entry.1) ids).length = ids.length := by
      intro entries
      induction entries with
      | nil => exact fun _ => rfl
      | cons entry entries ih => exact fun ids => by rw [List.foldl_cons, ih, List.length_set]
    rw [RoomFor, SequenceGroupToSample.reuse, length]
    exact room
  · rw [SizedCaches.handedOut_modify, count]
  · rw [SizedCaches.get?_modify_self, found]
    rfl

/-! ### One group, with a cache and without -/

def SampleObj.HandedOut (c : SamplingMetadataCache) : SampleObj → Prop
  | .cached numSeqs place => place < c.handedOut numSeqs
  | .object _ => True

theorem SampleObj.HandedOut.keeps {c' : SamplingMetadataCache} {entry : SampleObj} (handed : entry.HandedOut c)
    (keeps : Keeps c c') : entry.HandedOut c' ∧ entry.read (some c') = entry.read (some c) := by
  cases entry with
  | object o => exact ⟨trivial, rfl⟩
  | cached numSeqs place => exact ⟨lt_of_lt_of_le handed (keeps numSeqs).1, (keeps numSeqs).2 place handed⟩

structure Together (batch : Batch) (n : ℕ) (s t : Loop) (c : SamplingMetadataCache)
    (groups : List SequenceGroupToSample) : Prop where
  uncached : s.cache = none
  objects : s.seqGroups = groups.map .object
  cached : t.cache = some c
  sized : Sized RoomFor c
  handedOut : ∀ entry ∈ t.seqGroups, entry.HandedOut c
  reads : t.seqGroups.map (·.read (some c)) = groups.map some
  counters : t.counters = s.counters
  generators : t.generators = s.generators
  modelOutputIdx : s.counters.modelOutputIdx = batch.start n
  logitIdx : s.counters.logitIdx = s.counters.selectedTokenIndices.length
  selects : Selects batch n groups s.counters.selectedTokenIndices s.counters.categorizedSampleIndices
    s.counters.numPrompts

theorem postInit_describes {selected : List ℤ} {lens : SampleLens}
    (describes : Describes batch i group selected o) (fit : LensFit batch i group lens)
    (seqLen : o.seqLen = lens.seqLen) (queryLen : o.queryLen = lens.queryLen) : o.postInit = .ok o := by
  unfold SequenceGroupToSample.postInit
  rw [if_neg, if_neg]
  · rintro ⟨prompt, missing⟩
    obtain ⟨seqs, queries⟩ := fit.prompt (describes.isPrompt ▸ prompt)
    rw [seqLen, queryLen] at missing
    exact missing.elim seqs queries
  · rintro ⟨some, none⟩
    rw [describes.samplingParams] at none
    rw [describes.promptLogprobIndices, Batch.promptLogprobRows, promptLogprobRows_none none] at some
    simp at some

/-- The next group's object, with a cache and without. -/
theorem Together.next (together : Together batch n s t c groups) (laid : batch.LaidOut)
    (here : batch.seqGroupMetadataList[n]? = some group) :
    ∃ s' t' c' o, prepareSeqGroup batch n group s = .ok s' ∧ prepareSeqGroup batch n group t = .ok t' ∧
      Together batch (n + 1) s' t' c' (groups ++ [o]) := by
  obtain ⟨lens, g', found, fit⟩ := sampleLens_fit laid here s.generators
  obtain ⟨c', old, taken, sized, keeps, count, room, reused⟩ :=
    takeSampleObj_some together.sized (group.seqData.map Prod.fst)
  have placed := fit.addGroup s.counters together.modelOutputIdx
  generalize promptIndices : pyRange s.counters.logitIdx _ = prompts at placed
  generalize sampleIndices : pyRange (s.counters.logitIdx + _) _ = samples at placed
  have logitIdx := together.logitIdx
  have describes : Describes batch n group s.counters.selectedTokenIndices (group.toSample lens prompts samples) :=
    { seqIds := rfl
      samplingParams := rfl
      seqData := rfl
      isPrompt := rfl
      promptLogprobIndices := by rw [← logitIdx, promptIndices]; rfl
      sampleIndices := by rw [← logitIdx, sampleIndices]; rfl }
  have made := postInit_describes describes fit rfl rfl
  have filled := fill_reuse room lens prompts samples
  have uncached : prepareSeqGroup batch n group s = .ok
      { cache := none
        generators := g'
        seqGroups := s.seqGroups ++ [.object (group.toSample lens prompts samples)]
        counters := batch.countersAfter n group s.counters } := by
    unfold prepareSeqGroup
    rw [together.uncached]
    simp only [takeSampleObj, found, bind, Except.bind, placed, made]
    rfl
  have cached : prepareSeqGroup batch n group t = .ok
      { cache := some (c'.modify (group.seqData.map Prod.fst).length (c.handedOut (group.seqData.map Prod.fst).length)
          (·.fill group lens prompts samples))
        generators := g'
        seqGroups := t.seqGroups ++ [.cached (group.seqData.map Prod.fst).length
          (c.handedOut (group.seqData.map Prod.fst).length)]
        counters := batch.countersAfter n group s.counters } := by
    unfold prepareSeqGroup
    rw [together.cached, together.generators, together.counters]
    simp only [taken, found, bind, Except.bind, placed]
    rfl
  refine ⟨_, _, c'.modify (group.seqData.map Prod.fst).length (c.handedOut (group.seqData.map Prod.fst).length)
    (·.fill group lens prompts samples), group.toSample lens prompts samples, uncached, cached, ?_⟩
  have keeps := keeps.modify (f := (·.fill group lens prompts samples))
    (le_refl (c.handedOut (group.seqData.map Prod.fst).length))
  refine ⟨rfl, by rw [List.map_append, together.objects]; rfl, rfl, sized.modify _ _ fun o room => room, ?_, ?_,
    rfl, rfl, (Batch.start_succ here).symm, ?_, ?_⟩
  · intro entry member
    rcases List.mem_append.mp member with before | new
    · exact ((together.handedOut entry before).keeps keeps).1
    · rw [List.mem_singleton.mp new, SampleObj.HandedOut, SizedCaches.handedOut_modify, count]
      exact Nat.lt_succ_self _
  · rw [List.map_append, List.map_append, ← together.reads]
    congr 1
    · exact List.map_congr_left fun entry before => ((together.handedOut entry before).keeps keeps).2
    · rw [List.map_singleton, List.map_singleton, SampleObj.read, Option.bind_some, SizedCaches.get?_modify_self,
        reused, Option.map_some, filled]
  · simp only [Batch.countersAfter, List.length_append, Nat.cast_add, logitIdx]
    omega
  · subst sampleIndices
    exact together.selects.next laid here describes

/-! ### Batches, step after step -/

theorem Together.loop {before later : List SequenceGroupMetadata} (laid : batch.LaidOut)
    (all : batch.seqGroupMetadataList = before ++ later) (together : Together batch before.length s t c groups) :
    ∃ s' t' c' groups', prepareFrom batch before.length later s = .ok s' ∧
      prepareFrom batch before.length later t = .ok t' ∧
      Together batch batch.seqGroupMetadataList.length s' t' c' groups' := by
  induction later generalizing before s t c groups with
  | nil =>
    rw [List.append_nil] at all
    rw [all]
    exact ⟨s, t, c, groups, rfl, rfl, together⟩
  | cons group later ih =>
    have here : batch.seqGroupMetadataList[before.length]? = some group := by
      rw [all, List.getElem?_append_right le_rfl, Nat.sub_self]
      rfl
    obtain ⟨s', t', c', o, plain, recycled, together⟩ := together.next laid here
    obtain ⟨s'', t'', c'', groups', plainLater, recycledLater, together⟩ :=
      @ih _ _ _ _ (before ++ [group]) (by rw [all, List.append_assoc]; rfl) (by rwa [List.length_append])
    rw [List.length_append] at plainLater recycledLater
    exact ⟨s'', t'', c'', groups', by rw [prepareFrom, plain]; exact plainLater,
      by rw [prepareFrom, recycled]; exact recycledLater, together⟩

/-- What the sampler reads is what is needed for the batch. -/
def SamplingMetadata.Correct (batch : Batch) (m : SamplingMetadata) : Prop :=
  ∃ groups, m.seqGroups = groups.map some ∧
    Selects batch batch.seqGroupMetadataList.length groups m.selectedTokenIndices m.categorizedSampleIndices
      m.numPrompts

theorem prepareSeqGroups_laidOut (laid : batch.LaidOut) (generators : Generators) (sized : Sized RoomFor c) :
    ∃ s t c', prepareSeqGroups batch generators none = .ok s ∧ prepareSeqGroups batch generators (some c) = .ok t ∧
      s.cache = none ∧ t.cache = some c' ∧ Sized RoomFor c' ∧ t.generators = s.generators ∧
      t.samplingMetadata = s.samplingMetadata ∧ s.samplingMetadata.Correct batch := by
  have start : Together batch ([] : List SequenceGroupMetadata).length { cache := none, generators }
      { cache := some c, generators } c [] :=
    ⟨rfl, rfl, rfl, sized, by simp, rfl, rfl, rfl, rfl, rfl, Selects.empty batch⟩
  obtain ⟨s, t, c', groups, plain, recycled, together⟩ := start.loop laid rfl
  have objects : s.seqGroups.map (·.read none) = groups.map some := by
    rw [together.objects, List.map_map]
    rfl
  have reads : t.seqGroups.map (·.read (some c'.reset)) = groups.map some := by
    rw [← together.reads]
    refine List.map_congr_left fun entry _ => ?_
    cases entry with
    | object o => rfl
    | cached numSeqs place => exact SizedCaches.get?_reset _ _ _
  refine ⟨{ s with cache := none }, { t with cache := some c'.reset }, c'.reset, ?_, ?_, rfl, rfl,
    together.sized.reset, together.generators, ?_, groups, objects, together.selects⟩
  · unfold prepareSeqGroups
    simp only [List.length_nil] at plain
    rw [plain]
    simp [bind, Except.bind, pure, Except.pure, together.uncached]
  · unfold prepareSeqGroups
    simp only [List.length_nil] at recycled
    rw [recycled]
    simp [bind, Except.bind, pure, Except.pure, together.cached]
  · simp only [Loop.samplingMetadata, objects, reads, together.counters]

theorem prepareSteps_sized (generators : Generators) (sized : Sized RoomFor c) (batches : List Batch)
    (laid : ∀ batch ∈ batches, batch.LaidOut) :
    ∃ results, prepareSteps generators none batches = .ok results ∧
      prepareSteps generators (some c) batches = .ok results ∧
      List.Forall₂ (fun batch result => result.Correct batch) batches results := by
  induction batches generalizing generators c with
  | nil => exact ⟨[], rfl, rfl, .nil⟩
  | cons batch batches ih =>
    obtain ⟨s, t, c', plain, recycled, uncached, cached, sized, same, result, correct⟩ :=
      prepareSeqGroups_laidOut (laid batch List.mem_cons_self)
        (generators.getGenerators batch.finishedRequestIds) sized
    obtain ⟨results, plainLater, recycledLater, later⟩ :=
      ih s.generators sized fun batch member => laid batch (List.mem_cons_of_mem _ member)
    refine ⟨s.samplingMetadata :: results, ?_, ?_, .cons correct later⟩
    · rw [prepareSteps, plain]
      simp [bind, Except.bind, uncached, plainLater, pure, Except.pure]
    · rw [prepareSteps, recycled]
      simp [bind, Except.bind, cached, same, recycledLater, result, pure, Except.pure]

/-- Batches that are laid out group by group, built one after another: with a cache as without, and each selects the
rows it needs, for the groups they belong to. -/
theorem prepareSteps_laidOut (generators : Generators) (batches : List Batch)
    (laid : ∀ batch ∈ batches, batch.LaidOut) :
    ∃ results, prepareSteps generators none batches = .ok results ∧
      prepareSteps generators (some fun _ => none) batches = .ok results ∧
      List.Forall₂ (fun batch result => result.Correct batch) batches results :=
  prepareSteps_sized generators SizedCaches.sized_empty batches laid

/-- A prompt with prompt logprobs, a chunk that does not sample, and a decode of two sequences. -/
def mixedBatch : Batch where
  seqGroupMetadataList :=
    [{ requestId := 0
       isPrompt := true
       seqData := [(0, 0)]
       samplingParams := { maxTokens := 8, promptLogprobs := some 1 } },
     { requestId := 1
       isPrompt := true
       seqData := [(1, 1)]
       samplingParams := { maxTokens := 8 }
       doSample := false },
     { requestId := 2
       isPrompt := false
       seqData := [(2, 2), (3, 3)]
       samplingParams := { maxTokens := 8, seed := some 5 } }]
  seqLens := some [3, 4, 9]
  queryLens := some [3, 4, 1]

theorem mixedBatch_laidOut : mixedBatch.LaidOut := by
  intro i group here
  rcases i with _ | _ | _ | i
  · cases here
    exact ⟨rfl, ⟨[3, 4, 1], rfl, by decide⟩, ⟨[3, 4, 9], rfl, by decide⟩, fun _ => by decide⟩
  · cases here
    exact ⟨rfl, ⟨[3, 4, 1], rfl, by decide⟩, ⟨[3, 4, 9], rfl, by decide⟩, fun _ => by decide⟩
  · cases here
    refine ⟨rfl, fun lens given => Or.inr ?_⟩
    cases given
    decide
  · cases here

theorem prepareSteps_laidOut_mixed :
    ∃ results, prepareSteps {} none [mixedBatch, mixedBatch] = .ok results ∧
      prepareSteps {} (some fun _ => none) [mixedBatch, mixedBatch] = .ok results ∧
      List.Forall₂ (fun batch result => result.Correct batch) [mixedBatch, mixedBatch] results := by
  refine prepareSteps_laidOut {} [mixedBatch, mixedBatch] fun batch member => ?_
  have same : batch = mixedBatch := by simpa using member
  rw [same]
  exact mixedBatch_laidOut

end Vllm.ModelExecutor
