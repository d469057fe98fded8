import VllmProofs.SpecDecode.DraftCache
import VllmProofs.SpecDecode.HiddenStateRuns

/-!
Which positions the draft model has entries for when it predicts. The engine appends the tokens of a
step and counts the computed ones, the scheduler builds the next request from them.
-/

namespace Vllm.SpecDecode

/-- The worker, the caches of its draft model, and what the engine knows about the sequences. -/
structure Served where
  worker : SpecDecodeWorker := {}
  draft : DraftCache := {}
  tokens : SeqId → List TokenId := fun _ => []
  computed : SeqId → ℕ := fun _ => 0
  decoding : SeqId → Bool := fun _ => false
  swapped : Finset SeqId := ∅
  finished : Finset RequestId := ∅

inductive Event where
  | arrive (seqId : SeqId) (prompt : List TokenId)
  /-- Preemption by recomputation. -/
  | preempt (seqId : SeqId)
  /-- A step, with the tokens that the draft model samples if it is asked for them. -/
  | step (st : WorkerStep) (drafts : SeqId → List TokenId)

section Serving
variable (cfg : SpecDecodeConfig) (k : ℕ) (requestOf : SeqId → RequestId)

structure BuiltGroup (s : Served) (st : WorkerStep) (group : SequenceGroupMetadata) : Prop where
  tokenIds : group.tokenIds = s.tokens group.seqId
  numComputedTokens : group.numComputedTokens = s.computed group.seqId
  isPrompt : group.isPrompt = !s.decoding group.seqId
  requestId : group.requestId = requestOf group.seqId
  unfinished : requestOf group.seqId ∉ s.finished ∧ requestOf group.seqId ∉ st.request.finishedRequestsIds
  numSpeculativeTokens : group.numSpeculativeTokens = none
  chunk : 0 < group.tokenChunkSize ∧ s.computed group.seqId + group.tokenChunkSize ≤
    (s.tokens group.seqId).length
  decode : s.decoding group.seqId = true → group.tokenChunkSize = 1
  doSample : group.doSample =
    decide (s.computed group.seqId + group.tokenChunkSize = (s.tokens group.seqId).length)

/-- A request that the scheduler builds, and what the target and the sampler yield for it: draft
tokens, and one more. -/
structure Built (s : Served) (st : WorkerStep) (drafts : SeqId → List TokenId) : Prop where
  distinct : st.seqIds.Nodup
  groups : ∀ group ∈ st.request.seqGroupMetadataList, BuiltGroup requestOf s st group
  lookahead : st.request.numLookaheadSlots =
    if st.request.seqGroupMetadataList.all (·.isPrompt) then 0 else k
  swapIn : ∀ seqId, seqId ∈ st.request.blocksToSwapIn ↔ seqId ∈ st.seqIds ∧ seqId ∈ s.swapped
  swapOut : ∀ seqId ∈ st.request.blocksToSwapOut, seqId ∉ st.seqIds ∧ seqId ∉ s.swapped
  complete : st.outputs.length = st.request.seqGroupMetadataList.length
  outputs : ∀ entry ∈ st.request.seqGroupMetadataList.zip st.outputs,
    Yields cfg st.request entry.1 entry.2
  drafted : ∀ seqId, (drafts seqId).length = k
  accepted : ∀ entry ∈ st.request.seqGroupMetadataList.zip st.outputs,
    entry.2.dropLast = (drafts entry.1.seqId).take (entry.2.length - 1)

def WorkerStep.groupOf (st : WorkerStep) (seqId : SeqId) : Option SequenceGroupMetadata :=
  st.request.seqGroupMetadataList.find? (·.seqId = seqId)

/-- `update_num_computed_tokens`, and the tokens that are appended: each but the first counts as
computed. -/
def Served.processOutputs (s : Served) (st : WorkerStep) : Served :=
  { s with
    tokens := fun seqId => s.tokens seqId ++ st.outputOf seqId
    computed := fun seqId =>
      match st.groupOf seqId with
      | none => s.computed seqId
      | some group => s.computed seqId + group.tokenChunkSize + ((st.outputOf seqId).length - 1)
    decoding := fun seqId =>
      match st.groupOf seqId with
      | none => s.decoding seqId
      | some group => s.decoding seqId ||
        decide (s.computed seqId + group.tokenChunkSize = (s.tokens seqId).length) }

/-- The state after a step in which the worker asks for `calls`. -/
def Served.after (s : Served) (st : WorkerStep) (drafts : SeqId → List TokenId)
    (worker : SpecDecodeWorker) (calls : List DraftCall) : Served :=
  { s.processOutputs st with
    worker
    draft := calls.foldl (DraftCache.call drafts) (s.draft.startStep st.request)
    swapped := (s.swapped \ st.request.blocksToSwapIn.toFinset) ∪ st.request.blocksToSwapOut.toFinset
    finished := s.finished ∪ st.request.finishedRequestsIds.toFinset }

inductive Serves : Served → Event → Served → Prop
  | arrive {s : Served} {seqId : SeqId} {prompt : List TokenId} (fresh : s.tokens seqId = []) :
    Serves s (.arrive seqId prompt) { s with tokens := Function.update s.tokens seqId prompt }
  | preempt {s : Served} {seqId : SeqId} (running : seqId ∉ s.swapped) :
    Serves s (.preempt seqId) { s with
      computed := Function.update s.computed seqId 0
      decoding := Function.update s.decoding seqId false
      draft := { s.draft with gpu := Function.update s.draft.gpu seqId fun _ => none } }
  | step {s : Served} {st : WorkerStep} {drafts : SeqId → List TokenId} {worker : SpecDecodeWorker}
      {calls : List DraftCall} (built : Built cfg k requestOf s st drafts)
      (executed : s.worker.executeModel cfg st = .ok (worker, calls)) :
    Serves s (.step st drafts) (s.after st drafts worker calls)

/-- For every position before the last token, the cache holds an entry computed from the sequence's own
token, or a group of the draft batch writes one. -/
def Covered (entries : Entries) (batch : List DraftGroup) (group : SequenceGroupMetadata) : Prop :=
  ∀ p, p + 1 < group.tokenIds.length → entries p = group.tokenIds[p]? ∨
    ∃ draft ∈ batch, draft.group.seqId = group.seqId ∧
      draft.group.write (fun _ => none) p = group.tokenIds[p]?

/-- The draft model was not run in a step over the sequence. -/
def Skipped (history : List Event) (seqId : SeqId) : Prop :=
  ∃ st drafts, Event.step st drafts ∈ history ∧ seqId ∈ st.seqIds ∧
    cfg.shouldDisableAllSpeculation st.request = true

/-- The step runs the draft model on its whole request, before anything else. -/
def RunsDraft (request : ExecuteModelRequest) : Prop :=
  cfg.noSpec request = true ∧ cfg.shouldDisableAllSpeculation request = false

/-- Since the prompt was last started, the blocks of the sequence were only swapped by steps that run
the draft model on the request that says so. -/
def SwapsRun : List Event → SeqId → Prop
  | [], _ => True
  | .arrive _ _ :: older, seqId => SwapsRun older seqId
  | .preempt other :: older, seqId => other = seqId ∨ SwapsRun older seqId
  | .step st _ :: older, seqId => SwapsRun older seqId ∧
    (seqId ∈ st.request.blocksToSwapOut → RunsDraft cfg st.request ∧ cfg.numSpecPrefillSteps = 1) ∧
    (seqId ∈ st.request.blocksToSwapIn → RunsDraft cfg st.request ∨
      seqId ∈ getAllSeqIds (st.request.seqGroupMetadataList.filter (·.isPrompt)))

end Serving

variable {cfg : SpecDecodeConfig} {k : ℕ} {requestOf : SeqId → RequestId}
variable {group : SequenceGroupMetadata} {seqId : SeqId}

-- What the engine appends

section Process
variable {st : WorkerStep}

theorem groupOf_eq (distinct : st.seqIds.Nodup)
    (mem : group ∈ st.request.seqGroupMetadataList) : st.groupOf group.seqId = some group := by
  unfold WorkerStep.groupOf
  cases found : st.request.seqGroupMetadataList.find? (·.seqId = group.seqId) with
  | none =>
    rw [List.find?_eq_none] at found
    exact absurd (decide_eq_true rfl) (found group mem)
  | some other =>
    have same : other.seqId = group.seqId := by simpa using List.find?_some found
    rw [List.inj_on_of_nodup_map distinct (List.mem_of_find?_eq_some found) mem same]

theorem groupOf_none (absent : seqId ∉ st.seqIds) : st.groupOf seqId = none := by
  unfold WorkerStep.groupOf
  rw [List.find?_eq_none]
  intro group mem same
  exact absent (of_decide_eq_true same ▸ List.mem_map_of_mem mem)

theorem outputOf_none (absent : seqId ∉ st.seqIds) : st.outputOf seqId = [] := by
  unfold WorkerStep.outputOf
  have missing : (st.seqIds.zip st.outputs).lookup seqId = none := by
    rw [List.lookup_eq_none_iff]
    intro entry mem
    simp only [bne_iff_ne, ne_eq]
    intro same
    exact absent (same ▸ (List.of_mem_zip mem).1)
  rw [missing, Option.getD_none]

theorem processOutputs_outside (s : Served) (absent : seqId ∉ st.seqIds) :
    (s.processOutputs st).tokens seqId = s.tokens seqId ∧
      (s.processOutputs st).computed seqId = s.computed seqId ∧
      (s.processOutputs st).decoding seqId = s.decoding seqId := by
  simp [Served.processOutputs, groupOf_none absent, outputOf_none absent]

theorem processOutputs_own (s : Served) (distinct : st.seqIds.Nodup)
    (mem : group ∈ st.request.seqGroupMetadataList) :
    (s.processOutputs st).tokens group.seqId = s.tokens group.seqId ++ st.outputOf group.seqId ∧
      (s.processOutputs st).computed group.seqId =
        s.computed group.seqId + group.tokenChunkSize + ((st.outputOf group.seqId).length - 1) ∧
      (s.processOutputs st).decoding group.seqId = (s.decoding group.seqId ||
        decide (s.computed group.seqId + group.tokenChunkSize = (s.tokens group.seqId).length)) := by
  simp [Served.processOutputs, groupOf_eq distinct mem]

end Process
-- The marks of finished requests

section Finished
variable {w : SpecDecodeWorker}

/-- The worker has filed each sequence under its own request. -/
def Filed (requestOf : SeqId → RequestId) (w : SpecDecodeWorker) : Prop :=
  ∀ requestId, ∀ seqId ∈ w.requestIdSeqIdMapping requestId, requestOf seqId = requestId

theorem Filed.finished (filed : Filed requestOf w) (finished : List RequestId) :
    Filed requestOf (w.trackFinishedRequests finished) ∧
      ∀ seqId ∈ w.seqWithBonusTokenInLastStep, requestOf seqId ∉ finished →
        seqId ∈ (w.trackFinishedRequests finished).seqWithBonusTokenInLastStep := by
  induction finished generalizing w with
  | nil => exact ⟨filed, fun _ mem _ => mem⟩
  | cons requestId rest ih =>
    have next : Filed requestOf { w with
        seqWithBonusTokenInLastStep :=
          w.seqWithBonusTokenInLastStep \ w.requestIdSeqIdMapping requestId
        requestIdSeqIdMapping := Function.update w.requestIdSeqIdMapping requestId ∅ } := by
      intro other seqId mem
      by_cases same : other = requestId
      · simp [same] at mem
      · dsimp only at mem
        rw [Function.update_of_ne same] at mem
        exact filed other seqId mem
    obtain ⟨later, marks⟩ := ih next
    refine ⟨later, ?_⟩
    intro seqId mem unfinished
    rw [List.mem_cons, not_or] at unfinished
    apply marks seqId _ unfinished.2
    apply Finset.mem_sdiff.mpr
    exact ⟨mem, fun listed => unfinished.1 (filed requestId seqId listed)⟩

theorem Filed.tracked (filed : Filed requestOf w) {groups : List SequenceGroupMetadata}
    (owned : ∀ group ∈ groups, group.requestId = requestOf group.seqId) (k : ℕ)
    (outputs : List (List TokenId)) :
    Filed requestOf (w.trackSequencesWithBonusTokens k groups outputs) := by
  have each : ∀ mapping : RequestId → Finset SeqId,
      (∀ requestId, ∀ seqId ∈ mapping requestId, requestOf seqId = requestId) →
      ∀ requestId, ∀ seqId ∈ (groups.foldl (fun mapping group =>
        Function.update mapping group.requestId (insert group.seqId (mapping group.requestId)))
        mapping) requestId, requestOf seqId = requestId := by
    induction groups with
    | nil => exact fun _ kept => kept
    | cons group rest ih =>
      intro mapping kept
      rw [List.foldl_cons]
      apply ih (fun g mem => owned g (List.mem_cons_of_mem _ mem))
      intro requestId seqId mem
      by_cases same : requestId = group.requestId
      · rw [same, Function.update_self] at mem
        rcases Finset.mem_insert.mp mem with rfl | mem
        · rw [same, owned group List.mem_cons_self]
        · rw [same]
          exact kept _ seqId mem
      · rw [Function.update_of_ne same] at mem
        exact kept _ seqId mem
  exact each _ filed

end Finished

-- What the draft model has computed

/-- The length that a sequence has if the draft model may propose for it. -/
def SpecDecodeConfig.fits (cfg : SpecDecodeConfig) (k length : ℕ) : Prop :=
  ∀ limit ∈ cfg.maxProposalLen, length + k < limit

theorem proposes_iff (unmarked : group.numSpeculativeTokens = none) :
    cfg.proposes k group = true ↔ group.isPrompt = false ∧ cfg.fits k group.tokenIds.length := by
  unfold SpecDecodeConfig.proposes SpecDecodeConfig.fits
  cases cfg.maxProposalLen <;> simp [unmarked]

/-- Every computed position has the entry of the sequence's own token, but for the last one where a
bonus token was accepted. -/
def Written (entries : Entries) (tokens : List TokenId) (computed : ℕ) (gap : Prop) : Prop :=
  ∀ p < computed, entries p = tokens[p]? ∨ gap ∧ p + 1 = computed

theorem Written.mono {entries entries' : Entries} {tokens : List TokenId} {computed : ℕ}
    {gap gap' : Prop} (written : Written entries tokens computed gap)
    (same : ∀ p, entries p = entries' p) (more : gap → gap') :
    Written entries' tokens computed gap' := by
  intro p inside
  rw [← same p]
  rcases written p inside with own | ⟨bonus, last⟩
  · exact Or.inl own
  · exact Or.inr ⟨more bonus, last⟩

theorem Written.chunk {entries : Entries} (output : List TokenId) (prompt : group.isPrompt = true)
    (inside : group.numComputedTokens + group.tokenChunkSize ≤ group.tokenIds.length) {gap : Prop}
    (written : Written entries group.tokenIds group.numComputedTokens False) :
    Written (group.write entries) (group.tokenIds ++ output)
      (group.numComputedTokens + group.tokenChunkSize) gap := by
  intro p before
  left
  rw [List.getElem?_append_left (by omega)]
  simp only [SequenceGroupMetadata.write, SequenceGroupMetadata.seqLen, prompt, if_true]
  split_ifs with now
  · rfl
  · rcases written p (by omega) with own | ⟨nothing, -⟩
    · exact own
    · exact nothing.elim

/-- Proposals write up to the last draft token but one; the last one is missing where all were
accepted. -/
theorem Written.propose {tokens drafts output : List TokenId} {entries entries' : Entries}
    {marked : Prop} {width : ℕ} (long : 2 ≤ tokens.length) (positive : 0 < k)
    (yields : output ≠ []) (bound : output.length ≤ k + 1)
    (accepted : output.dropLast = drafts.take (output.length - 1))
    (proposed : ∀ p, entries' p = if 0 < k ∧ tokens.length ≤ p + width ∧ p + 1 < tokens.length + k then
      (tokens ++ drafts)[p]? else entries p)
    (width_pos : 0 < width) (wide : marked → width = 2)
    (written : Written entries tokens (tokens.length - 1) marked) :
    Written entries' (tokens ++ output) (tokens.length - 1 + 1 + (output.length - 1))
      (output.length = k + 1) := by
  intro p before
  have some := List.length_pos_iff.mpr yields
  by_cases own : p + 1 < tokens.length
  · -- a token of the sequence, rewritten where it was the one before a bonus token
    left
    rw [List.getElem?_append_left (by omega), proposed]
    split_ifs with rewritten
    · rw [List.getElem?_append_left (by omega)]
    · rcases written p (by omega) with entry | ⟨gap, last⟩
      · exact entry
      · have two := wide gap
        omega
  · by_cases full : p + 1 = tokens.length + k
    · exact Or.inr ⟨by omega, by omega⟩
    · left
      rw [proposed, if_pos (by omega)]
      by_cases last : p < tokens.length
      · rw [List.getElem?_append_left last, List.getElem?_append_left last]
      · have inside : p - tokens.length < output.length - 1 := by omega
        rw [List.getElem?_append_right (by omega), List.getElem?_append_right (by omega)]
        calc drafts[p - tokens.length]?
            = (drafts.take (output.length - 1))[p - tokens.length]? :=
              (List.getElem?_take_of_lt inside).symm
          _ = output.dropLast[p - tokens.length]? := by rw [accepted]
          _ = output[p - tokens.length]? := by rw [List.getElem?_dropLast, if_pos inside]

-- What a step does to the entries

/-- Where the entries of a sequence are kept. -/
def Served.entries (s : Served) (seqId : SeqId) : Entries :=
  if seqId ∈ s.swapped then s.draft.cpu seqId else s.draft.gpu seqId

section Step
variable {s : Served} {st : WorkerStep} {drafts : SeqId → List TokenId} {worker : SpecDecodeWorker}
  {calls : List DraftCall}

section
variable (built : Built cfg k requestOf s st drafts)
include built

theorem Built.listed (listed : seqId ∈ st.seqIds) :
    ∃ group ∈ st.request.seqGroupMetadataList, group.seqId = seqId ∧
      BuiltGroup requestOf s st group ∧ ∃ tokens,
        (group, tokens) ∈ st.request.seqGroupMetadataList.zip st.outputs ∧ st.outputOf seqId = tokens := by
  obtain ⟨group, mem, rfl⟩ := List.mem_map.mp listed
  obtain ⟨tokens, entry⟩ := mem_zip_of_mem mem built.complete
  exact ⟨group, mem, rfl, built.groups group mem, tokens, entry,
    WorkerStep.outputOf_eq built.distinct entry⟩

theorem Built.speculates (positive : 0 < k) (mem : group ∈ st.request.seqGroupMetadataList)
    (decodes : group.isPrompt = false)
    (enabled : cfg.shouldDisableAllSpeculation st.request = false) :
    cfg.noSpec st.request = false ∧ st.request.numLookaheadSlots = k := by
  have lookahead := built.lookahead
  rw [if_neg (by
    intro all
    have prompt := List.all_eq_true.mp all group mem
    rw [decodes] at prompt
    cases prompt)] at lookahead
  refine ⟨?_, lookahead⟩
  have some : ¬st.request.seqGroupMetadataList.all (fun group =>
      decide (group.numSpeculativeTokens = some 0)) = true := by
    intro all
    have zero := of_decide_eq_true (List.all_eq_true.mp all group mem)
    rw [(built.groups group mem).numSpeculativeTokens] at zero
    cases zero
  simp only [SpecDecodeConfig.noSpec, enabled, lookahead, Bool.or_false, Bool.or_eq_false_iff]
  exact ⟨by simp; omega, by simpa using some⟩

theorem Built.decodes (decoding : ∀ seqId, s.decoding seqId = true →
      s.computed seqId + 1 = (s.tokens seqId).length ∧ 2 ≤ (s.tokens seqId).length) :
    ∀ group ∈ cfg.nonzeroProposalLenSeqs st.request, Decoding group := by
  intro group mem
  obtain ⟨mem, proposed⟩ := DraftCache.mem_nonzero.mp mem
  have own := built.groups group mem
  have decode := ((proposes_iff own.numSpeculativeTokens).mp proposed).1
  have stage : s.decoding group.seqId = true := by
    have prompt := own.isPrompt
    rw [decode] at prompt
    simpa using prompt.symm
  obtain ⟨computed, long⟩ := decoding group.seqId stage
  exact ⟨decode, by rw [own.numComputedTokens, own.tokenIds, computed], by rwa [own.tokenIds]⟩

theorem Built.lookahead_eq
    (speculates : cfg.noSpec st.request = false) : st.request.numLookaheadSlots = k := by
  have some := lookahead_pos speculates
  have lookahead := built.lookahead
  split_ifs at lookahead
  · omega
  · exact lookahead

/-- A sequence that is not in the batch and does not leave the device keeps its entries. -/
theorem caches_outside (decoding : ∀ group ∈ cfg.nonzeroProposalLenSeqs st.request, Decoding group)
    (executed : s.worker.executeModel cfg st = .ok (worker, calls))
    (absent : seqId ∉ st.seqIds) (stays : seqId ∉ st.request.blocksToSwapOut) :
    (calls.foldl (DraftCache.call drafts) (s.draft.startStep st.request)).gpu seqId =
        s.draft.gpu seqId ∧
      (calls.foldl (DraftCache.call drafts) (s.draft.startStep st.request)).cpu seqId =
        s.draft.cpu seqId := by
  have resident : seqId ∉ st.request.blocksToSwapIn := fun mem =>
    absent ((built.swapIn seqId).mp mem).1
  have start : (s.draft.startStep st.request).gpu seqId = s.draft.gpu seqId :=
    if_neg (by simp [resident, stays])
  rcases SpecDecodeWorker.executeModel_cases executed with
    ⟨-, -, rfl⟩ | ⟨speculates, proposals, hs, proposed, -, -, rfl⟩
  · split_ifs
    · exact ⟨start, rfl⟩
    · rw [DraftCache.executed_other absent resident, DraftCache.executed_cpu stays]
      exact ⟨start, rfl⟩
  · have drafted : ∀ seqId, (drafts seqId).length = st.request.numLookaheadSlots := fun seqId => by
      rw [built.drafted, built.lookahead_eq speculates]
    obtain ⟨host, others, -⟩ := DraftCache.proposals_rule proposed decoding built.distinct drafted
      (s.draft.startStep st.request)
    obtain ⟨hostAfter, othersAfter, -⟩ := DraftCache.syncPrefills_rule cfg drafts
      built.distinct (proposals.foldl (DraftCache.call drafts) (s.draft.startStep st.request))
    rw [List.foldl_append, hostAfter seqId stays, host, othersAfter seqId resident, others, start]
    · exact ⟨rfl, rfl⟩
    · intro listed
      exact absent (DraftCache.nonzero_sublist.subset listed)
    · intro group mem same
      exact absurd (same ▸ List.mem_map_of_mem mem) absent

theorem entries_outside (decoding : ∀ group ∈ cfg.nonzeroProposalLenSeqs st.request, Decoding group)
    (executed : s.worker.executeModel cfg st = .ok (worker, calls))
    (absent : seqId ∉ st.seqIds)
    (runs : seqId ∈ st.request.blocksToSwapOut →
      RunsDraft cfg st.request ∧ cfg.numSpecPrefillSteps = 1) :
    (if seqId ∈ (s.swapped \ st.request.blocksToSwapIn.toFinset) ∪ st.request.blocksToSwapOut.toFinset
      then (calls.foldl (DraftCache.call drafts) (s.draft.startStep st.request)).cpu seqId
      else (calls.foldl (DraftCache.call drafts) (s.draft.startStep st.request)).gpu seqId) =
      s.entries seqId := by
  have resident : seqId ∉ st.request.blocksToSwapIn := fun mem =>
    absent ((built.swapIn seqId).mp mem).1
  by_cases leaves : seqId ∈ st.request.blocksToSwapOut
  · obtain ⟨⟨noSpec, enabled⟩, once⟩ := runs leaves
    have before : seqId ∉ s.swapped := (built.swapOut seqId leaves).2
    rw [if_pos (by simp [leaves]), Served.entries, if_neg before]
    rcases SpecDecodeWorker.executeModel_cases executed with
      ⟨-, -, rfl⟩ | ⟨speculates, -⟩
    · rw [if_neg (by simp [enabled]), once, DraftCache.executed_out leaves]
      rfl
    · rw [noSpec] at speculates
      cases speculates
  · obtain ⟨device, host⟩ := caches_outside built decoding executed absent leaves
    rw [device, host, Served.entries]
    simp [resident, leaves]

/-- A prompt chunk is written by a step that runs the draft model. -/
theorem entries_prompt (decoding : ∀ group ∈ cfg.nonzeroProposalLenSeqs st.request, Decoding group)
    (executed : s.worker.executeModel cfg st = .ok (worker, calls))
    (mem : group ∈ st.request.seqGroupMetadataList) (prompt : group.isPrompt = true)
    (enabled : cfg.shouldDisableAllSpeculation st.request = false) :
    (calls.foldl (DraftCache.call drafts) (s.draft.startStep st.request)).gpu group.seqId =
      group.write (s.entries group.seqId) := by
  have listed : group.seqId ∈ st.seqIds := List.mem_map_of_mem mem
  have stays : group.seqId ∉ st.request.blocksToSwapOut := fun leaves =>
    (built.swapOut _ leaves).1 listed
  have source : (if group.seqId ∈ st.request.blocksToSwapIn then
      (s.draft.startStep st.request).cpu group.seqId
      else (s.draft.startStep st.request).gpu group.seqId) = s.entries group.seqId := by
    have swapped : group.seqId ∈ st.request.blocksToSwapIn ↔ group.seqId ∈ s.swapped := by
      rw [built.swapIn]
      exact and_iff_right listed
    by_cases away : group.seqId ∈ s.swapped
    · rw [if_pos (swapped.mpr away), Served.entries, if_pos away]
      rfl
    · rw [if_neg (fun mem => away (swapped.mp mem)), Served.entries, if_neg away]
      exact if_neg (by simp [swapped, away, stays])
  rcases SpecDecodeWorker.executeModel_cases executed with
    ⟨-, -, rfl⟩ | ⟨speculates, proposals, hs, proposed, -, -, rfl⟩
  · rw [if_neg (by simp [enabled]), DraftCache.executed_own cfg.prefills built.distinct mem stays,
      source]
  · have drafted : ∀ seqId, (drafts seqId).length = st.request.numLookaheadSlots := fun seqId => by
      rw [built.drafted, built.lookahead_eq speculates]
    obtain ⟨host, others, -⟩ := DraftCache.proposals_rule proposed decoding built.distinct drafted
      (s.draft.startStep st.request)
    obtain ⟨-, -, own⟩ := DraftCache.syncPrefills_rule cfg drafts
      built.distinct (proposals.foldl (DraftCache.call drafts) (s.draft.startStep st.request))
    have unproposed : group.seqId ∉ getAllSeqIds (cfg.nonzeroProposalLenSeqs st.request) := by
      intro proposing
      obtain ⟨other, memOther, same⟩ := List.mem_map.mp proposing
      obtain ⟨memOther, proposed⟩ := DraftCache.mem_nonzero.mp memOther
      rw [List.inj_on_of_nodup_map built.distinct memOther mem same] at proposed
      simp [SpecDecodeConfig.proposes, prompt] at proposed
    rw [List.foldl_append, own group mem prompt, host, others _ unproposed, source]

/-- Proposals write the entries of a sequence, unless it has to be swapped in for them. -/
theorem entries_propose (decoding : ∀ group ∈ cfg.nonzeroProposalLenSeqs st.request, Decoding group)
    (executed : s.worker.executeModel cfg st = .ok (worker, calls))
    (speculates : cfg.noSpec st.request = false)
    (mem : group ∈ cfg.nonzeroProposalLenSeqs st.request)
    (resident : group.seqId ∉ st.request.blocksToSwapIn) (p : ℕ) :
    (calls.foldl (DraftCache.call drafts) (s.draft.startStep st.request)).gpu group.seqId p =
      if 0 < k ∧ group.tokenIds.length ≤ p + (if group.seqId ∈ (s.worker.trackFinishedRequests
            st.request.finishedRequestsIds).seqWithBonusTokenInLastStep then 2 else 1) ∧
          p + 1 < group.tokenIds.length + k then
        (group.tokenIds ++ drafts group.seqId)[p]?
      else s.entries group.seqId p := by
  obtain ⟨memGroup, proposes⟩ := DraftCache.mem_nonzero.mp mem
  have listed : group.seqId ∈ st.seqIds := List.mem_map_of_mem memGroup
  have stays : group.seqId ∉ st.request.blocksToSwapOut := fun leaves =>
    (built.swapOut _ leaves).1 listed
  have here : group.seqId ∉ s.swapped := fun away => resident ((built.swapIn _).mpr ⟨listed, away⟩)
  have start : (s.draft.startStep st.request).gpu group.seqId = s.entries group.seqId := by
    rw [Served.entries, if_neg here]
    exact if_neg (by simp [resident, stays])
  rcases SpecDecodeWorker.executeModel_cases executed with
    ⟨noSpec, -⟩ | ⟨-, proposals, hs, proposed, -, -, rfl⟩
  · rw [noSpec] at speculates
    cases speculates
  · have lookahead := built.lookahead_eq speculates
    have drafted : ∀ seqId, (drafts seqId).length = st.request.numLookaheadSlots := fun seqId => by
      rw [built.drafted, lookahead]
    obtain ⟨-, -, own⟩ := DraftCache.proposals_rule proposed decoding built.distinct drafted
      (s.draft.startStep st.request)
    obtain ⟨-, others, -⟩ := DraftCache.syncPrefills_rule cfg drafts
      built.distinct (proposals.foldl (DraftCache.call drafts) (s.draft.startStep st.request))
    rw [List.foldl_append, others _ resident, own group mem p, lookahead, start]
    intro other memOther same
    rw [List.inj_on_of_nodup_map built.distinct memOther memGroup same]
    exact proposes

end

end Step
-- The invariant

structure Kept (cfg : SpecDecodeConfig) (k : ℕ) (requestOf : SeqId → RequestId) (history : List Event)
    (s : Served) : Prop where
  counted : ∀ seqId, s.computed seqId ≤ (s.tokens seqId).length
  decoding : ∀ seqId, s.decoding seqId = true →
    s.computed seqId + 1 = (s.tokens seqId).length ∧ 2 ≤ (s.tokens seqId).length
  filed : Filed requestOf s.worker
  written : ∀ seqId, requestOf seqId ∉ s.finished → ¬Skipped cfg history seqId →
    SwapsRun cfg history seqId → cfg.fits k (s.tokens seqId).length →
    Written (s.entries seqId) (s.tokens seqId) (s.computed seqId)
      (seqId ∈ s.worker.seqWithBonusTokenInLastStep ∧ s.decoding seqId = true)

section Kept
variable {history : List Event} {s : Served}

theorem Kept.init : Kept cfg k requestOf [] {} where
  counted _ := Nat.zero_le _
  decoding _ decodes := by cases decodes
  filed _ _ mem := by simp at mem
  written _ _ _ _ _ _ inside := by simp at inside

theorem Kept.arrive (kept : Kept cfg k requestOf history s) {prompt : List TokenId}
    (fresh : s.tokens seqId = []) :
    Kept cfg k requestOf (.arrive seqId prompt :: history)
      { s with tokens := Function.update s.tokens seqId prompt } := by
  have none : s.computed seqId = 0 := by
    have counted := kept.counted seqId
    rw [fresh] at counted
    simpa using counted
  have waits : s.decoding seqId ≠ true := by
    intro decodes
    have long := (kept.decoding seqId decodes).2
    simp [fresh] at long
  constructor
  · intro other
    by_cases same : other = seqId
    · subst same
      simp [none]
    · simpa [Function.update_of_ne same] using kept.counted other
  · intro other decodes
    have differ : other ≠ seqId := by
      rintro rfl
      exact waits decodes
    simpa [Function.update_of_ne differ] using kept.decoding other decodes
  · exact kept.filed
  · intro other unfinished ran swaps fits
    by_cases same : other = seqId
    · subst same
      intro p inside
      simp [none] at inside
    · have ranBefore : ¬Skipped cfg history other := by
        rintro ⟨st, drafts, mem, skipped⟩
        exact ran ⟨st, drafts, List.mem_cons_of_mem _ mem, skipped⟩
      simp only [Function.update_of_ne same] at fits ⊢
      exact kept.written other unfinished ranBefore swaps fits

theorem Kept.preempt (kept : Kept cfg k requestOf history s) (running : seqId ∉ s.swapped) :
    Kept cfg k requestOf (.preempt seqId :: history) { s with
      computed := Function.update s.computed seqId 0
      decoding := Function.update s.decoding seqId false
      draft := { s.draft with gpu := Function.update s.draft.gpu seqId fun _ => none } } := by
  constructor
  · intro other
    by_cases same : other = seqId
    · subst same
      simp
    · simpa [Function.update_of_ne same] using kept.counted other
  · intro other decodes
    by_cases same : other = seqId
    · subst same
      simp at decodes
    · simp only [Function.update_of_ne same] at decodes ⊢
      exact kept.decoding other decodes
  · exact kept.filed
  · intro other unfinished ran swaps fits
    by_cases same : other = seqId
    · subst same
      intro p inside
      simp at inside
    · have ranBefore : ¬Skipped cfg history other := by
        rintro ⟨st, drafts, mem, skipped⟩
        exact ran ⟨st, drafts, List.mem_cons_of_mem _ mem, skipped⟩
      have swapsBefore : SwapsRun cfg history other := by
        rcases swaps with rfl | swaps
        · exact absurd rfl same
        · exact swaps
      have written := kept.written other unfinished ranBefore swapsBefore fits
      simp only [Served.entries, Function.update_of_ne same] at written ⊢
      exact written

section Step
variable {st : WorkerStep} {drafts : SeqId → List TokenId} {worker : SpecDecodeWorker}
  {calls : List DraftCall}

/-- The marks after a step: the ones that were there, and the ones of sequences whose draft tokens were
all accepted. -/
theorem marks_after (kept : Kept cfg k requestOf history s) (built : Built cfg k requestOf s st drafts)
    (executed : s.worker.executeModel cfg st = .ok (worker, calls)) :
    Filed requestOf worker ∧
    (∀ seqId ∈ s.worker.seqWithBonusTokenInLastStep,
      requestOf seqId ∉ st.request.finishedRequestsIds → seqId ∉ st.seqIds →
      seqId ∈ worker.seqWithBonusTokenInLastStep) ∧
    ∀ seqId ∈ st.seqIds, cfg.noSpec st.request = false → (st.outputOf seqId).length = k + 1 →
      seqId ∈ worker.seqWithBonusTokenInLastStep := by
  obtain ⟨filed, marks⟩ := kept.filed.finished st.request.finishedRequestsIds
  rcases SpecDecodeWorker.executeModel_cases executed with
    ⟨noSpec, ⟨next, -, rfl⟩, -⟩ | ⟨speculates, proposals, hs, -, -, rfl, -⟩
  · refine ⟨filed, fun seqId mem unfinished _ => marks seqId mem unfinished, ?_⟩
    intro seqId _ speculates
    rw [noSpec] at speculates
    cases speculates
  · refine ⟨?_, ?_, ?_⟩
    · exact filed.tracked (fun group mem => (built.groups group mem).requestId)
        st.request.numLookaheadSlots st.outputs
    · intro seqId mem unfinished absent
      apply (mem_tracked built.distinct built.complete built.outputs _).mpr
      rw [if_neg absent]
      exact marks seqId mem unfinished
    · intro seqId mem _ full
      apply (mem_tracked built.distinct built.complete built.outputs _).mpr
      rw [if_pos mem, full, built.lookahead_eq speculates]

/-- All tokens of a decoding sequence are computed in a step, and one is sampled. -/
theorem whole_of_decoding (kept : Kept cfg k requestOf history s)
    (own : BuiltGroup requestOf s st group)
    (decodes : (s.decoding group.seqId ||
      decide (s.computed group.seqId + group.tokenChunkSize = (s.tokens group.seqId).length)) = true) :
    s.computed group.seqId + group.tokenChunkSize = (s.tokens group.seqId).length := by
  rcases Bool.or_eq_true_iff.mp decodes with before | now
  · rw [own.decode before]
    exact (kept.decoding _ before).1
  · exact of_decide_eq_true now

/-- The entries of a sequence after a step over it. -/
theorem written_own (positive : 0 < k) (kept : Kept cfg k requestOf history s)
    (built : Built cfg k requestOf s st drafts)
    (executed : s.worker.executeModel cfg st = .ok (worker, calls))
    (mem : group ∈ st.request.seqGroupMetadataList)
    (enabled : cfg.shouldDisableAllSpeculation st.request = false)
    (swapIn : group.seqId ∈ st.request.blocksToSwapIn → RunsDraft cfg st.request ∨
      group.seqId ∈ getAllSeqIds (st.request.seqGroupMetadataList.filter (·.isPrompt)))
    (fits : cfg.fits k (s.tokens group.seqId).length)
    (written : Written (s.entries group.seqId) (s.tokens group.seqId) (s.computed group.seqId)
      (group.seqId ∈ s.worker.seqWithBonusTokenInLastStep ∧ s.decoding group.seqId = true)) :
    Written ((calls.foldl (DraftCache.call drafts) (s.draft.startStep st.request)).gpu group.seqId)
      (s.tokens group.seqId ++ st.outputOf group.seqId)
      (s.computed group.seqId + group.tokenChunkSize + ((st.outputOf group.seqId).length - 1))
      (group.seqId ∈ worker.seqWithBonusTokenInLastStep ∧ (s.decoding group.seqId ||
        decide (s.computed group.seqId + group.tokenChunkSize = (s.tokens group.seqId).length)) =
          true) := by
  have listed : group.seqId ∈ st.seqIds := List.mem_map_of_mem mem
  have own := built.groups group mem
  have decoding := built.decodes kept.decoding
  obtain ⟨tokens, entry⟩ := mem_zip_of_mem mem built.complete
  have output := WorkerStep.outputOf_eq built.distinct entry
  have yields := built.outputs _ entry
  have accepted := built.accepted _ entry
  have bound := yields.bound
  have sampled := yields.sampled
  dsimp only at accepted bound sampled
  rw [output]
  cases stage : s.decoding group.seqId with
  | false =>
    have prompt : group.isPrompt = true := by rw [own.isPrompt, stage]; rfl
    have short : tokens.length - 1 = 0 := by
      rw [if_neg (by simp [SpecDecodeConfig.proposes, prompt])] at bound
      omega
    have before : Written (s.entries group.seqId) group.tokenIds group.numComputedTokens False := by
      rw [own.tokenIds, own.numComputedTokens]
      exact written.mono (fun _ => rfl) (by simp [stage])
    rw [entries_prompt built decoding executed mem prompt enabled, short, Nat.add_zero, ← own.tokenIds,
      ← own.numComputedTokens]
    apply Written.chunk tokens prompt _ before
    rw [own.tokenIds, own.numComputedTokens]
    exact own.chunk.2
  | true =>
    have decodes : group.isPrompt = false := by rw [own.isPrompt, stage]; rfl
    obtain ⟨speculates, lookahead⟩ := built.speculates positive mem decodes enabled
    obtain ⟨computed, long⟩ := kept.decoding _ stage
    have proposes : cfg.proposes st.request.numLookaheadSlots group = true := by
      rw [lookahead, proposes_iff own.numSpeculativeTokens, own.tokenIds]
      exact ⟨decodes, fits⟩
    have proposing : group ∈ cfg.nonzeroProposalLenSeqs st.request :=
      DraftCache.mem_nonzero.mpr ⟨mem, proposes⟩
    have resident : group.seqId ∉ st.request.blocksToSwapIn := by
      intro away
      rcases swapIn away with ⟨noSpec, -⟩ | prompts
      · rw [speculates] at noSpec
        cases noSpec
      · obtain ⟨other, memOther, same⟩ := List.mem_map.mp prompts
        obtain ⟨memOther, prompt⟩ := List.mem_filter.mp memOther
        rw [List.inj_on_of_nodup_map built.distinct memOther mem same, decodes] at prompt
        cases prompt
    rw [if_pos ⟨speculates, proposes⟩, lookahead] at bound
    have some : tokens ≠ [] := by
      apply sampled
      rw [own.doSample, own.decode stage, computed]
      simp
    obtain ⟨-, finished⟩ := kept.filed.finished st.request.finishedRequestsIds
    have marks := (marks_after kept built executed).2.2 _ listed speculates
    have computedBefore : s.computed group.seqId = (s.tokens group.seqId).length - 1 := by omega
    rw [own.decode stage, computedBefore]
    have before : Written (s.entries group.seqId) (s.tokens group.seqId)
        ((s.tokens group.seqId).length - 1)
        (group.seqId ∈ (s.worker.trackFinishedRequests
          st.request.finishedRequestsIds).seqWithBonusTokenInLastStep) := by
      rw [← computedBefore]
      exact written.mono (fun _ => rfl) fun gap => finished _ gap.1 own.unfinished.2
    have proposed : ∀ p, (calls.foldl (DraftCache.call drafts)
        (s.draft.startStep st.request)).gpu group.seqId p =
        if 0 < k ∧ (s.tokens group.seqId).length ≤ p + (if group.seqId ∈
            (s.worker.trackFinishedRequests
              st.request.finishedRequestsIds).seqWithBonusTokenInLastStep then 2 else 1) ∧
            p + 1 < (s.tokens group.seqId).length + k then
          (s.tokens group.seqId ++ drafts group.seqId)[p]?
        else s.entries group.seqId p := by
      intro p
      rw [entries_propose built decoding executed speculates proposing resident p, own.tokenIds]
    have after := before.propose long positive some bound accepted proposed (by split_ifs <;> omega)
      fun marked => if_pos marked
    exact after.mono (fun _ => rfl) fun full => ⟨marks (output ▸ full), Bool.true_or _⟩

theorem Kept.step (positive : 0 < k) (kept : Kept cfg k requestOf history s)
    (built : Built cfg k requestOf s st drafts)
    (executed : s.worker.executeModel cfg st = .ok (worker, calls)) :
    Kept cfg k requestOf (.step st drafts :: history) (s.after st drafts worker calls) := by
  obtain ⟨filed, marksOutside, -⟩ := marks_after kept built executed
  constructor
  · intro seqId
    dsimp only [Served.after]
    by_cases listed : seqId ∈ st.seqIds
    · obtain ⟨group, mem, rfl, own, -⟩ := built.listed listed
      obtain ⟨tokens, computed, -⟩ := processOutputs_own s built.distinct mem
      have inside := own.chunk.2
      rw [tokens, computed, List.length_append]
      omega
    · obtain ⟨tokens, computed, -⟩ := processOutputs_outside s listed
      rw [tokens, computed]
      exact kept.counted seqId
  · intro seqId decodes
    dsimp only [Served.after] at decodes ⊢
    by_cases listed : seqId ∈ st.seqIds
    · obtain ⟨group, mem, rfl, own, output, entry, found⟩ := built.listed listed
      obtain ⟨tokens, computed, decoding⟩ := processOutputs_own s built.distinct mem
      have whole := whole_of_decoding kept own (decoding ▸ decodes)
      have some : output ≠ [] := by
        apply (built.outputs _ entry).sampled
        rw [own.doSample, whole]
        simp
      have positiveLength := List.length_pos_iff.mpr some
      have chunk := own.chunk.1
      rw [tokens, computed, List.length_append, found]
      omega
    · obtain ⟨tokens, computed, decoding⟩ := processOutputs_outside s listed
      rw [decoding] at decodes
      rw [tokens, computed]
      exact kept.decoding seqId decodes
  · exact filed
  · intro seqId unfinished ran swaps fits
    obtain ⟨swapsBefore, swapOut, swapIn⟩ := swaps
    have ranBefore : ¬Skipped cfg history seqId := by
      rintro ⟨st', drafts', mem, skipped⟩
      exact ran ⟨st', drafts', List.mem_cons_of_mem _ mem, skipped⟩
    simp only [Served.after, Finset.mem_union, List.mem_toFinset, not_or] at unfinished
    dsimp only [Served.after] at fits ⊢
    by_cases listed : seqId ∈ st.seqIds
    · obtain ⟨group, mem, rfl, own, -⟩ := built.listed listed
      obtain ⟨tokens, computed, decoding⟩ := processOutputs_own s built.distinct mem
      have enabled : cfg.shouldDisableAllSpeculation st.request = false := by
        by_contra disabled
        exact ran ⟨st, drafts, List.mem_cons_self, listed, by simpa using disabled⟩
      have fitsBefore : cfg.fits k (s.tokens group.seqId).length := by
        intro limit some
        have room := fits limit some
        rw [tokens, List.length_append] at room
        omega
      have written := written_own positive kept built executed mem enabled swapIn fitsBefore
        (kept.written _ unfinished.1 ranBefore swapsBefore fitsBefore)
      have here : group.seqId ∉ (s.swapped \ st.request.blocksToSwapIn.toFinset) ∪
          st.request.blocksToSwapOut.toFinset := by
        simp only [Finset.mem_union, Finset.mem_sdiff, List.mem_toFinset, not_or, not_and, not_not]
        exact ⟨fun away => (built.swapIn _).mpr ⟨listed, away⟩,
          fun leaves => (built.swapOut _ leaves).1 listed⟩
      rw [Served.entries, if_neg here, tokens, computed, decoding]
      exact written
    · obtain ⟨tokens, computed, decoding⟩ := processOutputs_outside s listed
      rw [tokens] at fits
      rw [tokens, computed, decoding]
      have written := kept.written seqId unfinished.1 ranBefore swapsBefore fits
      have same := entries_outside built (built.decodes kept.decoding) executed listed swapOut
      apply written.mono
      · intro p
        exact congrFun same.symm p
      · rintro ⟨marked, decodes⟩
        exact ⟨marksOutside seqId marked unfinished.2 listed, decodes⟩

end Step
end Kept
theorem kept_run (positive : 0 < k) {history : List Event} {s : Served}
    (run : Run (Serves cfg k requestOf) {} history s) : Kept cfg k requestOf history s := by
  induction run with
  | start => exact Kept.init
  | call _ served kept =>
    cases served with
    | arrive fresh => exact kept.arrive fresh
    | preempt running => exact kept.preempt running
    | step built executed => exact kept.step positive built executed

/-- The draft model has run in all steps over the sequence and its swaps, and it does not have to be
swapped in now. -/
structure Attended (cfg : SpecDecodeConfig) (older : List Event) (st : WorkerStep) (seqId : SeqId) :
    Prop where
  ran : ¬Skipped cfg older seqId
  swaps : SwapsRun cfg older seqId
  resident : seqId ∉ st.request.blocksToSwapIn

/-- At one step, what the draft model has run on is covered. -/
theorem covered_of_kept {older : List Event} {s : Served} {st : WorkerStep}
    {drafts : SeqId → List TokenId} (kept : Kept cfg k requestOf older s)
    (built : Built cfg k requestOf s st drafts) (speculates : cfg.noSpec st.request = false) (mem : group ∈ cfg.nonzeroProposalLenSeqs st.request)
    (attended : Attended cfg older st group.seqId) :
    Covered ((s.draft.startStep st.request).gpu group.seqId)
      (expandGroups (s.worker.trackFinishedRequests
        st.request.finishedRequestsIds).seqWithBonusTokenInLastStep
        (cfg.nonzeroProposalLenSeqs st.request)) group := by
  obtain ⟨memGroup, proposes⟩ := DraftCache.mem_nonzero.mp mem
  have own := built.groups group memGroup
  have decoding := built.decodes kept.decoding group mem
  rw [built.lookahead_eq speculates, proposes_iff own.numSpeculativeTokens, own.tokenIds] at proposes
  have listed : group.seqId ∈ st.seqIds := List.mem_map_of_mem memGroup
  have here : group.seqId ∉ s.swapped := fun away =>
    attended.resident ((built.swapIn _).mpr ⟨listed, away⟩)
  have stays : group.seqId ∉ st.request.blocksToSwapOut := fun leaves =>
    (built.swapOut _ leaves).1 listed
  have start : (s.draft.startStep st.request).gpu group.seqId = s.entries group.seqId := by
    rw [Served.entries, if_neg here]
    exact if_neg (by simp [attended.resident, stays])
  have written := kept.written _ own.unfinished.1 attended.ran attended.swaps proposes.2
  rw [← own.tokenIds, ← own.numComputedTokens] at written
  have computed := decoding.computed
  have long := decoding.long
  rw [start]
  intro p inside
  rcases written p (by omega) with entry | ⟨⟨marked, -⟩, last⟩
  · exact Or.inl entry
  · right
    obtain ⟨-, finished⟩ := kept.filed.finished st.request.finishedRequestsIds
    refine ⟨{ group := copySeqMetadataExcludingLastToken group, withoutBonus := true }, ?_, rfl, ?_⟩
    · apply List.mem_flatMap.mpr
      refine ⟨group, mem, ?_⟩
      rw [if_pos (finished _ marked own.unfinished.2)]
      exact List.mem_cons_self
    · -- the copy writes the position before the bonus token
      have before : group.numComputedTokens - 1 ≤ p ∧ p < group.tokenIds.dropLast.length := by
        rw [List.length_dropLast]
        omega
      simp only [SequenceGroupMetadata.write, SequenceGroupMetadata.seqLen,
        copySeqMetadataExcludingLastToken, decoding.decode, Bool.false_eq_true, if_false]
      rw [if_pos before, List.getElem?_dropLast, if_pos (by omega)]

/-- Throughout a run in which the draft model has attended to each sequence that it proposes for, it
has an entry for every earlier position when it does, and was never skipped before. -/
theorem covered_throughout (positive : 0 < k) (history : List Event)
    (attended : ∀ newer st drafts older s, history = newer ++ .step st drafts :: older →
      Run (Serves cfg k requestOf) {} older s → Built cfg k requestOf s st drafts →
      cfg.noSpec st.request = false →
      ∀ group ∈ cfg.nonzeroProposalLenSeqs st.request, Attended cfg older st group.seqId) :
    ∀ newer st drafts older s, history = newer ++ .step st drafts :: older →
      Run (Serves cfg k requestOf) {} older s → Built cfg k requestOf s st drafts →
      cfg.noSpec st.request = false →
      ∀ group ∈ cfg.nonzeroProposalLenSeqs st.request,
        Covered ((s.draft.startStep st.request).gpu group.seqId)
          (expandGroups (s.worker.trackFinishedRequests
            st.request.finishedRequestsIds).seqWithBonusTokenInLastStep
            (cfg.nonzeroProposalLenSeqs st.request)) group ∧
        ¬Skipped cfg older group.seqId := by
  intro newer st drafts older s split run built speculates group mem
  have meets := attended newer st drafts older s split run built speculates group mem
  exact ⟨covered_of_kept (kept_run positive run) built speculates mem meets, meets.ran⟩

-- A request for which speculation is disabled and enabled again

/-- One request and one lookahead slot; two running requests disable speculation. -/
def crowdable : SpecDecodeConfig := { disableByBatchSize := some 2, prefills := Nat.zero_lt_one }

def promptStep : WorkerStep where
  request := { seqGroupMetadataList := [promptOf 1], numLookaheadSlots := 0, runningQueueSize := 1 }
  outputs := [[4]]

def decodeStep (runningQueueSize : ℕ) (tokenIds : List TokenId) : WorkerStep where
  request := { seqGroupMetadataList := [decodeOf 1 tokenIds], numLookaheadSlots := 1, runningQueueSize }
  outputs := [[5]]

def draftOne : SeqId → List TokenId := fun _ => [6]

/-- The request has arrived, its prompt has run, and it has decoded beside another request. -/
def arrived : Served := { tokens := Function.update (fun _ => []) 1 [1] }

def prompted : Served :=
  arrived.after promptStep draftOne
    { previousHiddenStates := some
        { hiddenStates := [.state 1 0 0], secondLastTokenHiddenStates := none, seqIds := [1] }
      passes := 1 }
    [.executeModel promptStep.request]

def crowded : Served :=
  prompted.after (decodeStep 2 [1, 4]) draftOne
    { previousHiddenStates := some
        { hiddenStates := [.state 1 0 0, .state 1 1 0], secondLastTokenHiddenStates := none
          seqIds := [1, 1] }
      passes := 2 }
    []

theorem promptStep_built : Built crowdable 1 id arrived promptStep draftOne where
  distinct := by decide
  groups group mem := by
    obtain rfl : group = promptOf 1 := by simpa [promptStep] using mem
    constructor <;> decide
  lookahead := rfl
  swapIn seqId := by simp [promptStep, arrived]
  swapOut seqId mem := by simp [promptStep] at mem
  complete := rfl
  outputs := by decide
  drafted _ := rfl
  accepted := by decide

theorem decodeStep_built {runningQueueSize : ℕ} (few : runningQueueSize ∈ [1, 2]) :
    Built crowdable 1 id prompted (decodeStep runningQueueSize [1, 4]) draftOne := by
  have swapIn : ∀ seqId, seqId ∈ (decodeStep runningQueueSize [1, 4]).request.blocksToSwapIn ↔
      seqId ∈ (decodeStep runningQueueSize [1, 4]).seqIds ∧ seqId ∈ prompted.swapped := by
    simp [decodeStep, prompted, arrived, Served.after, promptStep]
  rcases List.mem_pair.mp few with rfl | rfl
  all_goals exact
    { distinct := by decide
      groups := by
        intro group mem
        obtain rfl : group = decodeOf 1 [1, 4] := by simpa [decodeStep] using mem
        constructor <;> decide
      lookahead := rfl
      swapIn
      swapOut := by simp [decodeStep]
      complete := rfl
      outputs := by decide
      drafted := fun _ => rfl
      accepted := by decide }

theorem prompted_run : Run (Serves crowdable 1 id) {} [.step promptStep draftOne, .arrive 1 [1]] prompted := by
  apply @Run.call _ _ _ _ _ arrived _ _ _ (.step promptStep_built rfl)
  exact Run.call .start (.arrive rfl)

theorem covered_throughout_quiet :
    Covered ((prompted.draft.startStep (decodeStep 1 [1, 4]).request).gpu 1)
      (expandGroups (prompted.worker.trackFinishedRequests []).seqWithBonusTokenInLastStep
        (crowdable.nonzeroProposalLenSeqs (decodeStep 1 [1, 4]).request)) (decodeOf 1 [1, 4]) ∧
    ¬Skipped crowdable [.step promptStep draftOne, .arrive 1 [1]] 1 := by
  refine covered_throughout (by decide) [.step (decodeStep 1 [1, 4]) draftOne, .step promptStep draftOne,
    .arrive 1 [1]] ?_ [] _ _ _ prompted rfl prompted_run (decodeStep_built (by decide)) (by decide)
    (decodeOf 1 [1, 4]) (by decide)
  intro newer st drafts older s split _ _ speculates group mem
  rcases newer with _ | ⟨a, _ | ⟨b, _ | ⟨c, newer⟩⟩⟩
  · obtain ⟨⟨rfl, rfl⟩, rfl⟩ : (decodeStep 1 [1, 4] = st ∧ draftOne = drafts) ∧
        [.step promptStep draftOne, .arrive 1 [1]] = older := by simpa using split
    have own : group = decodeOf 1 [1, 4] := by
      simpa [decodeStep] using (DraftCache.mem_nonzero.mp mem).1
    subst own
    constructor
    · rintro ⟨st', drafts', mem, -, skipped⟩
      obtain ⟨rfl, rfl⟩ : st' = promptStep ∧ drafts' = draftOne := by simpa using mem
      exact absurd skipped (by decide)
    · simp [SwapsRun, promptStep]
    · simp [decodeStep]
  · simp only [List.cons_append, List.nil_append, List.cons.injEq, Event.step.injEq] at split
    obtain ⟨-, ⟨rfl, rfl⟩, -⟩ := split
    exact absurd speculates (by decide)
  · simp at split
  · simp at split

/-- The worker speculates again on the request that it has run without the draft model, which has no
entry for the position before the last token. -/
theorem crowded_not_covered :
    Run (Serves crowdable 1 id) {} [.step (decodeStep 2 [1, 4]) draftOne, .step promptStep draftOne,
      .arrive 1 [1]] crowded ∧
    Built crowdable 1 id crowded (decodeStep 1 [1, 4, 5]) draftOne ∧
    crowdable.noSpec (decodeStep 1 [1, 4, 5]).request = false ∧
    decodeOf 1 [1, 4, 5] ∈ crowdable.nonzeroProposalLenSeqs (decodeStep 1 [1, 4, 5]).request ∧
    ¬Covered ((crowded.draft.startStep (decodeStep 1 [1, 4, 5]).request).gpu 1)
      (expandGroups (crowded.worker.trackFinishedRequests []).seqWithBonusTokenInLastStep
        (crowdable.nonzeroProposalLenSeqs (decodeStep 1 [1, 4, 5]).request)) (decodeOf 1 [1, 4, 5]) ∧
    Skipped crowdable [.step (decodeStep 2 [1, 4]) draftOne, .step promptStep draftOne,
      .arrive 1 [1]] 1 := by
  refine ⟨?_, ?_, by decide, by decide, ?_, ?_⟩
  · exact Run.call prompted_run (.step (decodeStep_built (by decide)) rfl)
  · exact
      { distinct := by decide
        groups := by
          intro group mem
          obtain rfl : group = decodeOf 1 [1, 4, 5] := by simpa [decodeStep] using mem
          constructor <;> decide
        lookahead := rfl
        swapIn := by simp [decodeStep, crowded, prompted, arrived, Served.after, promptStep]
        swapOut := by simp [decodeStep]
        complete := rfl
        outputs := by decide
        drafted := fun _ => rfl
        accepted := by decide }
  · intro covered
    rcases covered 1 (by decide) with entry | ⟨draft, mem, -, writes⟩
    · exact absurd entry (by decide)
    · have own : draft = { group := decodeOf 1 [1, 4, 5], withoutBonus := false } := by
        have mem : draft ∈ [({ group := decodeOf 1 [1, 4, 5], withoutBonus := false } : DraftGroup)] :=
          mem
        simpa using mem
      rw [own] at writes
      exact absurd writes (by decide)
  · exact ⟨decodeStep 2 [1, 4], draftOne, List.mem_cons_self, by decide, by decide⟩

end Vllm.SpecDecode
