import VllmProofs.Data.Runs
import VllmProofs.SpecDecode.Worker

/-!
Whose hidden states the draft model gets. A step without speculation appends rows to the ones already
there, a speculative step replaces them, and a sequence is looked up by its first row.
-/

namespace Vllm.SpecDecode

section History
variable (cfg : SpecDecodeConfig)

namespace WorkerStep

def seqIds (st : WorkerStep) : List SeqId := getAllSeqIds st.request.seqGroupMetadataList

/-- The sequences that the step yields a token for. -/
def sampledGroups (st : WorkerStep) : List SequenceGroupMetadata :=
  st.request.seqGroupMetadataList.filter (·.doSample)

def sampled (st : WorkerStep) : List SeqId := getAllSeqIds st.sampledGroups

/-- The tokens that the step yields for a sequence. -/
def outputOf (st : WorkerStep) (seqId : SeqId) : List TokenId :=
  ((st.seqIds.zip st.outputs).lookup seqId).getD []

/-- Which of the scored tokens of a sequence is its last accepted one. -/
def lastIndex (st : WorkerStep) (seqId : SeqId) : ℕ :=
  if cfg.noSpec st.request then 0 else (st.outputOf seqId).length - 1

end WorkerStep

/-- The latest pass of the target over a sequence, where it yielded a token, and which of the scored
tokens was the last accepted one. Histories have the latest step first. -/
def latestPass : List WorkerStep → SeqId → Option (ℕ × ℕ)
  | [], _ => none
  | st :: older, seqId =>
    if seqId ∈ st.seqIds then
      if seqId ∈ st.sampled then some (older.length, st.lastIndex cfg seqId) else none
    else latestPass older seqId

structure Yields (request : ExecuteModelRequest) (group : SequenceGroupMetadata)
    (tokens : List TokenId) : Prop where
  real : ∀ token ∈ tokens, token ≠ -1
  unsampled : group.doSample = false → tokens = []
  sampled : group.doSample = true → tokens ≠ []
  bound : tokens.length ≤ if cfg.noSpec request = false ∧ cfg.proposes request.numLookaheadSlots group
    then request.numLookaheadSlots + 1 else 1

/-- What the scheduler and the sampler see to: sequences are in a batch once, and decode once their
prompt has yielded a token. -/
structure Scheduled (older : List WorkerStep) (st : WorkerStep) : Prop where
  distinct : st.seqIds.Nodup
  decodes : ∀ group ∈ st.request.seqGroupMetadataList, group.isPrompt = false →
    group.doSample = true ∧ (latestPass cfg older group.seqId).isSome
  complete : st.outputs.length = st.request.seqGroupMetadataList.length
  outputs : ∀ entry ∈ st.request.seqGroupMetadataList.zip st.outputs,
    Yields cfg st.request entry.1 entry.2

def ScheduledRun : List WorkerStep → Prop
  | [] => True
  | st :: older => Scheduled cfg older st ∧ ScheduledRun older

instance (request : ExecuteModelRequest) (group : SequenceGroupMetadata) (tokens : List TokenId) :
    Decidable (Yields cfg request group tokens) :=
  decidable_of_iff ((∀ token ∈ tokens, token ≠ -1) ∧ (group.doSample = false → tokens = []) ∧
    (group.doSample = true → tokens ≠ []) ∧
    tokens.length ≤ if cfg.noSpec request = false ∧ cfg.proposes request.numLookaheadSlots group
      then request.numLookaheadSlots + 1 else 1)
    ⟨fun ⟨real, unsampled, sampled, bound⟩ => ⟨real, unsampled, sampled, bound⟩,
      fun ⟨real, unsampled, sampled, bound⟩ => ⟨real, unsampled, sampled, bound⟩⟩

instance (older : List WorkerStep) (st : WorkerStep) : Decidable (Scheduled cfg older st) :=
  decidable_of_iff (st.seqIds.Nodup ∧ (∀ group ∈ st.request.seqGroupMetadataList, group.isPrompt = false →
      group.doSample = true ∧ (latestPass cfg older group.seqId).isSome) ∧
    st.outputs.length = st.request.seqGroupMetadataList.length ∧
    ∀ entry ∈ st.request.seqGroupMetadataList.zip st.outputs, Yields cfg st.request entry.1 entry.2)
    ⟨fun ⟨distinct, decodes, complete, outputs⟩ => ⟨distinct, decodes, complete, outputs⟩,
      fun ⟨distinct, decodes, complete, outputs⟩ => ⟨distinct, decodes, complete, outputs⟩⟩

instance decidableScheduledRun : (history : List WorkerStep) → Decidable (ScheduledRun cfg history)
  | [] => .isTrue trivial
  | _ :: older =>
    have := decidableScheduledRun older
    inferInstanceAs (Decidable (_ ∧ _))

/-- The step does not raise. -/
def Executes (w : SpecDecodeWorker) (st : WorkerStep) (w' : SpecDecodeWorker) : Prop :=
  ∃ calls, w.executeModel cfg st = .ok (w', calls)

end History

/-- The worker after a step that does not raise. -/
def SpecDecodeWorker.next? (cfg : SpecDecodeConfig) (w : SpecDecodeWorker) (st : WorkerStep) :
    Option SpecDecodeWorker :=
  match w.executeModel cfg st with
  | .ok (w', _) => some w'
  | .error _ => none

variable {w : SpecDecodeWorker} {st : WorkerStep}

variable {cfg : SpecDecodeConfig}

theorem mem_zip_of_mem {α β : Type} {xs : List α} {ys : List β} {x : α} (mem : x ∈ xs)
    (sized : ys.length = xs.length) : ∃ y, (x, y) ∈ xs.zip ys := by
  rw [← @List.map_fst_zip _ _ xs ys sized.ge] at mem
  obtain ⟨entry, listed, rfl⟩ := List.mem_map.mp mem
  exact ⟨entry.2, listed⟩

theorem lookup_zip {α β : Type} {f : α → SeqId} {xs : List α} {ys : List β}
    (distinct : (xs.map f).Nodup) {x : α} {y : β} (mem : (x, y) ∈ xs.zip ys) :
    ((xs.map f).zip ys).lookup (f x) = some y := by
  induction xs generalizing ys with
  | nil => simp at mem
  | cons head rest ih =>
    cases ys with
    | nil => simp at mem
    | cons first ys =>
      rw [List.map_cons, List.nodup_cons] at distinct
      rw [List.zip_cons_cons, List.mem_cons] at mem
      rw [List.map_cons, List.zip_cons_cons, List.lookup_cons]
      rcases mem with same | mem
      · cases same
        simp
      · have other : f x ≠ f head := by
          intro same
          exact distinct.1 (same ▸ List.mem_map_of_mem (List.of_mem_zip mem).1)
        rw [beq_eq_false_iff_ne.mpr other]
        exact ih distinct.2 mem

variable {group : SequenceGroupMetadata} {tokens : List TokenId}

theorem WorkerStep.outputOf_eq (distinct : st.seqIds.Nodup)
    (mem : (group, tokens) ∈ st.request.seqGroupMetadataList.zip st.outputs) :
    st.outputOf group.seqId = tokens := by
  rw [outputOf, seqIds, getAllSeqIds, lookup_zip distinct mem, Option.getD_some]

theorem sampledRows_kept (pass : ℕ) (groups : List SequenceGroupMetadata) :
    (sampledRows pass groups).filter (·.2) =
      (groups.filter (·.doSample)).map fun group => (.state group.seqId pass 0, true) := by
  induction groups with
  | nil => rfl
  | cons group rest ih =>
    rw [sampledRows, List.flatMap_cons, List.filter_append, ← sampledRows, ih, List.filter_append]
    have dropped : (if group.isPrompt then
        List.replicate group.promptLogprobRows (HiddenRow.prompt group.seqId pass, false)
        else []).filter (·.2) = [] := by
      split_ifs <;> simp
    rw [dropped]
    by_cases sample : group.doSample <;> simp [sample]

theorem countP_sampledRows (pass : ℕ) (groups : List SequenceGroupMetadata) :
    (sampledRows pass groups).countP (·.2) = (groups.filter (·.doSample)).length := by
  rw [List.countP_eq_length_filter, sampledRows_kept, List.length_map]

/-- The rows of the sequences that a step without speculation yields a token for. -/
def unspeculatedRows (pass : ℕ) (groups : List SequenceGroupMetadata) : List HiddenRow :=
  (groups.filter (·.doSample)).map fun group => .state group.seqId pass 0

variable {pass : ℕ} {groups : List SequenceGroupMetadata}

theorem kept_rows {kept : List (HiddenRow × Bool)}
    (choice : kept = sampledRows pass groups ∨ kept = (sampledRows pass groups).filter (·.2))
    (sized : (groups.filter (·.doSample)).length = (kept.map Prod.fst).length) :
    kept.map Prod.fst = unspeculatedRows pass groups := by
  have whole : kept = (sampledRows pass groups).filter (·.2) := by
    rcases choice with all | dropped
    · subst all
      rw [← countP_sampledRows pass, List.length_map, List.countP_eq_length] at sized
      exact (List.filter_eq_self.mpr sized).symm
    · exact dropped
  rw [whole, sampledRows_kept, List.map_map, unspeculatedRows]
  rfl

namespace SpecDecodeWorker

theorem storeHiddenStates_cases {previous next : Option HiddenStates} (done : storeHiddenStates previous pass groups = .ok next) :
    (groups.filter (·.doSample) = [] ∧ next = previous) ∨
    (previous = none ∧ next = some
      { hiddenStates := unspeculatedRows pass groups
        secondLastTokenHiddenStates := none
        seqIds := getAllSeqIds (groups.filter (·.doSample)) }) ∨
    ∃ hs, previous = some hs ∧ next = some
      { hiddenStates := hs.hiddenStates ++ unspeculatedRows pass groups
        secondLastTokenHiddenStates := hs.secondLastTokenHiddenStates.map (· ++
          List.replicate (unspeculatedRows pass groups).length .zeros)
        seqIds := hs.seqIds ++ getAllSeqIds (groups.filter (·.doSample)) } := by
  simp only [storeHiddenStates] at done
  generalize filtered : (if (groups.filter (·.doSample)).any (·.isPrompt) then
    (sampledRows pass groups).filter (·.2) else sampledRows pass groups) = kept at done
  have choice : kept = sampledRows pass groups ∨ kept = (sampledRows pass groups).filter (·.2) := by
    rw [← filtered]
    split_ifs <;> simp
  by_cases nothing : groups.filter (·.doSample) = []
  · rw [if_pos nothing] at done
    exact Or.inl ⟨nothing, (Except.ok.inj done).symm⟩
  · rw [if_neg nothing] at done
    right
    by_cases sized : (groups.filter (·.doSample)).length = (kept.map Prod.fst).length
    · rw [kept_rows choice sized] at done
      have stored : (groups.filter (·.doSample)).length = (unspeculatedRows pass groups).length := by
        rw [unspeculatedRows, List.length_map]
      cases previous with
      | none =>
        simp only [HiddenStates.init, if_pos stored] at done
        exact Or.inl ⟨rfl, (Except.ok.inj done).symm⟩
      | some hs =>
        simp only [HiddenStates.update, if_pos stored] at done
        exact Or.inr ⟨hs, rfl, (Except.ok.inj done).symm⟩
    · exfalso
      cases previous with
      | none =>
        simp only [HiddenStates.init, if_neg sized] at done
        cases done
      | some hs =>
        simp only [HiddenStates.update, if_neg sized] at done
        cases done

end SpecDecodeWorker

theorem countP_acceptedTokenIds (k : ℕ) (real : ∀ token ∈ tokens, token ≠ -1) :
    (acceptedTokenIds k tokens).countP (· ≠ -1) = tokens.length := by
  rw [acceptedTokenIds, List.countP_append, List.countP_eq_length.mpr (by simpa using real),
    List.countP_eq_zero.mpr, Nat.add_zero]
  intro token mem
  simp [List.eq_of_mem_replicate mem]

theorem acceptedTokenIds_last {k : ℕ} (real : ∀ token ∈ tokens, token ≠ -1)
    (bound : tokens.length ≤ k + 1) :
    (acceptedTokenIds k tokens).getD k (-1) ≠ -1 ↔ tokens.length = k + 1 := by
  rw [acceptedTokenIds]
  rcases Nat.lt_or_ge k tokens.length with inside | outside
  · rw [List.getD_append _ _ _ _ inside, List.getD_eq_getElem _ _ inside]
    have token := real _ (List.getElem_mem inside)
    exact ⟨fun _ => by omega, fun _ => token⟩
  · rw [List.getD_append_right _ _ _ _ outside]
    have padding : (List.replicate (k + 1 - tokens.length) (-1 : TokenId)).getD (k - tokens.length) (-1) =
        -1 := by
      rw [List.getD_replicate]
      omega
    rw [padding]
    constructor
    · intro other
      exact absurd rfl other
    · omega

variable {seqId : SeqId} {bonus : Finset SeqId}

section Verified
variable {st : WorkerStep} {older : List WorkerStep}

theorem scoredRows_accepted (pass : ℕ) (yields : Yields cfg st.request group tokens) :
    (scoredRows cfg st.request.numLookaheadSlots pass group).getD (tokens.length - 1) .zeros =
      .state group.seqId pass (tokens.length - 1) := by
  have bound := yields.bound
  unfold scoredRows
  split_ifs with proposed
  · have inside : tokens.length - 1 < st.request.numLookaheadSlots + 1 := by
      split_ifs at bound <;> omega
    rw [List.getD_eq_getElem _ _ (by simpa using inside)]
    simp
  · rw [if_neg (by simp [proposed])] at bound
    have first : tokens.length - 1 = 0 := by omega
    rw [first, List.getD_cons_zero]

def WorkerStep.sampledEntries (st : WorkerStep) : List (SequenceGroupMetadata × List TokenId) :=
  (st.request.seqGroupMetadataList.zip st.outputs).filter fun entry => entry.1.doSample

theorem mem_of_sampledEntries {entry : SequenceGroupMetadata × List TokenId}
    (mem : entry ∈ st.sampledEntries) : entry ∈ st.request.seqGroupMetadataList.zip st.outputs :=
  (List.mem_filter.mp mem).1

theorem sampledEntries_groups (scheduled : Scheduled cfg older st) :
    st.sampledEntries.map Prod.fst = st.sampledGroups := by
  have firsts := @List.map_fst_zip _ _ st.request.seqGroupMetadataList st.outputs
    scheduled.complete.ge
  calc st.sampledEntries.map Prod.fst
      = ((st.request.seqGroupMetadataList.zip st.outputs).map Prod.fst).filter (·.doSample) := by
        rw [List.filter_map]
        rfl
    _ = st.sampledGroups := by rw [firsts, WorkerStep.sampledGroups]

theorem kept_entries (scheduled : Scheduled cfg older st) (pass : ℕ) :
    ((st.request.seqGroupMetadataList.map (scoredRows cfg st.request.numLookaheadSlots pass)).zip
        (st.outputs.map fun tokens => ((acceptedTokenIds st.request.numLookaheadSlots tokens).countP
          (· ≠ -1) : ℤ) - 1)).filter (fun entry => entry.2 ≠ -1) =
      st.sampledEntries.map fun entry => (scoredRows cfg st.request.numLookaheadSlots pass entry.1,
        (entry.2.length : ℤ) - 1) := by
  rw [List.zip_map, List.filter_map]
  have same : ∀ entry ∈ st.request.seqGroupMetadataList.zip st.outputs,
      ((fun entry : List HiddenRow × ℤ => decide (entry.2 ≠ -1)) ∘ Prod.map
        (scoredRows cfg st.request.numLookaheadSlots pass) (fun tokens : List TokenId =>
          ((acceptedTokenIds st.request.numLookaheadSlots tokens).countP (· ≠ -1) : ℤ) - 1)) entry =
      entry.1.doSample := by
    intro entry mem
    have yields := scheduled.outputs entry mem
    have counted := countP_acceptedTokenIds st.request.numLookaheadSlots yields.real
    simp only [Function.comp_apply, Prod.map_snd, counted]
    cases sample : entry.1.doSample with
    | false => simp [yields.unsampled sample]
    | true =>
      have some := List.length_pos_iff.mpr (yields.sampled sample)
      simp only [decide_eq_true_eq]
      omega
  rw [List.filter_congr same, ← WorkerStep.sampledEntries]
  apply List.map_congr_left
  intro entry mem
  have counted := countP_acceptedTokenIds st.request.numLookaheadSlots
    (scheduled.outputs entry (mem_of_sampledEntries mem)).real
  simp only [Prod.map, counted]

/-- What a speculative step stores: the states at the last accepted tokens, and beside each the state
at the last draft token but one. -/
theorem verifiedHiddenStates_ok (scheduled : Scheduled cfg older st) (pass : ℕ) :
    verifiedHiddenStates cfg st.request.numLookaheadSlots pass st.request.seqGroupMetadataList
        st.outputs = .ok
      { hiddenStates := st.sampledGroups.map fun group =>
          .state group.seqId pass ((st.outputOf group.seqId).length - 1)
        secondLastTokenHiddenStates := some (st.sampledGroups.map fun group =>
          (scoredRows cfg st.request.numLookaheadSlots pass group).getD
            (st.request.numLookaheadSlots - 1) .zeros)
        seqIds := st.sampled } := by
  have terminal : st.request.seqGroupMetadataList.filter (·.doSample) =
      st.sampledEntries.map Prod.fst := (sampledEntries_groups scheduled).symm
  have accepted : st.sampledEntries.map (fun entry =>
        (scoredRows cfg st.request.numLookaheadSlots pass entry.1).getD
          ((entry.2.length : ℤ) - 1).toNat .zeros) =
      st.sampledEntries.map fun entry =>
        .state entry.1.seqId pass ((st.outputOf entry.1.seqId).length - 1) := by
    apply List.map_congr_left
    intro entry mem
    have listed := mem_of_sampledEntries mem
    have index : ((entry.2.length : ℤ) - 1).toNat = entry.2.length - 1 := by omega
    rw [WorkerStep.outputOf_eq scheduled.distinct listed, index,
      scoredRows_accepted pass (scheduled.outputs entry listed)]
  simp only [verifiedHiddenStates, kept_entries scheduled, WorkerStep.sampled, WorkerStep.sampledGroups,
    terminal, HiddenStates.init, List.length_map, if_true, List.map_map, Function.comp_def, accepted]

/-- After the loop over a batch, its sequences are marked that were not found `empty`, and others that
were marked before. -/
theorem mem_marks (empty : List TokenId → Prop) [DecidablePred empty]
    {entries : List (SequenceGroupMetadata × List TokenId)}
    (distinct : (entries.map fun entry => entry.1.seqId).Nodup) :
    seqId ∈ entries.foldl (fun bonus (group, tokens) =>
      if empty tokens then bonus.erase group.seqId else insert group.seqId bonus) bonus ↔
    (∃ entry ∈ entries, entry.1.seqId = seqId ∧ ¬empty entry.2) ∨
      (∀ entry ∈ entries, entry.1.seqId ≠ seqId) ∧ seqId ∈ bonus := by
  induction entries generalizing bonus with
  | nil => simp
  | cons entry rest ih =>
    rw [List.map_cons, List.nodup_cons] at distinct
    rw [List.foldl_cons, ih distinct.2]
    dsimp only
    by_cases own : entry.1.seqId = seqId
    · subst own
      have alone : ∀ later ∈ rest, later.1.seqId ≠ entry.1.seqId := by
        intro later mem same
        exact distinct.1 (same ▸ List.mem_map_of_mem mem)
      have nothing : ¬∃ later ∈ rest, later.1.seqId = entry.1.seqId ∧ ¬empty later.2 := by
        rintro ⟨later, mem, same, -⟩
        exact alone later mem same
      rw [or_iff_right nothing, and_iff_right alone]
      constructor
      · intro marked
        refine Or.inl ⟨entry, List.mem_cons_self, rfl, ?_⟩
        intro last
        simp [last] at marked
      · rintro (⟨later, mem, same, last⟩ | ⟨absent, -⟩)
        · rcases List.mem_cons.mp mem with rfl | mem
          · simp [last]
          · exact absurd same (alone later mem)
        · exact absurd rfl (absent entry List.mem_cons_self)
    · have same : seqId ∈ (if empty entry.2 then bonus.erase entry.1.seqId
          else insert entry.1.seqId bonus) ↔ seqId ∈ bonus := by
        split_ifs <;> simp [Ne.symm own]
      rw [same]
      simp [own]

/-- Which sequences a speculative step leaves marked. -/
theorem mem_tracked (distinct : st.seqIds.Nodup)
    (complete : st.outputs.length = st.request.seqGroupMetadataList.length)
    (outputs : ∀ entry ∈ st.request.seqGroupMetadataList.zip st.outputs,
      Yields cfg st.request entry.1 entry.2)
    (w : SpecDecodeWorker) :
    seqId ∈ (w.trackSequencesWithBonusTokens st.request.numLookaheadSlots
      st.request.seqGroupMetadataList st.outputs).seqWithBonusTokenInLastStep ↔
    if seqId ∈ st.seqIds then (st.outputOf seqId).length = st.request.numLookaheadSlots + 1
    else seqId ∈ w.seqWithBonusTokenInLastStep := by
  have firsts : (st.request.seqGroupMetadataList.zip st.outputs).map (fun entry => entry.1.seqId) =
      st.seqIds := by
    calc (st.request.seqGroupMetadataList.zip st.outputs).map (fun entry => entry.1.seqId)
        = ((st.request.seqGroupMetadataList.zip st.outputs).map Prod.fst).map (·.seqId) := by
          rw [List.map_map]
          rfl
      _ = st.seqIds := by
          rw [List.map_fst_zip complete.ge]
          rfl
  refine (mem_marks (fun tokens => (acceptedTokenIds st.request.numLookaheadSlots tokens).getD
    st.request.numLookaheadSlots (-1) = -1) (firsts ▸ distinct)).trans ?_
  split_ifs with listed
  · obtain ⟨group, mem, rfl⟩ := List.mem_map.mp listed
    obtain ⟨tokens, entry⟩ := mem_zip_of_mem mem complete
    have yields := outputs _ entry
    have bound : tokens.length ≤ st.request.numLookaheadSlots + 1 := by
      have bound := yields.bound
      dsimp only at bound
      split_ifs at bound <;> omega
    rw [WorkerStep.outputOf_eq distinct entry, ← acceptedTokenIds_last yields.real bound]
    constructor
    · rintro (⟨other, listed, same, last⟩ | ⟨absent, -⟩)
      · have output := @WorkerStep.outputOf_eq st other.1 other.2 distinct listed
        rw [same, WorkerStep.outputOf_eq distinct entry] at output
        rw [output]
        exact last
      · exact absurd rfl (absent _ entry)
    · intro last
      exact Or.inl ⟨_, entry, rfl, last⟩
  · have absent : ∀ entry ∈ st.request.seqGroupMetadataList.zip st.outputs, entry.1.seqId ≠ seqId := by
      intro entry mem same
      exact listed (same ▸ List.mem_map_of_mem (List.of_mem_zip mem).1)
    constructor
    · rintro (⟨entry, mem, same, -⟩ | ⟨-, marked⟩)
      · exact absurd same (absent entry mem)
      · exact marked
    · intro marked
      exact Or.inr ⟨absent, marked⟩

theorem marked_after (scheduled : Scheduled cfg older st) (w : SpecDecodeWorker)
    (mem : seqId ∈ (w.trackSequencesWithBonusTokens st.request.numLookaheadSlots
      st.request.seqGroupMetadataList st.outputs).seqWithBonusTokenInLastStep) :
    seqId ∈ st.seqIds → (st.outputOf seqId).length = st.request.numLookaheadSlots + 1 := by
  intro listed
  have tracked := (mem_tracked scheduled.distinct scheduled.complete scheduled.outputs w).mp mem
  rwa [if_pos listed] at tracked

end Verified

namespace SpecDecodeWorker

theorem trackFinishedRequests_frame (w : SpecDecodeWorker) (finished : List RequestId) :
    (w.trackFinishedRequests finished).previousHiddenStates = w.previousHiddenStates ∧
      (w.trackFinishedRequests finished).passes = w.passes ∧
      (w.trackFinishedRequests finished).seqWithBonusTokenInLastStep ⊆ w.seqWithBonusTokenInLastStep := by
  induction finished generalizing w with
  | nil => exact ⟨rfl, rfl, Finset.Subset.refl _⟩
  | cons requestId rest ih =>
    obtain ⟨previous, passes, marks⟩ := ih { w with
      seqWithBonusTokenInLastStep :=
        w.seqWithBonusTokenInLastStep \ w.requestIdSeqIdMapping requestId
      requestIdSeqIdMapping := Function.update w.requestIdSeqIdMapping requestId ∅ }
    exact ⟨previous, passes, marks.trans Finset.sdiff_subset⟩

end SpecDecodeWorker
-- The first row of a sequence

structure FirstRow where
  pass : ℕ
  index : ℕ
  speculative : Bool

/-- The row of a sequence that a step yields a token for. -/
def ownRow (cfg : SpecDecodeConfig) (older : List WorkerStep) (st : WorkerStep) (seqId : SeqId) :
    Option FirstRow :=
  if seqId ∈ st.sampled then
    some { pass := older.length, index := st.lastIndex cfg seqId, speculative := !cfg.noSpec st.request }
  else none

/-- Rows are appended until a speculative step replaces them. -/
def firstRow (cfg : SpecDecodeConfig) : List WorkerStep → SeqId → Option FirstRow
  | [], _ => none
  | st :: older, seqId =>
    if cfg.noSpec st.request then (firstRow cfg older seqId).or (ownRow cfg older st seqId)
    else ownRow cfg older st seqId

variable {f : FirstRow}

variable {history : List WorkerStep}

structure Recorded (cfg : SpecDecodeConfig) (history : List WorkerStep) (bonus : Finset SeqId)
    (hs : HiddenStates) : Prop where
  shaped : hs.Shaped
  unmarked : hs.secondLastTokenHiddenStates = none → bonus = ∅
  listed : ∀ seqId, seqId ∈ hs.seqIds ↔ (firstRow cfg history seqId).isSome
  rows : ∀ seqId f, firstRow cfg history seqId = some f → hs.row seqId = .state seqId f.pass f.index
  seconds : ∀ seqId ∈ bonus, ∀ f, firstRow cfg history seqId = some f → f.speculative = true →
    1 ≤ f.index ∧ hs.secondRow seqId = .state seqId f.pass (f.index - 1)
  padded : ∀ seqId f, firstRow cfg history seqId = some f → f.speculative = false →
    hs.secondRow seqId = .zeros

structure Records (cfg : SpecDecodeConfig) (history : List WorkerStep) (w : SpecDecodeWorker) :
    Prop where
  passes : w.passes = history.length
  nothing : w.previousHiddenStates = none →
    (∀ seqId, firstRow cfg history seqId = none) ∧ w.seqWithBonusTokenInLastStep = ∅
  recorded : ∀ hs, w.previousHiddenStates = some hs →
    Recorded cfg history w.seqWithBonusTokenInLastStep hs

section Recorded
variable {history older : List WorkerStep} {st : WorkerStep} {bonus : Finset SeqId} {hs : HiddenStates}

theorem Recorded.mono {bonus' : Finset SeqId} (recorded : Recorded cfg history bonus hs)
    (fewer : bonus' ⊆ bonus) : Recorded cfg history bonus' hs where
  shaped := recorded.shaped
  unmarked none := by
    have empty := recorded.unmarked none
    subst empty
    exact Finset.subset_empty.mp fewer
  listed := recorded.listed
  rows := recorded.rows
  seconds seqId mem := recorded.seconds seqId (fewer mem)
  padded := recorded.padded

theorem Records.finished (records : Records cfg history w)
    (finished : List RequestId) : Records cfg history (w.trackFinishedRequests finished) := by
  obtain ⟨previous, passes, marks⟩ := w.trackFinishedRequests_frame finished
  constructor
  · rw [passes, records.passes]
  · intro none
    obtain ⟨rows, empty⟩ := records.nothing (previous ▸ none)
    exact ⟨rows, Finset.subset_empty.mp (empty ▸ marks)⟩
  · intro hs stored
    exact (records.recorded hs (previous ▸ stored)).mono marks

theorem firstRow_unsampled (older : List WorkerStep) (noSpec : cfg.noSpec st.request = true)
    (nothing : st.sampledGroups = []) (seqId : SeqId) : firstRow cfg (st :: older) seqId = firstRow cfg older seqId := by
  simp [firstRow, ownRow, noSpec, WorkerStep.sampled, nothing, getAllSeqIds]

theorem sampled_nodup (scheduled : Scheduled cfg older st) : st.sampled.Nodup :=
  scheduled.distinct.sublist (List.filter_sublist.map _)

theorem mem_sampled : seqId ∈ st.sampled ↔ ∃ group ∈ st.sampledGroups, group.seqId = seqId := by
  simp [WorkerStep.sampled, getAllSeqIds]

theorem Recorded.start (scheduled : Scheduled cfg older st) (noSpec : cfg.noSpec st.request = true)
    (nothing : ∀ seqId, firstRow cfg older seqId = none) :
    Recorded cfg (st :: older) ∅
      { hiddenStates := unspeculatedRows older.length st.request.seqGroupMetadataList
        secondLastTokenHiddenStates := none
        seqIds := st.sampled } where
  shaped := ⟨by simp [unspeculatedRows, WorkerStep.sampled, WorkerStep.sampledGroups, getAllSeqIds],
    by simp⟩
  unmarked _ := rfl
  listed seqId := by
    by_cases sampled : seqId ∈ st.sampled <;> simp [firstRow, ownRow, noSpec, nothing, sampled]
  rows seqId f found := by
    simp only [firstRow, noSpec, if_true, nothing, Option.none_or, ownRow] at found
    split_ifs at found with sampled
    obtain rfl := Option.some.inj found
    obtain ⟨group, mem, rfl⟩ := mem_sampled.mp sampled
    simp only [WorkerStep.lastIndex, noSpec, if_true]
    exact getD_map_idxOf (sampled_nodup scheduled) (fun group => .state group.seqId older.length 0) mem
  seconds seqId mem := by simp at mem
  padded _ _ _ _ := by simp [HiddenStates.secondRow]

/-- Later rows of a sequence do not show. -/
theorem Recorded.append (scheduled : Scheduled cfg older st) (noSpec : cfg.noSpec st.request = true)
    (recorded : Recorded cfg older bonus hs) :
    Recorded cfg (st :: older) bonus
      { hiddenStates := hs.hiddenStates ++ unspeculatedRows older.length st.request.seqGroupMetadataList
        secondLastTokenHiddenStates := hs.secondLastTokenHiddenStates.map (· ++ List.replicate
          (unspeculatedRows older.length st.request.seqGroupMetadataList).length .zeros)
        seqIds := hs.seqIds ++ st.sampled } := by
  have sized : (unspeculatedRows older.length st.request.seqGroupMetadataList).length =
      st.sampled.length := by
    simp [unspeculatedRows, WorkerStep.sampled, WorkerStep.sampledGroups, getAllSeqIds]
  -- a sequence with a row keeps it, and gets one otherwise
  have origin : ∀ seqId f, firstRow cfg (st :: older) seqId = some f →
      firstRow cfg older seqId = some f ∧ seqId ∈ hs.seqIds ∨
      seqId ∉ hs.seqIds ∧ seqId ∈ st.sampled ∧
        f = { pass := older.length, index := 0, speculative := false } := by
    intro seqId f found
    simp only [firstRow, noSpec, if_true] at found
    rcases Option.or_eq_some_iff.mp found with before | ⟨nothing, last⟩
    · exact Or.inl ⟨before, (recorded.listed seqId).mpr (by simp [before])⟩
    · right
      unfold ownRow at last
      split_ifs at last with sampled
      refine ⟨?_, sampled, ?_⟩
      · rw [recorded.listed seqId, nothing]
        simp
      · simpa [WorkerStep.lastIndex, noSpec] using (Option.some.inj last).symm
  have kept : ∀ seqId ∈ hs.seqIds, (hs.seqIds ++ st.sampled).idxOf seqId = hs.seqIds.idxOf seqId :=
    fun seqId mem => List.idxOf_append_of_mem mem
  have added : ∀ seqId, seqId ∉ hs.seqIds →
      (hs.seqIds ++ st.sampled).idxOf seqId = hs.seqIds.length + st.sampled.idxOf seqId :=
    fun seqId absent => List.idxOf_append_of_notMem absent
  have secondKept : ∀ seqId ∈ hs.seqIds, HiddenStates.secondRow
      { hiddenStates := hs.hiddenStates ++ unspeculatedRows older.length st.request.seqGroupMetadataList
        secondLastTokenHiddenStates := hs.secondLastTokenHiddenStates.map (· ++ List.replicate
          (unspeculatedRows older.length st.request.seqGroupMetadataList).length .zeros)
        seqIds := hs.seqIds ++ st.sampled } seqId = hs.secondRow seqId := by
    intro seqId mem
    simp only [HiddenStates.secondRow, kept seqId mem]
    cases second : hs.secondLastTokenHiddenStates with
    | none => rfl
    | some rows =>
      have inside := recorded.shaped.second rows second ▸ HiddenStates.idxOf_lt mem
      rw [Option.map_some, Option.getD_some, Option.getD_some, List.getD_append _ _ _ _ inside]
  constructor
  · constructor
    · rw [List.length_append, List.length_append, recorded.shaped.rows, sized]
    · intro rows mem
      obtain ⟨before, found, rfl⟩ := Option.mem_map.mp mem
      rw [List.length_append, List.length_append, List.length_replicate, sized,
        recorded.shaped.second before found]
  · intro none
    exact recorded.unmarked (Option.map_eq_none_iff.mp none)
  · intro seqId
    rw [List.mem_append, recorded.listed seqId]
    by_cases sampled : seqId ∈ st.sampled <;> simp [firstRow, ownRow, noSpec, sampled]
  · intro seqId f found
    rcases origin seqId f found with ⟨before, mem⟩ | ⟨absent, sampled, rfl⟩
    · rw [HiddenStates.row, kept seqId mem, List.getD_append _ _ _ _
        (recorded.shaped.rows ▸ HiddenStates.idxOf_lt mem)]
      exact recorded.rows seqId f before
    · obtain ⟨group, mem, rfl⟩ := mem_sampled.mp sampled
      rw [HiddenStates.row, added _ absent, List.getD_append_right _ _ _ _
        (by rw [recorded.shaped.rows]; omega), recorded.shaped.rows, Nat.add_sub_cancel_left]
      exact getD_map_idxOf (sampled_nodup scheduled)
        (fun group => .state group.seqId older.length 0) mem
  · intro seqId mem f found speculative
    rcases origin seqId f found with ⟨before, listed⟩ | ⟨-, -, rfl⟩
    · rw [secondKept seqId listed]
      exact recorded.seconds seqId mem f before speculative
    · cases speculative
  · intro seqId f found unspeculative
    rcases origin seqId f found with ⟨before, listed⟩ | ⟨absent, -, -⟩
    · rw [secondKept seqId listed]
      exact recorded.padded seqId f before unspeculative
    · simp only [HiddenStates.secondRow, added seqId absent]
      cases second : hs.secondLastTokenHiddenStates with
      | none => rfl
      | some rows =>
        have length := recorded.shaped.second rows second
        rw [Option.map_some, Option.getD_some, List.getD_append_right _ _ _ _ (by omega),
          List.getD_eq_getElem?_getD, List.getElem?_getD_replicate_default_eq]

theorem lookahead_pos {request : ExecuteModelRequest} (speculates : cfg.noSpec request = false) :
    0 < request.numLookaheadSlots := by
  simp only [SpecDecodeConfig.noSpec, Bool.or_eq_false_iff, decide_eq_false_iff_not] at speculates
  omega

/-- A speculative step replaces all rows. -/
theorem Recorded.replace (scheduled : Scheduled cfg older st)
    (speculates : cfg.noSpec st.request = false)
    (marked : ∀ seqId ∈ bonus, seqId ∈ st.sampled →
      (st.outputOf seqId).length = st.request.numLookaheadSlots + 1) :
    Recorded cfg (st :: older) bonus
      { hiddenStates := st.sampledGroups.map fun group =>
          .state group.seqId older.length ((st.outputOf group.seqId).length - 1)
        secondLastTokenHiddenStates := some (st.sampledGroups.map fun group =>
          (scoredRows cfg st.request.numLookaheadSlots older.length group).getD
            (st.request.numLookaheadSlots - 1) .zeros)
        seqIds := st.sampled } where
  shaped := ⟨by simp [WorkerStep.sampled, getAllSeqIds], by simp [WorkerStep.sampled, getAllSeqIds]⟩
  unmarked none := by cases none
  listed seqId := by
    by_cases sampled : seqId ∈ st.sampled <;> simp [firstRow, ownRow, speculates, sampled]
  rows seqId f found := by
    simp only [firstRow, speculates, Bool.false_eq_true, if_false, ownRow] at found
    split_ifs at found with sampled
    obtain rfl := Option.some.inj found
    obtain ⟨group, mem, rfl⟩ := mem_sampled.mp sampled
    simp only [WorkerStep.lastIndex, speculates, Bool.false_eq_true, if_false]
    exact getD_map_idxOf (sampled_nodup scheduled) (fun group =>
      .state group.seqId older.length ((st.outputOf group.seqId).length - 1)) mem
  seconds seqId mark f found _ := by
    simp only [firstRow, speculates, Bool.false_eq_true, if_false, ownRow] at found
    split_ifs at found with sampled
    obtain rfl := Option.some.inj found
    have full := marked seqId mark sampled
    have some := lookahead_pos speculates
    obtain ⟨group, mem, rfl⟩ := mem_sampled.mp sampled
    obtain ⟨tokens, listed⟩ := mem_zip_of_mem (List.mem_filter.mp mem).1 scheduled.complete
    have output := WorkerStep.outputOf_eq scheduled.distinct listed
    -- more than one token: the draft model has proposed for the sequence
    have proposed : cfg.proposes st.request.numLookaheadSlots group = true := by
      have bound := (scheduled.outputs _ listed).bound
      by_contra proposed
      rw [if_neg (by simp [proposed])] at bound
      dsimp only at bound
      rw [output] at full
      omega
    simp only [WorkerStep.lastIndex, speculates, Bool.false_eq_true, if_false, full,
      Nat.add_sub_cancel]
    refine ⟨some, ?_⟩
    calc _ = (scoredRows cfg st.request.numLookaheadSlots older.length group).getD
            (st.request.numLookaheadSlots - 1) .zeros :=
          getD_map_idxOf (sampled_nodup scheduled) _ mem
      _ = .state group.seqId older.length (st.request.numLookaheadSlots - 1) := by
          rw [scoredRows, if_pos proposed, List.getD_eq_getElem _ _ (by simp)]
          simp
  padded seqId f found unspeculative := by
    simp only [firstRow, speculates, Bool.false_eq_true, if_false, ownRow] at found
    split_ifs at found
    obtain rfl := Option.some.inj found
    simp at unspeculative

theorem Records.step {w' : SpecDecodeWorker} (records : Records cfg older w)
    (returns : cfg.returnsHiddenStates = true) (scheduled : Scheduled cfg older st)
    (executes : Executes cfg w st w') :
    Records cfg (st :: older) w' := by
  obtain ⟨calls, done⟩ := executes
  have finished := records.finished st.request.finishedRequestsIds
  rcases SpecDecodeWorker.executeModel_cases done with
    ⟨noSpec, ⟨next, stored, rfl⟩, -⟩ | ⟨speculates, proposals, next, -, verified, rfl, -⟩
  · have stored := stored returns
    generalize w.trackFinishedRequests st.request.finishedRequestsIds = w at *
    constructor
    · simp [finished.passes]
    all_goals rw [finished.passes] at stored
    · intro none
      rcases SpecDecodeWorker.storeHiddenStates_cases stored with
        ⟨unsampled, rfl⟩ | ⟨-, rfl⟩ | ⟨hs, -, rfl⟩
      · obtain ⟨rows, empty⟩ := finished.nothing none
        exact ⟨fun seqId => by rw [firstRow_unsampled older noSpec unsampled, rows], empty⟩
      · cases none
      · cases none
    · intro hs some
      rcases SpecDecodeWorker.storeHiddenStates_cases stored with
        ⟨unsampled, rfl⟩ | ⟨before, rfl⟩ | ⟨hs', before, rfl⟩
      · have recorded := finished.recorded hs some
        have same := firstRow_unsampled older noSpec unsampled
        exact ⟨recorded.shaped, recorded.unmarked, fun seqId => by rw [same, recorded.listed],
          fun seqId f found => recorded.rows seqId f (same seqId ▸ found),
          fun seqId mem f found => recorded.seconds seqId mem f (same seqId ▸ found),
          fun seqId f found => recorded.padded seqId f (same seqId ▸ found)⟩
      · obtain rfl := Option.some.inj some
        obtain ⟨rows, empty⟩ := finished.nothing before
        dsimp only
        rw [empty]
        exact Recorded.start scheduled noSpec rows
      · obtain rfl := Option.some.inj some
        exact (finished.recorded hs' before).append scheduled noSpec
  · have stored := verifiedHiddenStates_ok scheduled
      (w.trackFinishedRequests st.request.finishedRequestsIds).passes
    obtain ⟨hs, rfl, computed⟩ := verified returns
    obtain rfl := Except.ok.inj (computed.symm.trans stored)
    constructor
    · simp [finished.passes]
    · intro none
      cases none
    · intro hs some
      obtain rfl := Option.some.inj some
      rw [finished.passes]
      apply Recorded.replace scheduled speculates
      intro seqId mark sampled
      obtain ⟨group, mem, rfl⟩ := mem_sampled.mp sampled
      exact marked_after scheduled _ mark (List.mem_map_of_mem (List.mem_filter.mp mem).1)

end Recorded

-- The draft batch

section Proposals
variable {older : List WorkerStep} {st : WorkerStep} {bonus : Finset SeqId} {hs : HiddenStates}

end Proposals

theorem ScheduledRun.suffix {newer older : List WorkerStep} (scheduled : ScheduledRun cfg (newer ++ older)) :
    ScheduledRun cfg older := by
  induction newer with
  | nil => exact scheduled
  | cons st newer ih => exact ih scheduled.2

/-- A group of one prompt token, and the same sequence when it decodes. -/
def promptOf (seqId : SeqId) : SequenceGroupMetadata where
  requestId := seqId
  seqId := seqId
  isPrompt := true
  doSample := true
  tokenIds := [1]
  numComputedTokens := 0
  tokenChunkSize := 1

def decodeOf (seqId : SeqId) (tokenIds : List TokenId) : SequenceGroupMetadata where
  requestId := seqId
  seqId := seqId
  isPrompt := false
  doSample := true
  tokenIds := tokenIds
  numComputedTokens := tokenIds.length - 1
  tokenChunkSize := 1

def prompts : WorkerStep where
  request := { seqGroupMetadataList := [promptOf 1, promptOf 2], numLookaheadSlots := 0 }
  outputs := [[4], [4]]

end Vllm.SpecDecode
