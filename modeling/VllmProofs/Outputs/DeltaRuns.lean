import VllmProofs.Outputs.RequestOutput

/-!
Requests that stream deltas: what the outputs hold of each sequence, one after the other.
-/

namespace Vllm.Outputs

/-! ### One sequence -/

/-- There are logprobs for each output token, and no more tokens have been returned than there are. -/
structure Sequence.Counted (seq : Sequence) : Prop where
  logprobs : seq.outputLogprobs.length = seq.getOutputLen
  offset : seq.lastOutputTokenIdsOffset ≤ seq.getOutputLen

structure Reads (seq : Sequence) (output : CompletionOutput) (seq' : Sequence) : Prop where
  tokenIds : output.tokenIds = seq.outputTokenIds.drop seq.lastOutputTokenIdsOffset
  -- without new tokens the slice is the whole list
  logprobs : output.logprobs = some (if seq.lastOutputTokenIdsOffset = seq.getOutputLen then seq.outputLogprobs
    else seq.outputLogprobs.drop seq.lastOutputTokenIdsOffset)
  outputTokenIds : seq'.outputTokenIds = seq.outputTokenIds
  outputLogprobs : seq'.outputLogprobs = seq.outputLogprobs
  status : seq'.status = seq.status
  offset : seq'.lastOutputTokenIdsOffset = seq.getOutputLen

variable {seq : Sequence} {seq' : Sequence}

theorem Reads.counted {output : CompletionOutput} (reads : Reads seq output seq')
    (counted : seq.Counted) : seq'.Counted := by
  have same : seq'.getOutputLen = seq.getOutputLen := congrArg List.length reads.outputTokenIds
  constructor
  · rw [reads.outputLogprobs, same]
    exact counted.logprobs
  · rw [reads.offset, same]

namespace Sequence

theorem getOutputTokenIdsToReturn_delta {tokenIds : TokenIds} (counted : seq.Counted)
    (read : seq.getOutputTokenIdsToReturn true = some (tokenIds, seq')) :
    tokenIds.toList = seq.outputTokenIds.drop seq.lastOutputTokenIdsOffset ∧
      tokenIds.numOutputTokens = seq.getOutputLen - seq.lastOutputTokenIdsOffset ∧
      seq' = { seq with lastOutputTokenIdsOffset := seq.getOutputLen } := by
  have offset := counted.offset
  have all : seq.allTokenIds.length = seq.promptTokenIds.length + seq.getOutputLen := List.length_append
  unfold getOutputTokenIdsToReturn at read
  rw [if_neg (by simp)] at read
  dsimp only at read
  split at read
  · rename_i single
    obtain ⟨tokenId, last, result⟩ := Option.map_eq_some_iff.mp read
    cases result
    have inside : seq.lastOutputTokenIdsOffset < seq.outputTokenIds.length := by
      unfold getOutputLen at single
      omega
    have here : seq.allTokenIds[seq.promptTokenIds.length + seq.lastOutputTokenIdsOffset]? = some tokenId := by
      rw [← last, PySlice.get?, if_neg (by decide), if_pos (by omega)]
      congr 1
      omega
    unfold allTokenIds at here
    rw [List.getElem?_append_right (Nat.le_add_right _ _), Nat.add_sub_cancel_left,
      List.getElem?_eq_getElem inside, Option.some.injEq] at here
    refine ⟨?_, ?_, rfl⟩
    · rw [List.drop_eq_getElem_cons inside, here, List.drop_eq_nil_of_le]
      · rfl
      · unfold getOutputLen at single
        omega
    · show 1 = _
      omega
  · split at read
    · rename_i nothing
      cases read
      refine ⟨?_, ?_, rfl⟩
      · rw [List.drop_eq_nil_of_le]
        · rfl
        · unfold getOutputLen at nothing
          omega
      · show 0 = _
        omega
    · cases read
      have slice : PySlice.sliceFrom seq.allTokenIds (-((seq.getOutputLen : ℤ) - seq.lastOutputTokenIdsOffset)) =
          seq.outputTokenIds.drop seq.lastOutputTokenIdsOffset := by
        rw [← Nat.cast_sub offset, PySlice.sliceFrom_neg (by omega) (by omega), all,
          show seq.promptTokenIds.length + seq.getOutputLen - (seq.getOutputLen - seq.lastOutputTokenIdsOffset) =
            seq.promptTokenIds.length + seq.lastOutputTokenIdsOffset by omega]
        exact List.drop_length_add_append _
      refine ⟨slice, ?_, rfl⟩
      show (PySlice.sliceFrom _ _).length = _
      rw [slice, List.length_drop]
      rfl

theorem getOutputTextToReturn_frame (bufferLength : ℕ) (delta : Bool) (seq : Sequence) :
    ∃ offset, (seq.getOutputTextToReturn bufferLength delta).2 = { seq with lastOutputTextOffset := offset } := by
  unfold getOutputTextToReturn
  dsimp only
  split
  · exact ⟨_, rfl⟩
  · exact ⟨_, rfl⟩

end Sequence

theorem slice_logprobs (counted : seq.Counted) : (if True ∧ seq.outputLogprobs ≠ [] then
      PySlice.sliceFrom seq.outputLogprobs (-(seq.getOutputLen - seq.lastOutputTokenIdsOffset : ℕ))
      else seq.outputLogprobs) =
    if seq.lastOutputTokenIdsOffset = seq.getOutputLen then seq.outputLogprobs
      else seq.outputLogprobs.drop seq.lastOutputTokenIdsOffset := by
  have logprobs := counted.logprobs
  have offset := counted.offset
  split
  · split
    · rename_i nothing
      rw [nothing, Nat.sub_self, PySlice.sliceFrom_neg_zero]
    · rename_i more
      rw [PySlice.sliceFrom_neg (by omega) (by omega), logprobs, Nat.sub_sub_self offset]
  · rename_i empty
    have none : seq.outputLogprobs = [] := by
      by_contra some_
      exact empty ⟨trivial, some_⟩
    rw [none, List.drop_nil, ite_self]

variable {params : SamplingParams} {cached : Option (List CompletionOutput)}

theorem round_reads {i : ℕ} {includePrompt : Bool} {r : Round} (delta : params.outputKind = .delta) (wanted : params.logprobs.isSome)
    (counted : seq.Counted) (made : round params cached i includePrompt seq = some r) : Reads seq r.output r.seq := by
  unfold round at made
  rw [delta] at made
  obtain ⟨textOffset, text⟩ := seq.getOutputTextToReturn_frame params.outputTextBufferLength true
  simp only [decide_true] at made
  obtain ⟨read, returned, made⟩ := Option.bind_eq_some_iff.mp made
  rw [text] at returned
  obtain ⟨tokenIds, numOutputTokens, rest⟩ :=
    @Sequence.getOutputTokenIdsToReturn_delta { seq with lastOutputTextOffset := textOffset } _ _
      ⟨counted.logprobs, counted.offset⟩ returned
  obtain ⟨top, some_⟩ := Option.isSome_iff_exists.mp wanted
  split at made
  · cases made
  · cases made
    rw [some_, rest, numOutputTokens]
    refine ⟨tokenIds, ?_, rfl, rfl, rfl, rfl⟩
    exact congrArg some (slice_logprobs counted)

/-! ### All sequences -/

/-- A loop over the places from `k` on. -/
theorem build_reads
    (delta : params.outputKind = .delta) (wanted : params.logprobs.isSome) {k m : ℕ} {b b' : Built}
    (outputs : b.outputs.length = k) (seqs : b.seqs.length = k + m) (counted : ∀ seq ∈ b.seqs, seq.Counted)
    (built : build params cached (List.range' k m) b = some b') :
    b'.outputs.length = k + m ∧ b'.seqs.length = k + m ∧
      (∀ i < k, b'.outputs[i]? = b.outputs[i]? ∧ b'.seqs[i]? = b.seqs[i]?) ∧
      ∀ i seq, k ≤ i → b.seqs[i]? = some seq →
        ∃ output seq', b'.outputs[i]? = some output ∧ b'.seqs[i]? = some seq' ∧ Reads seq output seq' := by
  induction m generalizing k b with
  | zero =>
    cases built
    refine ⟨outputs, seqs, fun _ _ => ⟨rfl, rfl⟩, ?_⟩
    intro i seq above found
    have inside := (List.getElem?_eq_some_iff.mp found).1
    omega
  | succ m ih =>
    obtain ⟨seq, found, built⟩ := Option.bind_eq_some_iff.mp built
    obtain ⟨r, made, built⟩ := Option.bind_eq_some_iff.mp built
    have reads := round_reads delta wanted (counted seq (List.mem_of_getElem? found)) made
    have inside : k < b.seqs.length := by omega
    obtain ⟨outputs', seqs', earlier, later⟩ :=
      @ih (k + 1) ⟨b.outputs ++ [r.output], b.seqs.set k r.seq, r.includePrompt⟩
        (by rw [List.length_append, outputs]; rfl) (by rw [List.length_set]; omega)
        (by
          intro seq' member
          rcases List.mem_or_eq_of_mem_set member with before | rfl
          · exact counted seq' before
          · exact reads.counted (counted seq (List.mem_of_getElem? found)))
        built
    dsimp only at earlier later
    refine ⟨by omega, by omega, ?_, ?_⟩
    · intro i below
      obtain ⟨output, seq'⟩ := earlier i (Nat.lt_succ_of_lt below)
      rw [output, seq', List.getElem?_append_left (by omega), List.getElem?_set_ne (by omega)]
      exact ⟨rfl, rfl⟩
    · intro i seq' above found'
      rcases Nat.eq_or_lt_of_le above with rfl | above
      · obtain ⟨output, seq''⟩ := earlier k (Nat.lt_succ_self k)
        rw [found] at found'
        cases found'
        refine ⟨r.output, r.seq, ?_, ?_, reads⟩
        · rw [output, ← outputs, List.getElem?_concat_length]
        · rw [seq'', List.getElem?_set_self inside]
      · apply later i seq' above
        rw [List.getElem?_set_ne (by omega)]
        exact found'

namespace Request

variable {r r' : Request} {i : ℕ} {event : RequestEvent}

structure Regular (r : Request) : Prop where
  delta : r.params.outputKind = .delta
  wanted : r.params.logprobs.isSome
  assembled : r.assembled = List.range r.params.n
  seqs : r.seqs.length = r.params.n
  counted : ∀ seq ∈ r.seqs, seq.Counted

theorem makeOutput_reads (regular : r.Regular) (result : r.makeOutput = some r') :
    ∃ (output : RequestOutput) (seqs : List Sequence) (cachedOutputs : Option (List CompletionOutput)),
      r' = { r with seqs, cachedOutputs, made := (output, seqs) :: r.made } ∧ seqs.length = r.params.n ∧
      ∀ (i : ℕ) seq', seqs[i]? = some seq' →
        ∃ seq completion, r.seqs[i]? = some seq ∧ output.outputs[i]? = some completion ∧ Reads seq completion seq' := by
  unfold makeOutput at result
  rw [regular.delta, if_neg (by simp)] at result
  obtain ⟨built, loop, result⟩ := Option.bind_eq_some_iff.mp result
  cases result
  rw [regular.assembled, List.range_eq_range'] at loop
  obtain ⟨-, seqs, -, reads⟩ := @build_reads _ _ regular.delta regular.wanted 0 _ ⟨[], r.seqs, true⟩ _ rfl
    (by rw [Nat.zero_add]; exact regular.seqs) regular.counted loop
  rw [Nat.zero_add] at seqs
  refine ⟨_, built.seqs, _, rfl, seqs, ?_⟩
  intro i seq' found'
  have inside := (List.getElem?_eq_some_iff.mp found').1
  rw [seqs, ← regular.seqs] at inside
  have found := List.getElem?_eq_getElem inside
  obtain ⟨completion, seq'', made, found'', read⟩ := reads i _ (Nat.zero_le i) found
  rw [found'] at found''
  cases found''
  exact ⟨_, completion, found, made, read⟩

/-- The cases of a call of `from_seq_group`. -/
theorem fromSeqGroup_some (delta : r.params.outputKind = .delta) (result : r.fromSeqGroup i = some r') :
    ∃ seq, r.seqs[i]? = some seq ∧ ∃ called : Request,
      called = { r with
        concluded := if seq.isFinished then r.concluded ++ [i] else r.concluded
        toBeFinished := if r.parallel = true ∧ seq.isFinished then r.toBeFinished.erase i else r.toBeFinished } ∧
      (r.parallel = true → r.toBeFinished ≠ []) ∧
      (r.Makes i ∧ called.makeOutput = some r' ∨ ¬r.Makes i ∧ r' = called) := by
  obtain ⟨seq, found, result⟩ := Option.bind_eq_some_iff.mp result
  refine ⟨seq, found, _, rfl, ?_⟩
  dsimp only at result
  generalize (if seq.isFinished = true then r.concluded ++ [i] else r.concluded) = concluded at result ⊢
  split at result
  · rename_i parallel
    change r.parallel = true at parallel
    obtain ⟨⟨assembled, r₁⟩, asked, result⟩ := Option.bind_eq_some_iff.mp result
    obtain ⟨r₂, closed, result⟩ := Option.bind_eq_some_iff.mp result
    unfold maybeAssembleGroup at asked
    rw [if_pos delta] at asked
    obtain ⟨first, head, same⟩ := Option.map_eq_some_iff.mp asked
    cases same
    change r.toBeFinished.head? = some first at head
    have called : r₂ = { r with
        concluded
        toBeFinished := if r.parallel = true ∧ seq.isFinished then r.toBeFinished.erase i else r.toBeFinished } := by
      unfold finishSeq at closed
      split at closed
      · rename_i unfinished
        cases closed
        rw [if_neg fun both => unfinished both.2]
      · rename_i finished
        split at closed
        · cases closed
          rw [if_pos ⟨parallel, by simpa using finished⟩]
        · cases closed
    refine ⟨fun _ empty => ?_, ?_⟩
    · rw [empty] at head
      cases head
    · rw [← called]
      unfold Makes
      rw [head]
      dsimp only at result
      split at result
      · rename_i own
        exact Or.inl ⟨fun _ => by rw [of_decide_eq_true own], result⟩
      · rename_i other
        cases result
        refine Or.inr ⟨fun makes => other ?_, rfl⟩
        rw [decide_eq_true_eq]
        exact (Option.some.inj (makes parallel)).symm
  · rename_i single
    change ¬r.parallel = true at single
    refine ⟨fun parallel => absurd parallel single, Or.inl ⟨fun parallel => absurd parallel single, ?_⟩⟩
    rw [if_neg fun both => single both.1]
    exact result

/-! ### What has been returned -/

/-- What is known of the request in every run. -/
structure Sound (r : Request) : Prop where
  regular : r.Regular
  tokenIds : ∀ i seq, r.seqs[i]? = some seq →
    returnedTokenIds i r.made = seq.outputTokenIds.take seq.lastOutputTokenIdsOffset
  distinct : r.toBeFinished.Nodup
  remaining : r.parallel = true → ∀ i, i ∈ r.toBeFinished ↔ i < r.params.n ∧ i ∉ r.concluded
  finished : ∀ i seq, r.seqs[i]? = some seq → i ∈ r.concluded → seq.isFinished = true

/-- Everything has been returned of each sequence, once the last group is finished. -/
def Settled (r : Request) : Prop :=
  (∀ i < r.params.n, i ∈ r.concluded) → ∀ seq ∈ r.seqs, seq.lastOutputTokenIdsOffset = seq.getOutputLen

def LogprobsReturned (r : Request) : Prop :=
  ∀ i seq, r.seqs[i]? = some seq → returnedLogprobs i r.made = seq.outputLogprobs.take seq.lastOutputTokenIdsOffset

structure Grows (seq seq' : Sequence) : Prop where
  tokenIds : seq.outputTokenIds <+: seq'.outputTokenIds
  logprobs : seq.outputLogprobs <+: seq'.outputLogprobs
  counted : seq.Counted → seq'.Counted
  offset : seq'.lastOutputTokenIdsOffset = seq.lastOutputTokenIdsOffset
  finished : seq.isFinished = true → seq'.isFinished = true ∧ seq'.outputTokenIds = seq.outputTokenIds

theorem Grows.refl (seq : Sequence) : Grows seq seq :=
  ⟨List.prefix_refl _, List.prefix_refl _, id, rfl, fun finished => ⟨finished, rfl⟩⟩

theorem take_of_prefix {α : Type} {xs ys : List α} {n : ℕ} (shorter : xs <+: ys) (within : n ≤ xs.length) :
    xs.take n = ys.take n := by
  obtain ⟨rest, rfl⟩ := shorter
  exact (List.take_append_of_le_length within).symm

theorem grows_set {seqs : List Sequence} {new : Sequence} (found : seqs[i]? = some seq) (grown : Grows seq new)
    (j : ℕ) (seq' : Sequence) (found' : (seqs.set i new)[j]? = some seq') :
    ∃ seq, seqs[j]? = some seq ∧ Grows seq seq' := by
  rw [List.getElem?_set] at found'
  split at found'
  · rename_i same
    split at found'
    · cases found'
      exact ⟨seq, same ▸ found, grown⟩
    · cases found'
  · exact ⟨seq', found', .refl seq'⟩

/-- An event that makes no output, and calls for none. -/
theorem grows_of_step (stepped : r.step event = some r') (quiet : ∀ i, event ≠ .output i) :
    ∃ (seqs : List Sequence) (aborted : Bool), r' = { r with seqs, aborted } ∧ seqs.length = r.seqs.length ∧
      ∀ (i : ℕ) seq', seqs[i]? = some seq' → ∃ seq, r.seqs[i]? = some seq ∧ Grows seq seq' := by
  cases event with
  | token i tokenId logprobs =>
    obtain ⟨seq, found, stepped⟩ := Option.bind_eq_some_iff.mp stepped
    split at stepped
    · cases stepped
    · rename_i running
      obtain ⟨new, appended, stepped⟩ := Option.bind_eq_some_iff.mp stepped
      obtain ⟨own, -, appended⟩ := Option.bind_eq_some_iff.mp appended
      cases appended
      cases stepped
      refine ⟨_, _, rfl, List.length_set, grows_set found ⟨?_, ?_, ?_, rfl, ?_⟩⟩
      · exact List.prefix_append _ _
      · exact List.prefix_append _ _
      · intro counted
        constructor
        · show (seq.outputLogprobs ++ [logprobs]).length = (seq.outputTokenIds ++ [tokenId]).length
          rw [List.length_append, List.length_append, counted.logprobs]
          rfl
        · show seq.lastOutputTokenIdsOffset ≤ (seq.outputTokenIds ++ [tokenId]).length
          rw [List.length_append]
          exact counted.offset.trans (Nat.le_add_right _ _)
      · exact fun finished => absurd finished running
  | check i outputText status stopReason =>
    obtain ⟨seq, found, stepped⟩ := Option.bind_eq_some_iff.mp stepped
    split at stepped
    · cases stepped
    · rename_i running
      cases stepped
      refine ⟨_, _, rfl, List.length_set, grows_set found ⟨List.prefix_refl _, List.prefix_refl _, ?_, rfl, ?_⟩⟩
      · exact fun counted => ⟨counted.logprobs, counted.offset⟩
      · exact fun finished => absurd finished running
  | output i => exact absurd rfl (quiet i)
  | abort =>
    cases stepped
    refine ⟨_, _, rfl, List.length_map _, ?_⟩
    intro j seq' found'
    rw [List.getElem?_map] at found'
    obtain ⟨seq, found, rfl⟩ := Option.map_eq_some_iff.mp found'
    refine ⟨seq, found, ?_⟩
    split
    · exact .refl seq
    · rename_i running
      refine ⟨List.prefix_refl _, List.prefix_refl _, ?_, rfl, ?_⟩
      · exact fun counted => ⟨counted.logprobs, counted.offset⟩
      · exact fun finished => absurd finished running

variable {seqs : List Sequence} {aborted : Bool}

theorem Sound.grow (sound : r.Sound) (length : seqs.length = r.seqs.length)
    (grows : ∀ (i : ℕ) seq', seqs[i]? = some seq' → ∃ seq, r.seqs[i]? = some seq ∧ Grows seq seq') :
    Sound { r with seqs, aborted } := by
  have regular := sound.regular
  constructor
  · refine ⟨regular.delta, regular.wanted, regular.assembled, length.trans regular.seqs, ?_⟩
    intro seq' member
    obtain ⟨i, found'⟩ := List.getElem?_of_mem member
    obtain ⟨seq, found, grown⟩ := grows i seq' found'
    exact grown.counted (regular.counted seq (List.mem_of_getElem? found))
  · intro i seq' found'
    obtain ⟨seq, found, grown⟩ := grows i seq' found'
    have within := (regular.counted seq (List.mem_of_getElem? found)).offset
    show returnedTokenIds i r.made = _
    rw [sound.tokenIds i seq found, grown.offset]
    exact take_of_prefix grown.tokenIds within
  · exact sound.distinct
  · exact sound.remaining
  · intro i seq' found' concluded
    obtain ⟨seq, found, grown⟩ := grows i seq' found'
    exact (grown.finished (sound.finished i seq found concluded)).1

theorem Settled.grow (sound : r.Sound) (settled : r.Settled)
    (grows : ∀ (i : ℕ) seq', seqs[i]? = some seq' → ∃ seq, r.seqs[i]? = some seq ∧ Grows seq seq') :
    Settled { r with seqs, aborted } := by
  intro all seq' member
  obtain ⟨i, found'⟩ := List.getElem?_of_mem member
  obtain ⟨seq, found, grown⟩ := grows i seq' found'
  have inside : i < r.params.n := by
    rw [← sound.regular.seqs]
    exact (List.getElem?_eq_some_iff.mp found).1
  have same := (grown.finished (sound.finished i seq found (all i inside))).2
  unfold Sequence.getOutputLen
  rw [grown.offset, same]
  exact settled all seq (List.mem_of_getElem? found)

theorem LogprobsReturned.grow (sound : r.Sound) (returned : r.LogprobsReturned)
    (grows : ∀ (i : ℕ) seq', seqs[i]? = some seq' → ∃ seq, r.seqs[i]? = some seq ∧ Grows seq seq') :
    LogprobsReturned { r with seqs, aborted } := by
  intro i seq' found'
  obtain ⟨seq, found, grown⟩ := grows i seq' found'
  have counted := sound.regular.counted seq (List.mem_of_getElem? found)
  have within : seq.lastOutputTokenIdsOffset ≤ seq.outputLogprobs.length := by
    rw [counted.logprobs]
    exact counted.offset
  show returnedLogprobs i r.made = _
  rw [returned i seq found, grown.offset]
  exact take_of_prefix grown.logprobs within

/-! ### Outputs -/

theorem Sound.call (sound : r.Sound) (found : r.seqs[i]? = some seq) : Sound { r with
      concluded := if seq.isFinished then r.concluded ++ [i] else r.concluded
      toBeFinished := if r.parallel = true ∧ seq.isFinished then r.toBeFinished.erase i else r.toBeFinished } := by
  have regular := sound.regular
  refine ⟨⟨regular.delta, regular.wanted, regular.assembled, regular.seqs, regular.counted⟩, sound.tokenIds, ?_, ?_, ?_⟩
  · dsimp only
    split
    · exact sound.distinct.erase i
    · exact sound.distinct
  · intro parallel j
    change r.parallel = true at parallel
    have before := sound.remaining parallel j
    dsimp only
    cases finished : seq.isFinished with
    | false =>
      rw [if_neg (by simp), if_neg (by simp)]
      exact before
    | true =>
      rw [if_pos ⟨parallel, rfl⟩, if_pos rfl, sound.distinct.mem_erase_iff, before, List.mem_append,
        List.mem_singleton, not_or]
      exact ⟨fun both => ⟨both.2.1, both.2.2, both.1⟩, fun both => ⟨both.2.2, both.1, both.2.1⟩⟩
  · intro j seq' found' concluded
    dsimp only at found' concluded
    split at concluded
    · rename_i finished
      rcases List.mem_append.mp concluded with before | now
      · exact sound.finished j seq' found' before
      · rw [List.mem_singleton.mp now, found] at found'
        cases found'
        exact finished
    · exact sound.finished j seq' found' concluded

theorem Sound.make (sound : r.Sound) (result : r.makeOutput = some r') :
    r'.Sound ∧ ∀ seq ∈ r'.seqs, seq.lastOutputTokenIdsOffset = seq.getOutputLen := by
  obtain ⟨output, seqs, cachedOutputs, rfl, length, reads⟩ := makeOutput_reads sound.regular result
  have regular := sound.regular
  refine ⟨⟨⟨regular.delta, regular.wanted, regular.assembled, length, ?_⟩, ?_, sound.distinct, sound.remaining, ?_⟩, ?_⟩
  · intro seq' member
    obtain ⟨i, found'⟩ := List.getElem?_of_mem member
    obtain ⟨seq, completion, found, -, read⟩ := reads i seq' found'
    exact read.counted (regular.counted seq (List.mem_of_getElem? found))
  · intro i seq' found'
    obtain ⟨seq, completion, found, made, read⟩ := reads i seq' found'
    show returnedTokenIds i r.made ++ (output.outputs[i]?.map CompletionOutput.tokenIds).getD [] = _
    rw [made, sound.tokenIds i seq found, Option.map_some, Option.getD_some, read.tokenIds, List.take_append_drop,
      read.outputTokenIds, read.offset]
    exact (List.take_length).symm
  · intro i seq' found' concluded
    obtain ⟨seq, completion, found, -, read⟩ := reads i seq' found'
    unfold Sequence.isFinished
    rw [read.status]
    exact sound.finished i seq found concluded
  · intro seq' member
    obtain ⟨i, found'⟩ := List.getElem?_of_mem member
    obtain ⟨seq, completion, found, -, read⟩ := reads i seq' found'
    unfold Sequence.getOutputLen
    rw [read.offset, read.outputTokenIds]
    rfl

/-- The logprobs of a sequence are right after the output unless it has some, but none that are new. -/
theorem returnedLogprobs_make {completion : CompletionOutput} (counted : seq.Counted)
    (read : Reads seq completion seq') :
    seq.outputLogprobs.take seq.lastOutputTokenIdsOffset ++ completion.logprobs.getD [] = seq'.outputLogprobs ↔
      (seq.lastOutputTokenIdsOffset = seq.getOutputLen → seq.outputTokenIds = []) := by
  have logprobs := counted.logprobs
  rw [read.logprobs, read.outputLogprobs, Option.getD_some]
  split
  · rename_i nothing
    rw [List.take_of_length_le (by omega)]
    constructor
    · intro same _
      have empty := List.append_right_eq_self.mp same
      rw [empty] at logprobs
      exact List.eq_nil_of_length_eq_zero logprobs.symm
    · intro none
      have empty : seq.outputLogprobs = [] := by
        apply List.eq_nil_of_length_eq_zero
        rw [logprobs, Sequence.getOutputLen, none nothing]
        rfl
      rw [empty]
      rfl
  · rename_i more
    exact ⟨fun _ nothing => absurd nothing more, fun _ => List.take_append_drop _ _⟩

theorem exact_make (sound : r.Sound) (returned : r.LogprobsReturned) (result : r.makeOutput = some r') :
    Exact r'.made r'.seqs ↔
      ∀ seq ∈ r.seqs, seq.lastOutputTokenIdsOffset = seq.getOutputLen → seq.outputTokenIds = [] := by
  obtain ⟨sound', read_⟩ := sound.make result
  obtain ⟨output, seqs, cachedOutputs, rfl, length, reads⟩ := makeOutput_reads sound.regular result
  have regular := sound.regular
  have logprobs : ∀ {i : ℕ} {seq seq' completion}, r.seqs[i]? = some seq → output.outputs[i]? = some completion →
      Reads seq completion seq' → (returnedLogprobs i ((output, seqs) :: r.made) = seq'.outputLogprobs ↔
        (seq.lastOutputTokenIdsOffset = seq.getOutputLen → seq.outputTokenIds = [])) := by
    intro i seq seq' completion found made read
    rw [← returnedLogprobs_make (regular.counted seq (List.mem_of_getElem? found)) read, ← returned i seq found]
    show returnedLogprobs i r.made ++ (output.outputs[i]?.bind CompletionOutput.logprobs).getD [] = _ ↔ _
    rw [made]
    rfl
  constructor
  · intro exact_ seq member
    obtain ⟨i, found⟩ := List.getElem?_of_mem member
    have inside := (List.getElem?_eq_some_iff.mp found).1
    rw [regular.seqs, ← length] at inside
    have found' := List.getElem?_eq_getElem inside
    obtain ⟨_, completion, there, made, read⟩ := reads i _ found'
    rw [found] at there
    cases there
    exact (logprobs found made read).mp (exact_ i _ found').2
  · intro advanced i seq' found'
    obtain ⟨seq, completion, found, made, read⟩ := reads i seq' found'
    constructor
    · rw [sound'.tokenIds i seq' found', read_ seq' (List.mem_of_getElem? found')]
      exact List.take_length
    · exact (logprobs found made read).mpr (advanced seq (List.mem_of_getElem? found))

theorem logprobsReturned_of_exact (sound : r.Sound) (exact_ : Exact r.made r.seqs)
    (read : ∀ seq ∈ r.seqs, seq.lastOutputTokenIdsOffset = seq.getOutputLen) : r.LogprobsReturned := by
  intro i seq found
  have member := List.mem_of_getElem? found
  rw [(exact_ i seq found).2, read seq member, ← (sound.regular.counted seq member).logprobs, List.take_length]

theorem exact_of_read (sound : r.Sound) (returned : r.LogprobsReturned)
    (read : ∀ seq ∈ r.seqs, seq.lastOutputTokenIdsOffset = seq.getOutputLen) : Exact r.made r.seqs := by
  intro i seq found
  have member := List.mem_of_getElem? found
  constructor
  · rw [sound.tokenIds i seq found, read seq member]
    exact List.take_length
  · rw [returned i seq found, read seq member, ← (sound.regular.counted seq member).logprobs, List.take_length]

/-! ### Runs -/

def AllExact (r : Request) : Prop := ∀ m earlier, m :: earlier <:+ r.made → Exact (m :: earlier) m.2

structure Accounted (r₀ : Request) (history : List RequestEvent) (r : Request) : Prop where
  sound : r.Sound
  settled : r.Settled
  exact_iff : r.AllExact ↔ GuardedRun Advanced step r₀ history r
  returned : GuardedRun Advanced step r₀ history r → r.LogprobsReturned

variable {r₀ : Request} {history : List RequestEvent}

theorem Accounted.quiet (accounted : Accounted r₀ history r) (before : Reaches r₀ history r)
    (stepped : r.step event = some r') (quiet : ∀ i, event ≠ .output i) : Accounted r₀ (event :: history) r' := by
  have advanced : r.Advanced event := by
    cases event with
    | output i => exact absurd rfl (quiet i)
    | token i tokenId logprobs => trivial
    | check i outputText status stopReason => trivial
    | abort => trivial
  have guarded : GuardedRun Advanced step r₀ (event :: history) r' ↔ GuardedRun Advanced step r₀ history r := by
    rw [GuardedRun.call_iff before stepped]
    exact ⟨And.left, fun guarded => ⟨guarded, advanced⟩⟩
  obtain ⟨seqs, aborted, rfl, length, grows⟩ := grows_of_step stepped quiet
  constructor
  · exact accounted.sound.grow length grows
  · exact accounted.settled.grow accounted.sound grows
  · rw [guarded]
    exact accounted.exact_iff
  · rw [guarded]
    exact fun guarded => (accounted.returned guarded).grow accounted.sound grows

theorem Accounted.output (accounted : Accounted r₀ history r) (before : Reaches r₀ history r)
    (stepped : r.step (.output i) = some r') : Accounted r₀ (.output i :: history) r' := by
  have guarded : GuardedRun Advanced step r₀ (.output i :: history) r' ↔ _ := GuardedRun.call_iff before stepped
  unfold step at stepped
  dsimp only at stepped
  split at stepped
  · cases stepped
  obtain ⟨seq, found, called, same, some_, made | ⟨other, rfl⟩⟩ :=
    fromSeqGroup_some accounted.sound.regular.delta stepped
  · obtain ⟨makes, result⟩ := made
    have sound := accounted.sound.call found
    rw [← same] at sound
    obtain ⟨sound', read⟩ := sound.make result
    have seqs : called.seqs = r.seqs := by rw [same]
    have exactNow : GuardedRun Advanced step r₀ history r →
        (Exact r'.made r'.seqs ↔ r.Advanced (.output i)) := by
      intro earlier
      have returned : called.LogprobsReturned := by
        rw [same]
        exact accounted.returned earlier
      rw [exact_make sound returned result, seqs]
      exact ⟨fun advanced _ => advanced, fun advanced => advanced makes⟩
    have all : r'.AllExact ↔ r.AllExact ∧ Exact r'.made r'.seqs := by
      obtain ⟨output, seqs', cachedOutputs, rfl, -, -⟩ := makeOutput_reads sound.regular result
      have made : called.made = r.made := by rw [same]
      unfold AllExact
      dsimp only
      rw [made]
      constructor
      · intro exact_
        exact ⟨fun m earlier before => exact_ m earlier (before.trans (List.suffix_cons _ _)),
          exact_ _ _ (List.suffix_refl _)⟩
      · rintro ⟨before, now⟩ m earlier suffix
        rcases List.suffix_cons_iff.mp suffix with here | there
        · cases here
          exact now
        · exact before m earlier there
    constructor
    · exact sound'
    · exact fun _ => read
    · rw [all, guarded, accounted.exact_iff]
      exact ⟨fun both => ⟨both.1, (exactNow both.1).mp both.2⟩, fun both => ⟨both.1, (exactNow both.1).mpr both.2⟩⟩
    · rw [guarded]
      exact fun both => logprobsReturned_of_exact sound' ((exactNow both.1).mpr both.2) read
  · have advanced : r.Advanced (.output i) := fun makes => absurd makes other
    have sound := accounted.sound.call found
    rw [← same] at sound
    constructor
    · exact sound
    · -- the group that comes first is not finished
      intro all
      have parallel : r.parallel = true := by
        by_contra single
        exact other fun parallel => absurd parallel single
      obtain ⟨first, rest, open_⟩ := List.exists_cons_of_ne_nil (some_ parallel)
      have waits : first ∈ r.toBeFinished := by
        rw [open_]
        exact List.mem_cons_self
      obtain ⟨inside, notConcluded⟩ := (accounted.sound.remaining parallel first).mp waits
      have late : i ≠ first := by
        rintro rfl
        exact other fun _ => by rw [open_]; rfl
      rw [same] at all
      have concluded := all first inside
      dsimp only at concluded
      split at concluded
      · rcases List.mem_append.mp concluded with before | now
        · exact absurd before notConcluded
        · exact absurd (List.mem_singleton.mp now).symm late
      · exact absurd concluded notConcluded
    · rw [guarded, same]
      exact accounted.exact_iff.trans ⟨fun earlier => ⟨earlier, advanced⟩, And.left⟩
    · rw [guarded, same]
      exact fun both => accounted.returned both.1

theorem accounted_start {requestId : String} {prompt : Option Frontend.Text} {promptTokenIds : List TokenId} {useCache : Bool} (delta : params.outputKind = .delta)
    (wanted : params.logprobs.isSome) :
    Accounted (start requestId prompt promptTokenIds params useCache) []
      (start requestId prompt promptTokenIds params useCache) := by
  have fresh : ∀ {i : ℕ} {seq}, (start requestId prompt promptTokenIds params useCache).seqs[i]? = some seq →
      seq = { promptTokenIds } := fun found => (List.mem_replicate.mp (List.mem_of_getElem? found)).2
  constructor
  · refine ⟨⟨delta, wanted, rfl, List.length_replicate, ?_⟩, ?_, List.nodup_range, ?_, ?_⟩
    · intro seq member
      rw [(List.mem_replicate.mp member).2]
      exact ⟨rfl, le_refl _⟩
    · intro i seq found
      rw [fresh found]
      rfl
    · intro _ i
      exact List.mem_range.trans ⟨fun inside => ⟨inside, nofun⟩, And.left⟩
    · exact nofun
  · intro _ seq member
    rw [(List.mem_replicate.mp member).2]
    rfl
  · exact ⟨fun _ => .start, fun _ m earlier suffix => absurd (List.suffix_nil.mp suffix) (by simp)⟩
  · intro _ i seq found
    rw [fresh found]
    rfl

theorem accounted_of_reaches (start : Accounted r₀ [] r₀) (reached : Reaches r₀ history r) :
    Accounted r₀ history r := by
  induction reached with
  | start => exact start
  | @call history r r' event before stepped ih =>
    cases event with
    | output i => exact ih.output before stepped
    | token i tokenId logprobs => exact ih.quiet before stepped nofun
    | check i outputText status stopReason => exact ih.quiet before stepped nofun
    | abort => exact ih.quiet before stepped nofun

/-- The outputs hold each token and its logprobs once, just when none is made while a sequence that has tokens has
no new one. -/
theorem delivered_iff_advanced {requestId : String} {prompt : Option Frontend.Text} {promptTokenIds : List TokenId}
    {params : SamplingParams} {useCache : Bool} (delta : params.outputKind = .delta)
    (wanted : params.logprobs.isSome)
    (reached : Reaches (start requestId prompt promptTokenIds params useCache) history r) :
    r.Delivered ↔ GuardedRun Advanced step (start requestId prompt promptTokenIds params useCache) history r := by
  have accounted := accounted_of_reaches (accounted_start delta wanted) reached
  rw [← accounted.exact_iff]
  constructor
  · exact Delivered.made
  · intro exact_
    refine ⟨exact_, fun all => ?_⟩
    exact exact_of_read accounted.sound (accounted.returned (accounted.exact_iff.mp exact_)) (accounted.settled all)

def twoSequences : Request := start "0" none [1] { n := 2, outputKind := .delta, logprobs := some 0 } true

def sampled (i : ℕ) (tokenId : TokenId) : RequestEvent :=
  .token i tokenId ((∅ : TokenLogprobs).insert tokenId { logprob := 0 })

/-- Both sequences get two tokens, and finish in the same step. -/
def together : List RequestEvent :=
  [.output 0, .output 1, .check 1 [] .finishedStopped none, .check 0 [] .finishedStopped none, sampled 1 8, sampled 0 7,
    .output 1, .output 0, sampled 1 6, sampled 0 5]

theorem delivered_iff_advanced_together : ∃ r, Reaches twoSequences together r ∧
    (r.made.length, r.toBeFinished, returnedTokenIds 0 r.made, returnedTokenIds 1 r.made) = (2, [], [5, 7], [6, 8]) ∧
      (r.Delivered ↔ GuardedRun Advanced step twoSequences together r) := by
  have ran : ∃ r, Reaches twoSequences together r ∧
      (r.made.length, r.toBeFinished, returnedTokenIds 0 r.made, returnedTokenIds 1 r.made) = (2, [], [5, 7], [6, 8]) := by
    apply Run.exists_of_execute
    decide
  obtain ⟨r, reached, made⟩ := ran
  exact ⟨r, reached, made, delivered_iff_advanced rfl rfl reached⟩

/-- The logprobs of a sequence that is finished are returned again when the other goes on. -/
theorem finished_replays : ∃ r, Reaches twoSequences
    [.output 0, sampled 0 7, .output 1, .check 1 [] .finishedStopped none, .output 0, sampled 1 6, sampled 0 5] r ∧
      returnedTokenIds 1 r.made = [6] ∧ (returnedLogprobs 1 r.made).length = 2 ∧ ¬r.Delivered := by
  have ran : ∃ r, Reaches twoSequences
      [.output 0, sampled 0 7, .output 1, .check 1 [] .finishedStopped none, .output 0, sampled 1 6, sampled 0 5] r ∧
        (returnedTokenIds 1 r.made = [6] ∧ (returnedLogprobs 1 r.made).length = 2 ∧
          r.made.head?.bind (fun m => m.2[1]?.map fun seq => seq.outputLogprobs.length) = some 1) := by
    apply Run.exists_of_execute
    decide
  obtain ⟨r, reached, tokens, twice, once⟩ := ran
  refine ⟨r, reached, tokens, twice, fun delivered => ?_⟩
  obtain ⟨m, latest, found⟩ := Option.bind_eq_some_iff.mp once
  obtain ⟨seq, there, length⟩ := Option.map_eq_some_iff.mp found
  obtain ⟨earlier, made⟩ := List.head?_eq_some_iff.mp latest
  have exact_ := delivered.made m earlier (by rw [made])
  rw [made, (exact_ 1 seq there).2, length] at twice
  cases twice

end Request
end Vllm.Outputs
