import VllmProofs.Data.Wp
import VllmProofs.Frontend.DetokenizerUtils
import VllmProofs.Frontend.StreamedText

/-!
`MultiStepOutputProcessor`: the tokens that several steps have sampled for a sequence are appended one by one,
once those are cut off that come after an EOS token or after the last that is allowed. However the tokens are cut
into outputs, the sequence is left as by appending them one after the other. Log probabilities are left out.
-/

namespace Vllm.Frontend
open Exec

def invalidTokenId : TokenId := -1

structure MultiStepSequence extends SequenceOutput where
  promptTokenIds : List TokenId
  numComputedTokens : ℕ := 0
  stage : SequenceStage := .prefill
  tokens : Option (List Token) := none
  prefixOffset : ℕ := 0
  readOffset : ℕ := 0

structure MultiStepParams extends StopParams where
  detokenize : Bool := true
  skipSpecialTokens : Bool := true
  spacesBetweenSpecialTokens : Bool := true

structure MultiStepOutputProcessor where
  tokenizer : AnyTokenizer
  /-- `get_tokenizer_for_seq(seq).eos_token_id` -/
  eosTokenId : Option TokenId
  maxModelLen : ℕ
  /-- Is there a detokenizer? -/
  detokenizer : Bool := true

namespace MultiStepSequence

def getNumUncomputedTokens (seq : MultiStepSequence) : ℤ := seq.getLen - seq.numComputedTokens

def appendTokenId (tokenId : TokenId) (seq : MultiStepSequence) : MultiStepSequence :=
  { seq with outputTokenIds := seq.outputTokenIds ++ [tokenId] }

def updateNumComputedTokens (numNewComputedTokens : ℕ) : Method MultiStepSequence Unit := do
  modify fun seq => { seq with numComputedTokens := seq.numComputedTokens + numNewComputedTokens }
  let seq ← get
  assertThat (seq.numComputedTokens ≤ seq.getLen)
  if seq.getNumUncomputedTokens = 0 then modify fun seq => { seq with stage := .decode }

end MultiStepSequence

namespace MultiStepOutputProcessor

variable (self : MultiStepOutputProcessor) (params : MultiStepParams)

def decodeSequenceInplace : Method MultiStepSequence ℕ := do
  let seq ← get
  let allInputIds := seq.promptTokenIds ++ seq.outputTokenIds
  let (tokens, prefixOffset, readOffset) := match seq.tokens with
    | none => self.tokenizer.convertPromptIdsToTokens params.skipSpecialTokens allInputIds.dropLast
    | some tokens => (tokens, seq.prefixOffset, seq.readOffset)
  modify fun seq => { seq with tokens := some tokens, prefixOffset, readOffset }
  match self.tokenizer.detokenizeIncrementally params.skipSpecialTokens params.spacesBetweenSpecialTokens allInputIds
      (some tokens) prefixOffset readOffset with
  | .error e => throw e
  | .ok (newTokens, newText, prefixOffset, readOffset) =>
    modify fun seq => { seq with
      tokens := some (tokens ++ newTokens), prefixOffset, readOffset, outputText := seq.outputText ++ newText }
    return newText.length

def processDecodeAndStop : Method MultiStepSequence Unit := do
  let newCharCount ← if params.detokenize && self.detokenizer then self.decodeSequenceInplace params else pure 0
  modify fun seq => { seq with
    toSequenceOutput := maybeStopSequence self.maxModelLen newCharCount params.toStopParams seq.toSequenceOutput }

/-- The tokens up to the first EOS token. -/
def truncateAfterEos : List TokenId → List TokenId
  | [] => []
  | tokenId :: rest => if some tokenId = self.eosTokenId then [tokenId] else tokenId :: truncateAfterEos rest

def appendOne (isPrefillSampledToken : Bool) (tokenId : TokenId) : Method MultiStepSequence Unit := do
  modify (MultiStepSequence.appendTokenId tokenId)
  if isPrefillSampledToken then pure () else MultiStepSequence.updateNumComputedTokens 1
  self.processDecodeAndStop params

def appendEach : Bool → List TokenId → Method MultiStepSequence Unit
  | _, [] => pure ()
  | isPrefillSampledToken, tokenId :: rest => do
    self.appendOne params isPrefillSampledToken tokenId
    let seq ← get
    if seq.isFinished then pure () else appendEach false rest

def processSeqOutputs (outputTokenIds : List TokenId) : Method MultiStepSequence Unit := do
  let seq ← get
  match params.maxTokens with
  | none => throw .typeError
  | some maxTokens =>
    let remainingTokens : ℤ := maxTokens - (seq.getOutputLen + outputTokenIds.length)
    let outputTokenIds :=
      if remainingTokens < 0 then PySlice.slice outputTokenIds 0 remainingTokens else outputTokenIds
    let outputTokenIds := if params.ignoreEos then outputTokenIds else self.truncateAfterEos outputTokenIds
    self.appendEach params (seq.getNumUncomputedTokens = 0) outputTokenIds

/-- The first samples of the outputs of all steps, for the one sequence of a group. -/
def processOutputs (isAsync : Bool) (samples : List TokenId) : Method MultiStepSequence Unit := do
  let seq ← get
  assertThat (seq.status = .running)
  if isAsync then self.processDecodeAndStop params
  else
    let validSamples := samples.filter fun tokenId => tokenId ≠ invalidTokenId
    if validSamples = [] then pure () else self.processSeqOutputs params validSamples

/-- The engine passes on the outputs of a sequence until it has finished. -/
def serve (outputs : List (List TokenId)) : Method MultiStepSequence Unit :=
  outputs.forM fun samples => do
    let seq ← get
    if seq.isFinished then pure () else self.processOutputs params false samples

end MultiStepOutputProcessor

/-! ### The stop checker -/

section
variable {maxModelLen newCharCount : ℕ} {params : StopParams} {seq : SequenceOutput}

theorem maybeStopSequence_keeps : let seq' := maybeStopSequence maxModelLen newCharCount params seq
    seq'.promptLen = seq.promptLen ∧ seq'.eosTokenId = seq.eosTokenId ∧ seq'.outputTokenIds = seq.outputTokenIds ∧
      (seq'.status = seq.status ∨ seq'.status.isFinished = true) := by
  have dropped : ∀ seq : SequenceOutput, (seq.dropText newCharCount params).promptLen = seq.promptLen ∧
      (seq.dropText newCharCount params).eosTokenId = seq.eosTokenId ∧
      (seq.dropText newCharCount params).outputTokenIds = seq.outputTokenIds := by
    intro seq
    unfold SequenceOutput.dropText
    split
    · exact ⟨rfl, rfl, rfl⟩
    · exact ⟨rfl, rfl, rfl⟩
  obtain ⟨promptLen, eosTokenId, outputTokenIds⟩ := dropped seq
  unfold maybeStopSequence
  dsimp only
  split
  · exact ⟨rfl, rfl, rfl, Or.inl rfl⟩
  split
  · exact ⟨promptLen, eosTokenId, outputTokenIds, Or.inr rfl⟩
  split
  · exact ⟨promptLen, eosTokenId, outputTokenIds, Or.inr rfl⟩
  split
  · exact ⟨rfl, rfl, rfl, Or.inr rfl⟩
  split
  · exact ⟨rfl, rfl, rfl, Or.inr rfl⟩
  split
  · exact ⟨rfl, rfl, rfl, Or.inr rfl⟩
  · exact ⟨rfl, rfl, rfl, Or.inl rfl⟩

theorem maybeStopSequence_full (enough : params.minTokens ≤ seq.getOutputLen)
    (full : params.maxTokens = some seq.getOutputLen) :
    (maybeStopSequence maxModelLen newCharCount params seq).status.isFinished = true := by
  unfold maybeStopSequence
  dsimp only
  rw [if_neg (Nat.not_lt.mpr enough)]
  split
  · rfl
  split
  · rfl
  split
  · rfl
  split
  · rfl
  · rfl

theorem maybeStopSequence_eos (enough : params.minTokens ≤ seq.getOutputLen) (honoured : params.ignoreEos = false)
    (last : seq.outputTokenIds.getLast? = seq.eosTokenId) :
    (maybeStopSequence maxModelLen newCharCount params seq).status.isFinished = true := by
  unfold maybeStopSequence
  dsimp only
  rw [if_neg (Nat.not_lt.mpr enough), if_pos ⟨by rw [honoured]; exact Bool.false_ne_true, last⟩]
  rfl

end

namespace MultiStepOutputProcessor

variable {self : MultiStepOutputProcessor} {params : MultiStepParams} {s t : MultiStepSequence} {tokenId : TokenId}
  {tokenIds later : List TokenId} {outputs : List (List TokenId)} {isPrefillSampledToken : Bool}

/-! ### One token -/

theorem detokenizeIncrementally_returns {tokenizer : AnyTokenizer} {skip spaces : Bool} {allInputIds : List TokenId}
    {prevTokens : Option (List Token)} {prefixOffset readOffset : ℕ} (nonempty : allInputIds ≠ []) :
    ∃ result, tokenizer.detokenizeIncrementally skip spaces allInputIds prevTokens prefixOffset readOffset = .ok result := by
  unfold AnyTokenizer.detokenizeIncrementally
  rw [List.getLast?_eq_some_getLast nonempty]
  dsimp only
  split <;> split <;> exact ⟨_, rfl⟩

theorem decodeSequenceInplace_wp (nonempty : s.outputTokenIds ≠ []) : wp (self.decodeSequenceInplace params) (fun _ t =>
    t.promptLen = s.promptLen ∧ t.eosTokenId = s.eosTokenId ∧ t.outputTokenIds = s.outputTokenIds ∧
      t.status = s.status ∧ t.numComputedTokens = s.numComputedTokens) (fun _ _ => False) s := by
  have all : s.promptTokenIds ++ s.outputTokenIds ≠ [] := List.append_ne_nil_of_right_ne_nil _ nonempty
  unfold decodeSequenceInplace
  simp only [wp_bind, wp_get, wp_modify]
  split
  · rename_i e failed
    obtain ⟨result, returns⟩ := detokenizeIncrementally_returns all
    rw [returns] at failed
    cases failed
  · simp only [wp_bind, wp_modify, wp_pure, and_self]

structure Appended (processor : MultiStepOutputProcessor) (params : MultiStepParams) (isPrefillSampledToken : Bool) (tokenId : TokenId)
    (s t : MultiStepSequence) : Prop where
  promptLen : t.promptLen = s.promptLen
  eosTokenId : t.eosTokenId = s.eosTokenId
  outputTokenIds : t.outputTokenIds = s.outputTokenIds ++ [tokenId]
  status : t.status = s.status ∨ t.isFinished = true
  computed : t.numComputedTokens = s.numComputedTokens + if isPrefillSampledToken then 0 else 1
  eos : params.ignoreEos = false → params.minTokens ≤ s.getOutputLen → some tokenId = s.eosTokenId → t.isFinished = true

theorem processDecodeAndStop_wp (nonempty : s.outputTokenIds ≠ []) : wp (self.processDecodeAndStop params) (fun _ t =>
    t.promptLen = s.promptLen ∧ t.eosTokenId = s.eosTokenId ∧ t.outputTokenIds = s.outputTokenIds ∧
      (t.status = s.status ∨ t.isFinished = true) ∧ t.numComputedTokens = s.numComputedTokens ∧
      (params.ignoreEos = false → params.minTokens ≤ s.getOutputLen → s.outputTokenIds.getLast? = s.eosTokenId →
        t.isFinished = true)) (fun _ _ => False) s := by
  have stops : ∀ (newCharCount : ℕ) (u : MultiStepSequence), u.promptLen = s.promptLen ∧ u.eosTokenId = s.eosTokenId ∧
      u.outputTokenIds = s.outputTokenIds ∧ u.status = s.status ∧ u.numComputedTokens = s.numComputedTokens →
      let t : MultiStepSequence := { u with
        toSequenceOutput := maybeStopSequence self.maxModelLen newCharCount params.toStopParams u.toSequenceOutput }
      t.promptLen = s.promptLen ∧ t.eosTokenId = s.eosTokenId ∧ t.outputTokenIds = s.outputTokenIds ∧
        (t.status = s.status ∨ t.isFinished = true) ∧ t.numComputedTokens = s.numComputedTokens ∧
        (params.ignoreEos = false → params.minTokens ≤ s.getOutputLen → s.outputTokenIds.getLast? = s.eosTokenId →
          t.isFinished = true) := by
    rintro newCharCount u ⟨promptLen, eosTokenId, outputTokenIds, status, computed⟩
    obtain ⟨promptLen', eosTokenId', outputTokenIds', status'⟩ :=
      @maybeStopSequence_keeps self.maxModelLen newCharCount params.toStopParams u.toSequenceOutput
    refine ⟨promptLen'.trans promptLen, eosTokenId'.trans eosTokenId, outputTokenIds'.trans outputTokenIds, ?_, computed,
      fun honoured enough last => ?_⟩
    · exact status'.imp_left fun same => same.trans status
    · refine maybeStopSequence_eos ?_ honoured (by rw [outputTokenIds, last, eosTokenId])
      unfold SequenceOutput.getOutputLen at enough ⊢
      rw [outputTokenIds]
      exact enough
  unfold processDecodeAndStop
  rw [wp_ite]
  refine ⟨fun _ => ?_, fun _ => ?_⟩
  · rw [wp_bind]
    refine (decodeSequenceInplace_wp nonempty).mono (fun newCharCount u kept => ?_) fun _ _ never => never
    rw [wp_modify]
    exact stops newCharCount u kept
  · rw [wp_bind, wp_pure, wp_modify]
    exact stops 0 s ⟨rfl, rfl, rfl, rfl, rfl⟩

theorem appendOne_wp (computed : s.numComputedTokens ≤ s.getLen) :
    wp (self.appendOne params isPrefillSampledToken tokenId) (fun _ t => self.Appended params isPrefillSampledToken tokenId s t)
      (fun _ _ => False) s := by
  have nonempty : s.outputTokenIds ++ [tokenId] ≠ [] := List.append_ne_nil_of_right_ne_nil _ (List.cons_ne_nil _ _)
  have stops : ∀ u : MultiStepSequence, u.toSequenceOutput = (s.appendTokenId tokenId).toSequenceOutput →
      u.numComputedTokens = s.numComputedTokens + (if isPrefillSampledToken then 0 else 1) →
      wp (self.processDecodeAndStop params) (fun _ t => self.Appended params isPrefillSampledToken tokenId s t)
        (fun _ _ => False) u := by
    intro u output computed
    have tokens : u.outputTokenIds = s.outputTokenIds ++ [tokenId] := congrArg SequenceOutput.outputTokenIds output
    have eos : u.eosTokenId = (s.appendTokenId tokenId).eosTokenId := congrArg SequenceOutput.eosTokenId output
    have prompt : u.promptLen = (s.appendTokenId tokenId).promptLen := congrArg SequenceOutput.promptLen output
    have status' : u.status = (s.appendTokenId tokenId).status := congrArg SequenceOutput.status output
    refine (processDecodeAndStop_wp (tokens ▸ nonempty)).mono ?_ fun _ _ never => never
    rintro _ t ⟨promptLen, eosTokenId, outputTokenIds, status, computed', finishes⟩
    refine ⟨promptLen.trans prompt, eosTokenId.trans eos, outputTokenIds.trans tokens,
      status.imp_left fun same => same.trans status', computed'.trans computed,
      fun honoured enough same => finishes honoured ?_ ?_⟩
    · unfold SequenceOutput.getOutputLen at enough ⊢
      rw [tokens, List.length_append]
      omega
    · rw [tokens, List.getLast?_concat, eos, same]
      rfl
  unfold appendOne MultiStepSequence.updateNumComputedTokens
  rw [wp_bind, wp_modify, wp_ite]
  refine ⟨fun first => ?_, fun other => ?_⟩
  · exact stops _ rfl (by rw [if_pos first]; rfl)
  · have length : (s.appendTokenId tokenId).getLen = s.getLen + 1 := by
      unfold SequenceOutput.getLen MultiStepSequence.appendTokenId
      rw [List.length_append]
      rfl
    simp only [wp_bind, wp_modify, wp_get, assertThat, wp_ite, wp_pure, wp_throw]
    refine ⟨fun _ => ⟨fun _ => ?_, fun _ => ?_⟩, fun short => ?_⟩
    · exact stops _ rfl (by rw [if_neg other]; rfl)
    · exact stops _ rfl (by rw [if_neg other]; rfl)
    · apply short
      show s.numComputedTokens + 1 ≤ (s.appendTokenId tokenId).getLen
      omega

/-! ### One token after the other -/

variable (self params) in
/-- The sequence once its last token is decoded, and by how many characters its text has grown. -/
def detokenized (s : MultiStepSequence) : MultiStepSequence × ℕ :=
  if params.detokenize && self.detokenizer then
    let allInputIds := s.promptTokenIds ++ s.outputTokenIds
    let (tokens, prefixOffset, readOffset) := match s.tokens with
      | none => self.tokenizer.convertPromptIdsToTokens params.skipSpecialTokens allInputIds.dropLast
      | some tokens => (tokens, s.prefixOffset, s.readOffset)
    match self.tokenizer.detokenizeIncrementally params.skipSpecialTokens params.spacesBetweenSpecialTokens allInputIds
        (some tokens) prefixOffset readOffset with
    | .error _ => (s, 0)
    | .ok (newTokens, newText, prefixOffset, readOffset) =>
      ({ s with
          tokens := some (tokens ++ newTokens), prefixOffset, readOffset, outputText := s.outputText ++ newText },
        newText.length)
  else (s, 0)

variable (self params) in
/-- What a token is to do: it comes last, all before it is computed, its text is added and checked for a stop. -/
def extended (s : MultiStepSequence) (tokenId : TokenId) : MultiStepSequence :=
  let (u, newCharCount) := self.detokenized params
    { s with outputTokenIds := s.outputTokenIds ++ [tokenId], numComputedTokens := s.getLen }
  { u with
    toSequenceOutput := maybeStopSequence self.maxModelLen newCharCount params.toStopParams u.toSequenceOutput }

variable (self params) in
/-- No token is taken once the sequence has finished. -/
def extendedBy (s : MultiStepSequence) : List TokenId → MultiStepSequence
  | [] => s
  | tokenId :: rest => if s.isFinished then s else extendedBy (self.extended params s tokenId) rest

/-- The prompt is computed, or all but the last token is. -/
def Prefilled (s : MultiStepSequence) : Prop := s.numComputedTokens = s.getLen ∨ s.numComputedTokens + 1 = s.getLen

theorem decodeSequenceInplace_eq (nonempty : s.outputTokenIds ≠ [])
    (decodes : (params.detokenize && self.detokenizer) = true) : self.decodeSequenceInplace params s =
      .ok (self.detokenized params s).2 (self.detokenized params s).1 := by
  have all : s.promptTokenIds ++ s.outputTokenIds ≠ [] := List.append_ne_nil_of_right_ne_nil _ nonempty
  unfold decodeSequenceInplace detokenized
  rw [if_pos decodes, get_bind]
  dsimp only
  generalize (match s.tokens with
    | none => self.tokenizer.convertPromptIdsToTokens params.skipSpecialTokens
        (s.promptTokenIds ++ s.outputTokenIds).dropLast
    | some tokens => (tokens, s.prefixOffset, s.readOffset)) = start
  obtain ⟨result, returns⟩ := @detokenizeIncrementally_returns self.tokenizer params.skipSpecialTokens
    params.spacesBetweenSpecialTokens _ (some start.1) start.2.1 start.2.2 all
  rw [returns]
  rfl

theorem processDecodeAndStop_eq (nonempty : s.outputTokenIds ≠ []) :
    self.processDecodeAndStop params s = .ok () { (self.detokenized params s).1 with
      toSequenceOutput := maybeStopSequence self.maxModelLen (self.detokenized params s).2 params.toStopParams
        (self.detokenized params s).1.toSequenceOutput } := by
  unfold processDecodeAndStop
  by_cases decodes : (params.detokenize && self.detokenizer) = true
  · rw [if_pos decodes, bind_of_ok (decodeSequenceInplace_eq nonempty decodes)]
    rfl
  · have unchanged : self.detokenized params s = (s, 0) := if_neg decodes
    rw [if_neg decodes, unchanged]
    rfl

theorem updateNumComputedTokens_one (short : s.numComputedTokens + 1 < s.getLen) :
    MultiStepSequence.updateNumComputedTokens 1 s = .ok () { s with numComputedTokens := s.numComputedTokens + 1 } := by
  have within : ({ s with numComputedTokens := s.numComputedTokens + 1 } : MultiStepSequence).numComputedTokens ≤
      s.getLen := short.le
  have remaining : ({ s with numComputedTokens := s.numComputedTokens + 1 } : MultiStepSequence).getNumUncomputedTokens ≠
      0 := by
    show (s.getLen : ℤ) - ↑(s.numComputedTokens + 1) ≠ 0
    omega
  unfold MultiStepSequence.updateNumComputedTokens
  rw [modify_bind, get_bind, assertThat, if_pos within, if_neg remaining]
  rfl

theorem appendOne_eq (prefilled : Prefilled s) :
    self.appendOne params (s.getNumUncomputedTokens = 0) tokenId s = .ok () (self.extended params s tokenId) := by
  have nonempty : s.outputTokenIds ++ [tokenId] ≠ [] := List.append_ne_nil_of_right_ne_nil _ (List.cons_ne_nil _ _)
  have last : self.processDecodeAndStop params
      { s with outputTokenIds := s.outputTokenIds ++ [tokenId], numComputedTokens := s.getLen } =
        .ok () (self.extended params s tokenId) := processDecodeAndStop_eq nonempty
  have length : (s.appendTokenId tokenId).getLen = s.getLen + 1 := by
    unfold SequenceOutput.getLen MultiStepSequence.appendTokenId
    rw [List.length_append]
    rfl
  unfold appendOne
  rw [modify_bind, ← last]
  rcases prefilled with all | butOne
  · have first : s.getNumUncomputedTokens = 0 := by
      unfold MultiStepSequence.getNumUncomputedTokens
      omega
    rw [if_pos (decide_eq_true first), ← all]
    rfl
  · have other : s.getNumUncomputedTokens ≠ 0 := by
      unfold MultiStepSequence.getNumUncomputedTokens
      omega
    have counted := updateNumComputedTokens_one (s := s.appendTokenId tokenId) (by rw [length]; exact butOne ▸ Nat.lt_succ_self _)
    rw [if_neg (by simp [other]), bind_of_ok counted, ← butOne]
    rfl

/-! ### Outputs of several steps, and of one -/

/-- None of these tokens, which follow `n` others, is an EOS token that is not checked. -/
def Unchecked (self : MultiStepOutputProcessor) (params : MultiStepParams) (n : ℕ) (tokenIds : List TokenId) : Prop :=
  ∀ i tokenId, tokenIds[i]? = some tokenId → n + i < params.minTokens → some tokenId ≠ self.eosTokenId

/-- The tokens of a call that are appended, unless the sequence finishes before. -/
def kept (self : MultiStepOutputProcessor) (params : MultiStepParams) (maxTokens n : ℕ) (tokenIds : List TokenId) : List TokenId :=
  if params.ignoreEos then tokenIds.take (maxTokens - n) else self.truncateAfterEos (tokenIds.take (maxTokens - n))

variable {maxTokens : ℕ}

theorem processSeqOutputs_eq (limited : params.maxTokens = some maxTokens) :
    self.processSeqOutputs params tokenIds s =
      self.appendEach params (s.getNumUncomputedTokens = 0) (self.kept params maxTokens s.getOutputLen tokenIds) s := by
  have cut : (if (maxTokens : ℤ) - (s.getOutputLen + tokenIds.length : ℕ) < 0 then
      PySlice.slice tokenIds 0 ((maxTokens : ℤ) - (s.getOutputLen + tokenIds.length : ℕ)) else tokenIds) =
      tokenIds.take (maxTokens - s.getOutputLen) := by
    split
    · rename_i negative
      unfold PySlice.slice PySlice.bound
      rw [if_pos negative, if_neg (lt_irrefl 0), Int.toNat_zero, Nat.zero_min, List.drop_zero]
      congr 1
      push_cast
      omega
    · rename_i enough
      rw [List.take_of_length_le]
      push_cast at enough
      omega
  unfold processSeqOutputs kept
  rw [get_bind, limited]
  dsimp only
  rw [← Nat.cast_add, cut]

/-- What calls for a running sequence leave: with new tokens, all but the last is computed. -/
structure Served (maxTokens : ℕ) (s t : MultiStepSequence) : Prop where
  status : t.status = .running ∨ t.isFinished = true
  eosTokenId : t.eosTokenId = s.eosTokenId
  computed : t.numComputedTokens ≤ t.getLen
  limit : s.getOutputLen ≤ maxTokens → t.getOutputLen ≤ maxTokens
  progress : t.outputTokenIds = s.outputTokenIds ∧ t.numComputedTokens = s.numComputedTokens ∧ t.promptLen = s.promptLen ∨
    (Prefilled s → t.numComputedTokens + 1 = t.getLen)

theorem Served.refl (running : s.status = .running) (computed : s.numComputedTokens ≤ s.getLen) :
    Served maxTokens s s :=
  ⟨Or.inl running, rfl, computed, id, Or.inl ⟨rfl, rfl, rfl⟩⟩

theorem Served.trans {u : MultiStepSequence} (first : Served maxTokens s u) (next : Served maxTokens u t) :
    Served maxTokens s t := by
  refine ⟨next.status, next.eosTokenId.trans first.eosTokenId, next.computed, fun within => next.limit (first.limit within), ?_⟩
  rcases first.progress with ⟨tokens, computed, prompt⟩ | moved
  · have length : u.getLen = s.getLen := by
      unfold SequenceOutput.getLen
      rw [tokens, prompt]
    rcases next.progress with ⟨tokens', computed', prompt'⟩ | moved
    · exact Or.inl ⟨tokens'.trans tokens, computed'.trans computed, prompt'.trans prompt⟩
    · refine Or.inr fun prefilled => moved ?_
      unfold Prefilled at prefilled ⊢
      rwa [computed, length]
  · refine Or.inr fun prefilled => ?_
    rcases next.progress with ⟨tokens', computed', prompt'⟩ | moved'
    · have length : t.getLen = u.getLen := by
        unfold SequenceOutput.getLen
        rw [tokens', prompt']
      rw [computed', length]
      exact moved prefilled
    · exact moved' (Or.inr (moved prefilled))

namespace Appended

theorem getOutputLen (appended : self.Appended params isPrefillSampledToken tokenId s t) :
    t.getOutputLen = s.getOutputLen + 1 := by
  unfold SequenceOutput.getOutputLen
  rw [appended.outputTokenIds, List.length_append]
  rfl

theorem getLen (appended : self.Appended params isPrefillSampledToken tokenId s t) : t.getLen = s.getLen + 1 := by
  unfold SequenceOutput.getLen
  rw [appended.outputTokenIds, appended.promptLen, List.length_append]
  rfl

section
variable (appended : self.Appended params (s.getNumUncomputedTokens = 0) tokenId s t)
include appended

theorem uncomputed : t.getNumUncomputedTokens ≠ 0 := by
  have computed := appended.computed
  have length := appended.getLen
  unfold MultiStepSequence.getNumUncomputedTokens at *
  by_cases first : (s.getLen : ℤ) - s.numComputedTokens = 0
  · simp only [first, decide_true, if_true] at computed
    omega
  · simp only [first, decide_false, Bool.false_eq_true, if_false] at computed
    omega

theorem counted (prefilled : Prefilled s) : t.numComputedTokens + 1 = t.getLen := by
  have counted := appended.computed
  have length := appended.getLen
  unfold MultiStepSequence.getNumUncomputedTokens at counted
  unfold Prefilled at prefilled
  by_cases first : (s.getLen : ℤ) - s.numComputedTokens = 0
  · simp only [first, decide_true, if_true] at counted
    omega
  · simp only [first, decide_false, Bool.false_eq_true, if_false] at counted
    omega

theorem served
    (running : s.status = .running) (computed : s.numComputedTokens ≤ s.getLen) (room : s.getOutputLen < maxTokens) :
    Served maxTokens s t := by
  refine ⟨appended.status.imp_left fun same => same.trans running, appended.eosTokenId, ?_, fun _ => ?_,
    Or.inr appended.counted⟩
  · have counted := appended.computed
    have length := appended.getLen
    split at counted <;> omega
  · rw [appended.getOutputLen]
    omega

end

end Appended

theorem serve_cons (output : List TokenId) : self.serve params (output :: outputs) s = ((do
      let seq ← get
      if seq.isFinished then pure () else self.processOutputs params false output) >>= fun _ => self.serve params outputs) s := rfl

theorem serve_finished (finished : s.isFinished = true) : self.serve params outputs s = .ok () s := by
  induction outputs with
  | nil => rfl
  | cons output rest ih =>
    rw [serve_cons, bind_of_ok (t := s) (a := ()), ih]
    rw [get_bind, if_pos finished]
    rfl

theorem serve_running (running : s.status = .running) (output : List TokenId) : self.serve params (output :: outputs) s =
    ((if output.filter (fun tokenId => tokenId ≠ invalidTokenId) = [] then pure ()
      else self.processSeqOutputs params (output.filter fun tokenId => tokenId ≠ invalidTokenId)) >>= fun _ =>
        self.serve params outputs) s := by
  have goesOn : ¬s.isFinished = true := by
    unfold SequenceOutput.isFinished
    rw [running]
    decide
  have call : (do
      let seq ← get
      if seq.isFinished then pure () else self.processOutputs params false output : Method MultiStepSequence Unit) s =
      (if output.filter (fun tokenId => tokenId ≠ invalidTokenId) = [] then pure ()
        else self.processSeqOutputs params (output.filter fun tokenId => tokenId ≠ invalidTokenId) :
          Method MultiStepSequence Unit) s := by
    rw [get_bind, if_neg goesOn]
    unfold processOutputs assertThat
    rw [get_bind, if_pos running]
    rfl
  rw [serve_cons]
  exact bind_congr_left call

theorem kept_nil {n : ℕ} : self.kept params maxTokens n [] = [] := by
  unfold kept
  rw [List.take_nil, truncateAfterEos, ite_self]

theorem kept_full {n : ℕ} (full : maxTokens ≤ n) : self.kept params maxTokens n tokenIds = [] := by
  unfold kept
  rw [Nat.sub_eq_zero_of_le full, List.take_zero, truncateAfterEos, ite_self]

theorem kept_cons {n : ℕ} (room : n < maxTokens) : self.kept params maxTokens n (tokenId :: tokenIds) =
    tokenId :: if params.ignoreEos = false ∧ some tokenId = self.eosTokenId then []
      else self.kept params maxTokens (n + 1) tokenIds := by
  have more : maxTokens - n = maxTokens - (n + 1) + 1 := by omega
  unfold kept
  rw [more, List.take_succ_cons]
  cases params.ignoreEos with
  | true => simp
  | false =>
    simp only [Bool.false_eq_true, if_false, true_and, truncateAfterEos]
    split <;> rfl

/-- One token at a time, what would be kept of all is appended. -/
theorem serve_singles (limited : params.maxTokens = some maxTokens) (verified : params.minTokens ≤ maxTokens)
    (running : s.status = .running) (agree : s.eosTokenId = self.eosTokenId) (computed : s.numComputedTokens ≤ s.getLen)
    (unchecked : self.Unchecked params s.getOutputLen (tokenIds.filter (fun tokenId => tokenId ≠ invalidTokenId) ++ later)) :
    ∃ t, self.serve params (tokenIds.map fun tokenId => [tokenId]) s = .ok () t ∧
      self.appendEach params (s.getNumUncomputedTokens = 0)
        (self.kept params maxTokens s.getOutputLen (tokenIds.filter fun tokenId => tokenId ≠ invalidTokenId)) s = .ok () t ∧
      Served maxTokens s t ∧ (t.isFinished = true ∨ self.Unchecked params t.getOutputLen later) := by
  induction tokenIds generalizing s with
  | nil => exact ⟨s, rfl, by rw [List.filter_nil, kept_nil]; rfl, .refl running computed, Or.inr unchecked⟩
  | cons tokenId rest ih =>
    rw [List.map_cons, serve_running running]
    by_cases invalid : tokenId = invalidTokenId
    · have dropped : ∀ tokenIds : List TokenId, (tokenId :: tokenIds).filter (fun tokenId => tokenId ≠ invalidTokenId) =
          tokenIds.filter fun tokenId => tokenId ≠ invalidTokenId := fun _ => List.filter_cons_of_neg (by simp [invalid])
      rw [dropped] at unchecked ⊢
      rw [dropped, List.filter_nil, if_pos rfl]
      exact ih running agree computed unchecked
    · have chosen : ∀ tokenIds : List TokenId, (tokenId :: tokenIds).filter (fun tokenId => tokenId ≠ invalidTokenId) =
          tokenId :: tokenIds.filter fun tokenId => tokenId ≠ invalidTokenId := fun _ => List.filter_cons_of_pos (by simp [invalid])
      rw [chosen] at unchecked ⊢
      rw [chosen, List.filter_nil, if_neg (List.cons_ne_nil _ _), bind_apply, processSeqOutputs_eq limited]
      rcases Nat.lt_or_ge s.getOutputLen maxTokens with room | full
      · obtain ⟨_, u, appends, appended⟩ := (@appendOne_wp self params _ tokenId (s.getNumUncomputedTokens = 0) computed).returns
        have served := appended.served running computed room
        have single : self.appendEach params (s.getNumUncomputedTokens = 0) (self.kept params maxTokens s.getOutputLen [tokenId]) s =
            .ok () u := by
          rw [kept_cons room, kept_nil, ite_self, appendEach, bind_of_ok appends, get_bind]
          split <;> rfl
        rw [single, kept_cons room, appendEach, bind_of_ok appends, get_bind]
        by_cases finished : u.isFinished = true
        · rw [if_pos finished]
          exact ⟨u, serve_finished finished, rfl, served, Or.inl finished⟩
        · rw [if_neg finished]
          -- an EOS token would have been checked
          have other : ¬(params.ignoreEos = false ∧ some tokenId = self.eosTokenId) := by
            rintro ⟨honoured, eos⟩
            refine finished (appended.eos honoured ?_ (eos.trans agree.symm))
            by_contra early
            exact unchecked 0 tokenId rfl (by omega) eos
          have later' : self.Unchecked params u.getOutputLen
              (rest.filter (fun tokenId => tokenId ≠ invalidTokenId) ++ later) := by
            intro i tokenId found early
            rw [appended.getOutputLen] at early
            exact unchecked (i + 1) tokenId (by rw [List.cons_append, List.getElem?_cons_succ]; exact found) (by omega)
          obtain ⟨t, serves, appends', served', rest'⟩ := ih (served.status.resolve_right finished)
            (appended.eosTokenId.trans agree) served.computed later'
          have flag : decide (u.getNumUncomputedTokens = 0) = false := decide_eq_false appended.uncomputed
          rw [flag, appended.getOutputLen] at appends'
          rw [if_neg other]
          exact ⟨t, serves, appends', served.trans served', rest'⟩
      · -- no more tokens are allowed
        rw [kept_full full, kept_full full, appendEach]
        obtain ⟨t, serves, appends, served, rest'⟩ := ih running agree computed fun i tokenId _ early => by omega
        rw [kept_full full, appendEach] at appends
        exact ⟨t, serves, appends, served, rest'⟩

theorem serve_unlimited (unlimited : params.maxTokens = none) (running : s.status = .running) : self.serve params outputs s =
    if outputs.flatten.filter (fun tokenId => tokenId ≠ invalidTokenId) = [] then .ok () s else .error .typeError s := by
  induction outputs with
  | nil => rfl
  | cons output rest ih =>
    rw [serve_running running, List.flatten_cons, List.filter_append]
    by_cases none : output.filter (fun tokenId => tokenId ≠ invalidTokenId) = []
    · rw [if_pos none, none, List.nil_append]
      exact ih
    · rw [if_neg none, if_neg fun both => none (List.append_eq_nil_iff.mp both).1, bind_apply]
      unfold processSeqOutputs
      rw [get_bind, unlimited]
      rfl

theorem flatten_singles (tokenIds : List TokenId) : (tokenIds.map fun tokenId => [tokenId]).flatten = tokenIds := by
  induction tokenIds with
  | nil => rfl
  | cons tokenId rest ih => rw [List.map_cons, List.flatten_cons, ih, List.singleton_append]

theorem serve_append (outputs' : List (List TokenId)) : self.serve params (outputs ++ outputs') =
    self.serve params outputs >>= fun _ => self.serve params outputs' := by
  induction outputs with
  | nil => rfl
  | cons output rest ih =>
    calc
      self.serve params (output :: (rest ++ outputs')) = (do
          let seq ← get
          if seq.isFinished then pure () else self.processOutputs params false output) >>= fun _ =>
            self.serve params (rest ++ outputs') := rfl
      _ = _ := by rw [ih, ← bind_assoc]; rfl

theorem serve_limited (limited : params.maxTokens = some maxTokens) (verified : params.minTokens ≤ maxTokens)
    (running : s.status = .running) (agree : s.eosTokenId = self.eosTokenId) (computed : s.numComputedTokens ≤ s.getLen)
    (unchecked : self.Unchecked params s.getOutputLen (outputs.flatten.filter fun tokenId => tokenId ≠ invalidTokenId)) :
    ∃ t, self.serve params outputs s = .ok () t ∧
      self.serve params (outputs.flatten.map fun tokenId => [tokenId]) s = .ok () t ∧ Served maxTokens s t := by
  induction outputs generalizing s with
  | nil => exact ⟨s, rfl, rfl, .refl running computed⟩
  | cons output rest ih =>
    rw [List.flatten_cons, List.filter_append] at unchecked
    obtain ⟨u, singles, appends, served, later⟩ := serve_singles limited verified running agree computed unchecked
    have call : (if output.filter (fun tokenId => tokenId ≠ invalidTokenId) = [] then pure ()
        else self.processSeqOutputs params (output.filter fun tokenId => tokenId ≠ invalidTokenId) :
          Method MultiStepSequence Unit) s = .ok () u := by
      split
      · rename_i none
        rw [none, kept_nil] at appends
        exact appends
      · rw [processSeqOutputs_eq limited]
        exact appends
    rw [serve_running running, bind_of_ok call, List.flatten_cons, List.map_append, serve_append, bind_of_ok singles]
    by_cases finished : u.isFinished = true
    · exact ⟨u, serve_finished finished, serve_finished finished, served⟩
    · obtain ⟨t, serves, singles', served'⟩ := ih (served.status.resolve_right finished) (served.eosTokenId.trans agree)
        served.computed (later.resolve_left finished)
      exact ⟨t, serves, singles', served.trans served'⟩

/-! ### What each token is to do -/

variable (self params tokenId) in
theorem extended_appended (prefilled : Prefilled s) :
    self.Appended params (s.getNumUncomputedTokens = 0) tokenId s (self.extended params s tokenId) := by
  have computed : s.numComputedTokens ≤ s.getLen := by
    unfold Prefilled at prefilled
    omega
  exact (appendOne_wp computed).ok (appendOne_eq prefilled)

theorem detokenized_getOutputLen : (self.detokenized params s).1.getOutputLen = s.getOutputLen := by
  unfold detokenized
  split
  · dsimp only
    split
    · rfl
    · rfl
  · rfl

theorem extended_full (enough : params.minTokens ≤ s.getOutputLen + 1)
    (full : params.maxTokens = some (s.getOutputLen + 1)) : (self.extended params s tokenId).isFinished = true := by
  have length : (self.detokenized params { s with
      outputTokenIds := s.outputTokenIds ++ [tokenId], numComputedTokens := s.getLen }).1.getOutputLen =
      s.getOutputLen + 1 := by
    rw [detokenized_getOutputLen]
    exact List.length_append
  rw [← length] at enough full
  exact maybeStopSequence_full enough full

theorem extendedBy_finished (finished : s.isFinished = true) : self.extendedBy params s tokenIds = s := by
  cases tokenIds with
  | nil => rfl
  | cons tokenId rest => rw [extendedBy, if_pos finished]

/-- The tokens are appended, and all of them unless the sequence finishes. -/
theorem extendedBy_outputTokenIds (prefilled : Prefilled s) : ∃ n,
    (self.extendedBy params s tokenIds).outputTokenIds = s.outputTokenIds ++ tokenIds.take n ∧
      ((self.extendedBy params s tokenIds).isFinished = false → tokenIds.length ≤ n) := by
  induction tokenIds generalizing s with
  | nil => exact ⟨0, (List.append_nil _).symm, fun _ => le_rfl⟩
  | cons tokenId rest ih =>
    rw [extendedBy]
    by_cases finished : s.isFinished = true
    · rw [if_pos finished]
      exact ⟨0, (List.append_nil _).symm, fun goesOn => absurd (finished.symm.trans goesOn) (by decide)⟩
    · rw [if_neg finished]
      have appended := extended_appended self params tokenId prefilled
      obtain ⟨n, tokens, all⟩ := ih (s := self.extended params s tokenId) (Or.inr (appended.counted prefilled))
      refine ⟨n + 1, ?_, fun goesOn => ?_⟩
      · rw [tokens, appended.outputTokenIds, List.append_assoc, List.take_succ_cons, List.singleton_append]
      · rw [List.length_cons]
        exact Nat.succ_le_succ (all goesOn)

theorem extendedBy_counted (prefilled : Prefilled s) (running : s.isFinished = false)
    (new : tokenIds ≠ [] ∨ s.numComputedTokens + 1 = s.getLen) :
    (self.extendedBy params s tokenIds).numComputedTokens + 1 = (self.extendedBy params s tokenIds).getLen := by
  induction tokenIds generalizing s with
  | nil => exact new.resolve_left fun some => some rfl
  | cons tokenId rest ih =>
    rw [extendedBy, if_neg (by rw [running]; exact Bool.false_ne_true)]
    have counted := (extended_appended self params tokenId prefilled).counted prefilled
    cases finished : (self.extended params s tokenId).isFinished with
    | true => rwa [extendedBy_finished finished]
    | false => exact ih (Or.inr counted) finished (Or.inr counted)

theorem serve_singles_extended (limited : params.maxTokens = some maxTokens)
    (verified : params.minTokens ≤ maxTokens) (running : s.status = .running) (prefilled : Prefilled s)
    (room : s.getOutputLen < maxTokens) : self.serve params (tokenIds.map fun tokenId => [tokenId]) s =
      .ok () (self.extendedBy params s (tokenIds.filter fun tokenId => tokenId ≠ invalidTokenId)) := by
  induction tokenIds generalizing s with
  | nil => rfl
  | cons tokenId rest ih =>
    rw [List.map_cons, serve_running running]
    by_cases invalid : tokenId = invalidTokenId
    · have dropped : ∀ tokenIds : List TokenId, (tokenId :: tokenIds).filter (fun tokenId => tokenId ≠ invalidTokenId) =
          tokenIds.filter fun tokenId => tokenId ≠ invalidTokenId := fun _ => List.filter_cons_of_neg (by simp [invalid])
      rw [dropped, dropped, List.filter_nil, if_pos rfl]
      exact ih running prefilled room
    · have chosen : ∀ tokenIds : List TokenId, (tokenId :: tokenIds).filter (fun tokenId => tokenId ≠ invalidTokenId) =
          tokenId :: tokenIds.filter fun tokenId => tokenId ≠ invalidTokenId := fun _ => List.filter_cons_of_pos (by simp [invalid])
      have goesOn : ¬s.isFinished = true := by
        unfold SequenceOutput.isFinished
        rw [running]
        decide
      have appended := extended_appended self params tokenId prefilled
      have single : self.processSeqOutputs params [tokenId] s = .ok () (self.extended params s tokenId) := by
        rw [processSeqOutputs_eq limited, kept_cons room, kept_nil, ite_self, appendEach,
          bind_of_ok (appendOne_eq prefilled), get_bind]
        split <;> rfl
      rw [chosen, chosen, List.filter_nil, if_neg (List.cons_ne_nil _ _), bind_of_ok single, extendedBy, if_neg goesOn]
      by_cases finished : (self.extended params s tokenId).isFinished = true
      · rw [serve_finished finished, extendedBy_finished finished]
      · refine ih ((appended.status.resolve_right finished).trans running) (Or.inr (appended.counted prefilled)) ?_
        -- with as many tokens as allowed it would have finished
        rw [appended.getOutputLen]
        refine lt_of_le_of_ne room fun full => finished (extended_full ?_ ?_)
        · rw [full]
          exact verified
        · rw [full]
          exact limited

/-- However the tokens are cut into outputs, with invalid ones in between, a sequence is left as by one call for each
token: the valid ones are appended, decoded and checked for a stop in turn until it has finished. There are not more
tokens than allowed, and of new ones all but the last are computed. -/
theorem serve_eq_singles (verified : ∀ maxTokens, params.maxTokens = some maxTokens → params.minTokens ≤ maxTokens)
    (running : s.status = .running) (agree : s.eosTokenId = self.eosTokenId) (prefilled : Prefilled s)
    (unchecked : self.Unchecked params s.getOutputLen (outputs.flatten.filter fun tokenId => tokenId ≠ invalidTokenId)) :
    self.serve params outputs s = self.serve params (outputs.flatten.map fun tokenId => [tokenId]) s ∧
      ∀ maxTokens, params.maxTokens = some maxTokens → ∃ t, self.serve params outputs s = .ok () t ∧
        (s.getOutputLen ≤ maxTokens → t.getOutputLen ≤ maxTokens) ∧
        (t.outputTokenIds ≠ s.outputTokenIds → t.numComputedTokens + 1 = t.getLen) ∧
        (s.getOutputLen < maxTokens →
          let valid := outputs.flatten.filter fun tokenId => tokenId ≠ invalidTokenId
          t = self.extendedBy params s valid ∧
            (∃ n, t.outputTokenIds = s.outputTokenIds ++ valid.take n ∧ (t.isFinished = false → valid.length ≤ n)) ∧
            (valid ≠ [] → t.numComputedTokens + 1 = t.getLen)) := by
  have computed : s.numComputedTokens ≤ s.getLen := by
    unfold Prefilled at prefilled
    omega
  have goesOn : s.isFinished = false := by
    unfold SequenceOutput.isFinished
    rw [running]
    rfl
  constructor
  · cases limit : params.maxTokens with
    | none =>
      rw [serve_unlimited limit running, serve_unlimited limit running, flatten_singles]
    | some maxTokens =>
      obtain ⟨t, serves, singles, -⟩ := serve_limited limit (verified _ limit) running agree computed unchecked
      rw [serves, singles]
  · intro maxTokens limited
    obtain ⟨t, serves, singles, served⟩ := serve_limited limited (verified _ limited) running agree computed unchecked
    refine ⟨t, serves, served.limit, fun new => ?_, fun room => ?_⟩
    · exact (served.progress.resolve_left fun same => new same.1) prefilled
    · rw [serve_singles_extended limited (verified _ limited) running prefilled room] at singles
      obtain ⟨-, rfl⟩ := EStateM.Result.ok.inj singles
      exact ⟨rfl, extendedBy_outputTokenIds prefilled, fun new => extendedBy_counted prefilled goesOn (Or.inl new)⟩

def exampleProcessor : MultiStepOutputProcessor where
  tokenizer := Detokenization.exampleTokenizer
  eosTokenId := some 9
  maxModelLen := 100

def exampleParams : MultiStepParams where
  minTokens := 1
  maxTokens := some 3

def exampleSequence : MultiStepSequence where
  promptLen := 2
  eosTokenId := some 9
  promptTokenIds := [0, 1]
  numComputedTokens := 2

theorem serve_eq_singles_example :
    exampleProcessor.serve exampleParams [[1, -1, 2], [2, 9]] exampleSequence =
      exampleProcessor.serve exampleParams [[1], [-1], [2], [2], [9]] exampleSequence ∧
    ∃ t, exampleProcessor.serve exampleParams [[1, -1, 2], [2, 9]] exampleSequence = .ok () t ∧ t.getOutputLen ≤ 3 ∧
      t = exampleProcessor.extendedBy exampleParams exampleSequence [1, 2, 2, 9] ∧ t.numComputedTokens + 1 = t.getLen := by
  have verified : ∀ maxTokens, exampleParams.maxTokens = some maxTokens → exampleParams.minTokens ≤ maxTokens := by
    rintro _ ⟨⟩
    decide
  have unchecked : exampleProcessor.Unchecked exampleParams exampleSequence.getOutputLen
      ([[1, -1, 2], [2, 9]].flatten.filter fun tokenId => tokenId ≠ invalidTokenId) := by
    intro i tokenId found early
    obtain rfl : i = 0 := by
      have early : 0 + i < 1 := early
      omega
    obtain rfl : 1 = tokenId := Option.some.inj found
    decide
  obtain ⟨same, limited⟩ := serve_eq_singles verified rfl rfl (Or.inl rfl) unchecked
  obtain ⟨t, serves, limit, -, extends'⟩ := limited 3 rfl
  obtain ⟨extended, -, counted⟩ := extends' (by decide)
  exact ⟨same, t, serves, limit (Nat.zero_le _), extended, counted (by decide)⟩

end MultiStepOutputProcessor
end Vllm.Frontend
