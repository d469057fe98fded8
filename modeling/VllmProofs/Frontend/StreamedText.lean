import VllmProofs.Data.Runs
import VllmProofs.Frontend.RequestState
import VllmProofs.Sequence

/-!
The text of a request as it is streamed, by `Sequence` and `StopChecker` of the V0 engine and by
`IncrementalDetokenizer` of the V1 engine: what has been returned is never taken back.
-/

namespace Vllm.Frontend

/-! ### Text that is read piece by piece -/

/-- The text between what has been read and `length`, and how much has been read then. -/
def readDelta (text : Text) (offset length : ℕ) : Text × ℕ :=
  if offset < length then ((text.take length).drop offset, length) else ([], offset)

theorem readDelta_eq (text : Text) (offset length : ℕ) :
    text.take offset ++ (readDelta text offset length).1 = text.take (readDelta text offset length).2 := by
  unfold readDelta
  split
  · next more =>
    have front : text.take offset = (text.take length).take offset := by
      rw [List.take_take, Nat.min_eq_left more.le]
    rw [front, List.take_append_drop]
  · rw [List.append_nil]

theorem readDelta_offset (text : Text) (offset length : ℕ) :
    (readDelta text offset length).2 = max offset length := by
  unfold readDelta
  split <;> omega

structure Held (text returned : Text) (offset limit : ℕ) : Prop where
  front : returned = text.take offset
  within : offset ≤ text.length - limit

namespace Held

variable {text returned : Text} {offset limit : ℕ}

theorem read (held : Held text returned offset limit) :
    Held text (returned ++ (readDelta text offset (text.length - limit)).1)
      (readDelta text offset (text.length - limit)).2 limit := by
  constructor
  · rw [held.front, readDelta_eq]
  · rw [readDelta_offset]
    exact max_le held.within le_rfl

/-- Once nothing is held back, everything has been returned by the next call. -/
theorem read_all (held : Held text returned offset 0) :
    returned ++ (readDelta text offset text.length).1 = text := by
  rw [held.front, readDelta_eq, readDelta_offset]
  exact List.take_of_length_le (le_max_right _ _)

theorem extend (held : Held text returned offset limit) (more : Text) :
    Held (text ++ more) returned offset limit := by
  have within := held.within
  constructor
  · rw [held.front, List.take_append_of_le_length (by omega)]
  · rw [List.length_append]
    omega

theorem release (held : Held text returned offset limit) : Held text returned offset 0 :=
  ⟨held.front, held.within.trans (Nat.sub_le_sub_left (Nat.zero_le _) _)⟩

theorem cut (held : Held text returned offset limit) (more : Text) {length : ℕ}
    (far : text.length - limit ≤ length) : Held ((text ++ more).take length) returned offset 0 := by
  have within := held.within
  constructor
  · rw [List.take_take, Nat.min_eq_left (within.trans far)]
    exact (held.extend more).front
  · rw [List.length_take, List.length_append]
    omega

end Held

/-! ### Stop strings -/

theorem find_start {text sub : Text} {start : ℤ} {i : ℕ} (found : find text sub start = some i) :
    PySlice.bound text.length start ≤ i ∧ i ≤ text.length := by
  have member := List.mem_of_find?_eq_some found
  have here := List.find?_some found
  rw [List.mem_range] at member
  simp only [decide_eq_true_eq] at here
  exact ⟨here.1, by omega⟩

/-- The characters that are held back, so that a stop string is not streamed in part. -/
def bufferLength (stop : List Text) (includeInOutput : Bool) : ℕ :=
  if stop ≠ [] ∧ ¬includeInOutput then (stop.map List.length).foldl max 0 - 1 else 0

theorem le_foldl_max (lengths : List ℕ) (n : ℕ) :
    n ≤ lengths.foldl max n ∧ ∀ m ∈ lengths, m ≤ lengths.foldl max n := by
  induction lengths generalizing n with
  | nil => simp
  | cons first rest ih =>
    have later := ih (max n first)
    constructor
    · exact (le_max_left n first).trans later.1
    · intro m member
      rcases List.mem_cons.mp member with rfl | member
      · exact (le_max_right n m).trans later.1
      · exact later.2 m member

/-- The text is not cut off before what may have been returned when the new characters came. -/
theorem checkStopStrings_cut {text chunk stopString : Text} {stop : List Text} {includeInOutput : Bool}
    {cut : ℕ} (nonempty : [] ∉ stop)
    (matched : checkStopStrings (text ++ chunk) chunk.length stop includeInOutput =
      some (stopString, some cut)) :
    text.length - bufferLength stop includeInOutput ≤ cut := by
  unfold checkStopStrings at matched
  split at matched
  · cases matched
  · next new =>
    obtain ⟨stopStr, listed, at_stop⟩ := List.exists_of_findSome?_eq_some matched
    obtain ⟨stopIndex, found, result⟩ := Option.map_eq_some_iff.mp at_stop
    have long : 0 < stopStr.length := by
      apply List.length_pos_iff.mpr
      intro empty
      exact nonempty (empty ▸ listed)
    have start := (find_start found).1
    rw [PySlice.bound, if_pos (by omega), List.length_append] at start
    cases includeInOutput with
    | true =>
      simp only [if_true, Prod.mk.injEq] at result
      split at result
      · simp at result
      · have cutHere : stopIndex + stopStr.length = cut := by simpa using result.2
        omega
    | false =>
      have cutHere : stopIndex = cut := by simpa using (Prod.mk.inj result).2
      have longest := (le_foldl_max (stop.map List.length) 0).2 stopStr.length
        (List.mem_map_of_mem listed)
      have some_ : stop ≠ [] := List.ne_nil_of_mem listed
      rw [bufferLength, if_pos ⟨some_, by simp⟩]
      omega

/-! ### V1 -/

/-- A request whose text is returned with every output of the engine core. -/
structure Streaming where
  detokenizer : IncrementalDetokenizer
  returned : Text := []
  finished : Bool := false

namespace Streaming

/-- An output of the engine core, which may finish the request; so does a stop string. -/
def step [Tokenizer] (s : Streaming) (output : List TokenId × Bool) : Option Streaming :=
  if s.finished then none
  else
    let updated := s.detokenizer.update output.1
    let finished := output.2 || updated.1.isSome
    let next := updated.2.getNextOutputText finished true
    some { detokenizer := next.2, returned := s.returned ++ next.1, finished }

abbrev Reaches [Tokenizer] (request : EngineCoreRequest) (history : List (List TokenId × Bool))
    (s : Streaming) : Prop :=
  Run (fun s output s' => s.step output = some s')
    { detokenizer := .fromNewRequest request } history s

end Streaming

/-! ### V0 -/

/-- What `SamplingParams` says of where an output ends. -/
structure StopParams where
  minTokens : ℕ := 0
  maxTokens : Option ℕ := none
  ignoreEos : Bool := false
  stopTokenIds : List TokenId := []
  stop : List Text := []
  includeStopStrInOutput : Bool := false

def StopParams.outputTextBufferLength (params : StopParams) : ℕ :=
  bufferLength params.stop params.includeStopStrInOutput

structure SequenceOutput where
  promptLen : ℕ
  eosTokenId : Option TokenId
  outputTokenIds : List TokenId := []
  outputText : Text := []
  status : SequenceStatus := .running
  stopReason : Option StopReason := none
  lastOutputTextOffset : ℕ := 0

namespace SequenceOutput

def isFinished (seq : SequenceOutput) : Bool := seq.status.isFinished

def getOutputLen (seq : SequenceOutput) : ℕ := seq.outputTokenIds.length

def getLen (seq : SequenceOutput) : ℕ := seq.promptLen + seq.outputTokenIds.length

def getOutputTextToReturn (bufferLength : ℕ) (delta : Bool) (seq : SequenceOutput) :
    Text × SequenceOutput :=
  let truncate := bufferLength ≠ 0 ∧ ¬seq.isFinished
  let length := if truncate then seq.outputText.length - bufferLength else seq.outputText.length
  if ¬delta then (seq.outputText.take length, seq)
  else
    let read := readDelta seq.outputText seq.lastOutputTextOffset length
    (read.1, { seq with lastOutputTextOffset := read.2 })

def append (tokenId : TokenId) (newText : Text) (seq : SequenceOutput) : SequenceOutput :=
  { seq with
    outputTokenIds := seq.outputTokenIds ++ [tokenId]
    outputText := seq.outputText ++ newText }

/-- `output_text[:-new_char_count]`, unless the text is to be kept. -/
def dropText (newCharCount : ℕ) (params : StopParams) (seq : SequenceOutput) : SequenceOutput :=
  if newCharCount ≠ 0 ∧ ¬params.includeStopStrInOutput then
    { seq with outputText := seq.outputText.take (seq.outputText.length - newCharCount) }
  else seq

end SequenceOutput

def maybeStopSequence (maxModelLen : ℕ) (newCharCount : ℕ) (params : StopParams)
    (seq : SequenceOutput) : SequenceOutput :=
  let lastTokenId := seq.outputTokenIds.getLast?
  if seq.getOutputLen < params.minTokens then seq
  else if ¬params.ignoreEos ∧ lastTokenId = seq.eosTokenId then
    { seq.dropText newCharCount params with status := .finishedStopped }
  else if ∃ tokenId ∈ lastTokenId, tokenId ∈ params.stopTokenIds then
    { seq.dropText newCharCount params with
      status := .finishedStopped
      stopReason := lastTokenId.map .tokenId }
  else
    match checkStopStrings seq.outputText newCharCount params.stop params.includeStopStrInOutput with
    | some (stopStr, truncateTo) =>
      { seq with
        outputText := match truncateTo with
          | none => seq.outputText
          | some truncateTo => seq.outputText.take truncateTo
        status := .finishedStopped
        stopReason := some (.text stopStr) }
    | none =>
      if maxModelLen < seq.getLen then { seq with status := .finishedLengthCapped }
      else if params.maxTokens = some seq.getOutputLen then
        { seq with status := .finishedLengthCapped }
      else seq

inductive SequenceEvent where
  /-- A token is appended, decoded and checked. -/
  | token (tokenId : TokenId) (newText : Text) (maxModelLen : ℕ)
  | abort
  /-- The new text is returned. -/
  | read

/-- A sequence whose text is returned piece by piece. -/
structure SequenceStream where
  seq : SequenceOutput
  returned : Text := []
  /-- It has been read after it finished. -/
  complete : Bool := false

namespace SequenceStream

def step (params : StopParams) (s : SequenceStream) : SequenceEvent → Option SequenceStream
  | .token tokenId newText maxModelLen =>
    if s.seq.isFinished then none
    else some { s with
      seq := maybeStopSequence maxModelLen newText.length params (s.seq.append tokenId newText) }
  | .abort =>
    if s.seq.isFinished then none else some { s with seq := { s.seq with status := .finishedAborted } }
  | .read =>
    let read := s.seq.getOutputTextToReturn params.outputTextBufferLength true
    some { seq := read.2, returned := s.returned ++ read.1, complete := s.seq.isFinished }

abbrev Reaches (params : StopParams) (promptLen : ℕ) (eosTokenId : Option TokenId)
    (history : List SequenceEvent) (s : SequenceStream) : Prop :=
  Run (fun s event s' => s.step params event = some s') { seq := { promptLen, eosTokenId } } history s

end SequenceStream

variable {params : StopParams} {returned : Text}

theorem dropText_held {newText : Text} {tokenId : TokenId} {seq : SequenceOutput} {limit : ℕ}
    (held : Held seq.outputText returned seq.lastOutputTextOffset limit) :
    Held ((seq.append tokenId newText).dropText newText.length params).outputText returned
      ((seq.append tokenId newText).dropText newText.length params).lastOutputTextOffset 0 := by
  unfold SequenceOutput.dropText
  split
  · apply held.cut newText
    simp [SequenceOutput.append]
  · exact (held.extend newText).release

theorem maybeStopSequence_held {maxModelLen : ℕ} {tokenId : TokenId} {newText : Text}
    {seq : SequenceOutput} (nonempty : [] ∉ params.stop) (running : seq.isFinished = false)
    (held : Held seq.outputText returned seq.lastOutputTextOffset params.outputTextBufferLength) :
    let seq' := maybeStopSequence maxModelLen newText.length params (seq.append tokenId newText)
    Held seq'.outputText returned seq'.lastOutputTextOffset
      (if seq'.isFinished then 0 else params.outputTextBufferLength) := by
  have extended := held.extend newText
  have notFinished : (seq.append tokenId newText).isFinished = false := running
  unfold maybeStopSequence
  dsimp only
  split
  · rw [notFinished]
    exact extended
  split
  · exact dropText_held held
  split
  · exact dropText_held held
  split
  · next stopStr truncateTo matched =>
    cases truncateTo with
    | none => exact extended.release
    | some truncateTo => exact held.cut newText (checkStopStrings_cut nonempty matched)
  split
  · exact extended.release
  split
  · exact extended.release
  · rw [notFinished]
    exact extended

/-- What has been returned of a sequence, and what is held back until it is finished. -/
structure SequenceStream.Sound (params : StopParams) (s : SequenceStream) : Prop where
  held : Held s.seq.outputText s.returned s.seq.lastOutputTextOffset
    (if s.seq.isFinished then 0 else params.outputTextBufferLength)
  complete : s.complete → s.seq.isFinished ∧ s.returned = s.seq.outputText

namespace SequenceStream

theorem length_to_return (params : StopParams) (seq : SequenceOutput) :
    (if params.outputTextBufferLength ≠ 0 ∧ ¬seq.isFinished then
      seq.outputText.length - params.outputTextBufferLength else seq.outputText.length) =
      seq.outputText.length - if seq.isFinished then 0 else params.outputTextBufferLength := by
  cases seq.isFinished with
  | true => simp
  | false =>
    by_cases none : params.outputTextBufferLength = 0
    · simp [none]
    · simp [none]

theorem Sound.step {s s' : SequenceStream} {event : SequenceEvent} (nonempty : [] ∉ params.stop)
    (sound : Sound params s) (stepped : s.step params event = some s') : Sound params s' := by
  have held := sound.held
  cases event with
  | token tokenId newText maxModelLen =>
    simp only [SequenceStream.step] at stepped
    split at stepped
    · cases stepped
    · next running =>
      cases stepped
      rw [if_neg running] at held
      constructor
      · exact maybeStopSequence_held nonempty (by simpa using running) held
      · intro complete
        exact absurd (sound.complete complete).1 running
  | abort =>
    simp only [SequenceStream.step] at stepped
    split at stepped
    · cases stepped
    · next running =>
      cases stepped
      constructor
      · exact held.release
      · intro complete
        exact absurd (sound.complete complete).1 running
  | read =>
    cases stepped
    simp only [SequenceOutput.getOutputTextToReturn, length_to_return]
    constructor
    · exact held.read
    · intro finished
      dsimp only at finished
      simp only [finished, if_true] at held
      refine ⟨finished, ?_⟩
      simpa [finished] using held.read_all

theorem sound_of_reaches {promptLen : ℕ} {eosTokenId : Option TokenId}
    {history : List SequenceEvent} {s : SequenceStream} (nonempty : [] ∉ params.stop)
    (run : Reaches params promptLen eosTokenId history s) : Sound params s :=
  run.invariant (I := fun _ s => Sound params s) ⟨⟨rfl, Nat.zero_le _⟩, fun complete => absurd complete (by simp)⟩
    fun _ _ _ _ sound stepped => sound.step nonempty stepped

end SequenceStream

/-! ### V1, whole runs -/

/-- What has been returned of a request, and what is held back until it is finished. -/
structure Streaming.Sound (s : Streaming) : Prop where
  nonempty : [] ∉ s.detokenizer.stop
  buffer : s.detokenizer.stopBufferLength =
    bufferLength s.detokenizer.stop s.detokenizer.includeStopStrInOutput
  held : Held s.detokenizer.outputText s.returned s.detokenizer.lastOutputTextOffset
    (if s.finished then 0 else s.detokenizer.stopBufferLength)
  complete : s.finished → s.returned = s.detokenizer.outputText

namespace Streaming

theorem getNextOutputText_delta (finished : Bool) (detokenizer : IncrementalDetokenizer) :
    detokenizer.getNextOutputText finished true =
      ((readDelta detokenizer.outputText detokenizer.lastOutputTextOffset
        (detokenizer.outputText.length - if finished then 0 else detokenizer.stopBufferLength)).1,
      { detokenizer with lastOutputTextOffset :=
        (readDelta detokenizer.outputText detokenizer.lastOutputTextOffset
          (detokenizer.outputText.length - if finished then 0 else detokenizer.stopBufferLength)).2 }) := by
  unfold IncrementalDetokenizer.getNextOutputText readDelta
  dsimp only
  split_ifs <;> first | rfl | contradiction

variable [Tokenizer]

theorem update_held {detokenizer : IncrementalDetokenizer}
    (newTokenIds : List TokenId) (nonempty : [] ∉ detokenizer.stop)
    (buffer : detokenizer.stopBufferLength =
      bufferLength detokenizer.stop detokenizer.includeStopStrInOutput)
    (held : Held detokenizer.outputText returned detokenizer.lastOutputTextOffset
      detokenizer.stopBufferLength) :
    let updated := detokenizer.update newTokenIds
    Held updated.2.outputText returned updated.2.lastOutputTextOffset
      (if updated.1.isSome then 0 else updated.2.stopBufferLength) := by
  unfold IncrementalDetokenizer.update
  split
  · dsimp only
    split
    · exact held.extend _
    · exact (held.extend _).release
    · next matched =>
      apply held.cut
      rw [buffer]
      exact checkStopStrings_cut nonempty matched
  · exact held

theorem update_stop (detokenizer : IncrementalDetokenizer) (newTokenIds : List TokenId) :
    let updated := (detokenizer.update newTokenIds).2
    updated.stop = detokenizer.stop ∧
      updated.includeStopStrInOutput = detokenizer.includeStopStrInOutput ∧
      updated.stopBufferLength = detokenizer.stopBufferLength := by
  unfold IncrementalDetokenizer.update
  split
  · dsimp only
    split <;> exact ⟨rfl, rfl, rfl⟩
  · exact ⟨rfl, rfl, rfl⟩

theorem Sound.step {s s' : Streaming} {output : List TokenId × Bool} (sound : Sound s)
    (stepped : s.step output = some s') : Sound s' := by
  unfold Streaming.step at stepped
  split at stepped
  · cases stepped
  · next running =>
    have held := sound.held
    rw [if_neg running] at held
    have updated := update_held output.1 sound.nonempty sound.buffer held
    obtain ⟨stop, included, buffer⟩ := update_stop s.detokenizer output.1
    generalize s.detokenizer.update output.1 = r at stepped updated stop included buffer
    obtain ⟨stopString, detokenizer⟩ := r
    dsimp only at stepped updated stop included buffer
    rw [getNextOutputText_delta] at stepped
    cases stepped
    have now : Held detokenizer.outputText s.returned detokenizer.lastOutputTextOffset
        (if output.2 || stopString.isSome then 0 else detokenizer.stopBufferLength) := by
      cases stopString with
      | some stopString => simpa using updated
      | none =>
        cases output.2 with
        | true => exact updated.release
        | false => exact updated
    constructor
    · dsimp only
      rw [stop]
      exact sound.nonempty
    · dsimp only
      rw [buffer, stop, included]
      exact sound.buffer
    · exact now.read
    · intro finished
      dsimp only at finished ⊢
      rw [if_pos finished] at now ⊢
      exact now.read_all

theorem sound_of_reaches {request : EngineCoreRequest} {history : List (List TokenId × Bool)}
    {s : Streaming} (nonempty : [] ∉ request.samplingParams.stop)
    (run : Reaches request history s) : Sound s := by
  apply run.invariant (I := fun _ s => Sound s)
  · unfold IncrementalDetokenizer.fromNewRequest
    dsimp only
    split
    · exact ⟨nonempty, rfl, ⟨rfl, Nat.zero_le _⟩, fun finished => absurd finished (by simp)⟩
    · exact ⟨List.not_mem_nil, rfl, ⟨rfl, Nat.zero_le _⟩, fun finished => absurd finished (by simp)⟩
  · intro _ _ _ _ sound stepped
    exact sound.step stepped

end Streaming

theorem Held.isPrefix {text : Text} {offset limit : ℕ}
    (held : Held text returned offset limit) : returned <+: text := by
  rw [held.front]
  exact List.take_prefix offset text

/-- In both engines what has been returned is the front of the output text all along, and the whole of
it once the finished output has been returned. -/
theorem streamed_text [Tokenizer] (params : StopParams) (request : EngineCoreRequest)
    (nonempty₀ : [] ∉ params.stop) (nonempty₁ : [] ∉ request.samplingParams.stop) :
    (∀ promptLen eosTokenId history s,
      SequenceStream.Reaches params promptLen eosTokenId history s →
        s.returned <+: s.seq.outputText ∧ (s.complete → s.returned = s.seq.outputText)) ∧
    ∀ history s, Streaming.Reaches request history s →
      s.returned <+: s.detokenizer.outputText ∧
        (s.finished → s.returned = s.detokenizer.outputText) := by
  constructor
  · intro promptLen eosTokenId history s run
    have sound := SequenceStream.sound_of_reaches nonempty₀ run
    exact ⟨sound.held.isPrefix, fun complete => (sound.complete complete).2⟩
  · intro history s run
    have sound := Streaming.sound_of_reaches nonempty₁ run
    exact ⟨sound.held.isPrefix, sound.complete⟩

section
-- two chunks, with a stop string across them

local instance : Tokenizer where
  newText tokenIds := if tokenIds.getLast? = some 1 then "the e".toList else "nd of".toList

def stopAtEnd : EngineCoreRequest where
  requestId := "0"
  promptTokenIds := [0]
  samplingParams := { stop := ["end".toList], outputKind := .delta }

theorem streamed_text_cut : (∃ s, SequenceStream.Reaches { stop := ["end".toList] } 1 none
        [.read, .token 2 "nd of".toList 8, .read, .token 1 "the e".toList 8] s ∧
      s.complete ∧ s.seq.outputText = "the ".toList ∧ s.returned = s.seq.outputText) ∧
    ∃ s, Streaming.Reaches stopAtEnd [([2], false), ([1], false)] s ∧
      s.finished ∧ s.detokenizer.outputText = "the ".toList ∧ s.returned = s.detokenizer.outputText := by
  have texts := streamed_text { stop := ["end".toList] } stopAtEnd (by decide) (by decide)
  constructor
  · obtain ⟨s, run, complete, text⟩ : ∃ s, SequenceStream.Reaches { stop := ["end".toList] } 1 none
        [.read, .token 2 "nd of".toList 8, .read, .token 1 "the e".toList 8] s ∧
          s.complete ∧ s.seq.outputText = "the ".toList := Run.exists_of_execute (by decide +kernel)
    exact ⟨s, run, complete, text, (texts.1 _ _ _ s run).2 complete⟩
  · obtain ⟨s, run, finished, text⟩ : ∃ s, Streaming.Reaches stopAtEnd [([2], false), ([1], false)] s ∧
        s.finished ∧ s.detokenizer.outputText = "the ".toList := Run.exists_of_execute (by decide +kernel)
    exact ⟨s, run, finished, text, (texts.2 _ s run).2 finished⟩

end

end Vllm.Frontend
