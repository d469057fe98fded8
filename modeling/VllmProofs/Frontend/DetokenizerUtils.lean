import VllmProofs.Frontend.RequestState

/-!
`detokenize_incrementally`: the text of the tokens of an output, one token at a time. Two offsets mark the
window that is converted again with each token; text that ends in an unfinished character is held back.
-/

namespace Vllm.Frontend

/-- A token as the tokenizer spells it, or `None` for an id it does not know. -/
abbrev Token := Option Text

structure AnyTokenizer where
  size : ℕ
  isFast : Bool
  addedVocab : List Text
  allSpecialTokens : List Text
  convertIdsToTokens : List TokenId → Bool → List Token
  convertTokensToString : List Token → Text

def EndsUnfinished (text : Text) : Prop := text.getLast? = some '\uFFFD'

instance (text : Text) : Decidable (EndsUnfinished text) := inferInstanceAs (Decidable (_ = _))

namespace AnyTokenizer

variable (tokenizer : AnyTokenizer) (skipSpecialTokens spacesBetweenSpecialTokens : Bool)

/-- The texts in `current_sub_text`, if there are any. -/
def flush (current : List Token) : List Text :=
  if current = [] then [] else [tokenizer.convertTokensToString current]

/-- The loop of `_convert_tokens_to_string_with_added_encoders`. -/
def subTexts : List Token → List Token → List Text
  | current, [] => tokenizer.flush current
  | current, token :: rest =>
    if skipSpecialTokens ∧ token ∈ tokenizer.allSpecialTokens.map some then subTexts current rest
    else if token ∈ tokenizer.addedVocab.map some then
      tokenizer.flush current ++ token.toList ++ subTexts [] rest
    else subTexts (current ++ [token]) rest

def convertTokensToStringWithAddedEncoders (outputTokens : List Token) : Text :=
  List.intercalate (if spacesBetweenSpecialTokens then [' '] else [])
    (tokenizer.subTexts skipSpecialTokens [] outputTokens)

/-- How `detokenize_incrementally` converts tokens. -/
def toText (outputTokens : List Token) : Text :=
  if tokenizer.isFast ∨ tokenizer.addedVocab = [] then tokenizer.convertTokensToString outputTokens
  else tokenizer.convertTokensToStringWithAddedEncoders skipSpecialTokens spacesBetweenSpecialTokens outputTokens

def initialIncrementalDetokenizationOffset : ℕ := 5

def replaceNoneWithEmpty (tokens : List Token) : List Token := tokens.map fun token => some (token.getD [])

def convertPromptIdsToTokens (promptIds : List TokenId) : List Token × ℕ × ℕ :=
  let newTokens := tokenizer.convertIdsToTokens
    (PySlice.sliceFrom promptIds (-initialIncrementalDetokenizationOffset - 2)) skipSpecialTokens
  let readOffset := newTokens.length
  (replaceNoneWithEmpty newTokens, readOffset - initialIncrementalDetokenizationOffset, readOffset)

/-- The tokens of a new id, none of which is known for an id that is out of bounds. -/
def newTokens (newTokenId : TokenId) : List Token :=
  if 0 ≤ newTokenId ∧ newTokenId < tokenizer.size then tokenizer.convertIdsToTokens [newTokenId] skipSpecialTokens
  else [some []]

/-- The new tokens, the new text and the two offsets. -/
def detokenizeIncrementally (allInputIds : List TokenId) (prevTokens : Option (List Token)) (prefixOffset readOffset : ℕ) :
    Except PyError (List Token × Text × ℕ × ℕ) :=
  match allInputIds.getLast? with
  | none => throw .indexError
  | some newTokenId =>
    let isFirstIter := prevTokens.isNone
    let (prevTokens, prefixOffset, readOffset) := match prevTokens with
      | none => tokenizer.convertPromptIdsToTokens skipSpecialTokens allInputIds.dropLast
      | some prevTokens => (prevTokens, prefixOffset, readOffset)
    let newTokens := tokenizer.newTokens skipSpecialTokens newTokenId
    let outputTokens := prevTokens ++ newTokens
    let newTokens := if isFirstIter then outputTokens else newTokens
    let prefixText := tokenizer.toText skipSpecialTokens spacesBetweenSpecialTokens
      ((outputTokens.take readOffset).drop prefixOffset)
    let newText := tokenizer.toText skipSpecialTokens spacesBetweenSpecialTokens (outputTokens.drop prefixOffset)
    if newText.length ≤ prefixText.length ∨ EndsUnfinished newText then return (newTokens, [], prefixOffset, readOffset)
    else return (newTokens, newText.drop prefixText.length, readOffset, outputTokens.length)

end AnyTokenizer

/-- What a caller keeps between the calls, and all text they have returned. -/
structure Detokenization where
  allInputIds : List TokenId
  tokens : Option (List Token) := none
  prefixOffset : ℕ := 0
  readOffset : ℕ := 0
  text : Text := []

namespace Detokenization

variable (tokenizer : AnyTokenizer) (skipSpecialTokens spacesBetweenSpecialTokens : Bool)

/-- `Sequence` before its first token. -/
def ofPrompt (prompt : List TokenId) : Detokenization where
  allInputIds := prompt

def fromNewRequest (prompt : List TokenId) : Detokenization :=
  let (tokens, prefixOffset, readOffset) := tokenizer.convertPromptIdsToTokens skipSpecialTokens prompt
  { allInputIds := prompt, tokens := some tokens, prefixOffset, readOffset }

/-- One call with a new token. -/
def feed (s : Detokenization) (newTokenId : TokenId) : Except PyError Detokenization := do
  let allInputIds := s.allInputIds ++ [newTokenId]
  let (newTokens, newText, prefixOffset, readOffset) ← tokenizer.detokenizeIncrementally skipSpecialTokens
    spacesBetweenSpecialTokens allInputIds s.tokens s.prefixOffset s.readOffset
  let tokens := match s.tokens with
    | none => newTokens
    | some tokens => tokens ++ newTokens
  return { allInputIds, tokens := some tokens, prefixOffset, readOffset, text := s.text ++ newText }

end Detokenization

/-! ### What is read -/

section
variable {x y : Text}

theorem endsUnfinished_append (nonempty : y ≠ []) : EndsUnfinished (x ++ y) ↔ EndsUnfinished y := by
  unfold EndsUnfinished
  rw [List.getLast?_append_of_ne_nil _ nonempty]

theorem not_endsUnfinished_nil : ¬EndsUnfinished [] := by decide

end

/-- A conversion of tokens goes on where it can be cut: after a text that does not end unfinished. -/
def GoesOn (toText : List Token → Text) : Prop :=
  ∀ a b, ¬EndsUnfinished (toText a) → toText (a ++ b) = toText a ++ toText b

/-- It does between tokens that are `allowed`. -/
structure Continuous (allowed : Token → Prop) (toText : List Token → Text) : Prop where
  nil : toText [] = []
  append : ∀ a b, (∀ token ∈ a ++ b, allowed token) → ¬EndsUnfinished (toText a) → toText (a ++ b) = toText a ++ toText b

variable {tokenizer : AnyTokenizer} {skipSpecialTokens spacesBetweenSpecialTokens : Bool}

/-! ### The text between added tokens -/

variable {toText : List Token → Text}

theorem GoesOn.nil (goesOn : GoesOn toText) {a : List Token}
    (finished : ¬EndsUnfinished (toText a)) : toText [] = [] := by
  have same := goesOn a [] finished
  rw [List.append_nil] at same
  exact List.self_eq_append_right.mp same

namespace AnyTokenizer

/-- No spaces are put around the token. -/
def Unspaced (tokenizer : AnyTokenizer) (skipSpecialTokens spacesBetweenSpecialTokens : Bool) (token : Token) : Prop :=
  tokenizer.isFast ∨ spacesBetweenSpecialTokens = false ∨ token ∉ tokenizer.addedVocab.map some ∨
    skipSpecialTokens ∧ token ∈ tokenizer.allSpecialTokens.map some

instance : DecidablePred (tokenizer.Unspaced skipSpecialTokens spacesBetweenSpecialTokens) :=
  fun _ => inferInstanceAs (Decidable (_ ∨ _))

theorem subTexts_append (current a : List Token) : ∃ texts last, ∀ b,
    tokenizer.subTexts skipSpecialTokens current (a ++ b) = texts ++ tokenizer.subTexts skipSpecialTokens last b := by
  induction a generalizing current with
  | nil => exact ⟨[], current, fun b => rfl⟩
  | cons token rest ih =>
    simp only [List.cons_append, subTexts]
    split
    · exact ih current
    · split
      · obtain ⟨texts, last, go⟩ := ih []
        exact ⟨tokenizer.flush current ++ token.toList ++ texts, last, fun b => by rw [go]; simp only [List.append_assoc]⟩
      · exact ih (current ++ [token])

/-- Tokens that can be cut off from the front of a run are. -/
theorem flatten_subTexts (goesOn : GoesOn tokenizer.convertTokensToString) {front : List Token}
    (finished : ¬EndsUnfinished (tokenizer.convertTokensToString front)) (current b : List Token) :
    (tokenizer.subTexts skipSpecialTokens (front ++ current) b).flatten =
      tokenizer.convertTokensToString front ++ (tokenizer.subTexts skipSpecialTokens current b).flatten := by
  have flushed : ∀ run, (tokenizer.flush run).flatten = tokenizer.convertTokensToString run := by
    intro run
    unfold flush
    split
    · rename_i empty
      rw [empty, goesOn.nil finished]
      rfl
    · exact List.append_nil _
  have cut : ∀ current, (tokenizer.flush (front ++ current)).flatten =
      tokenizer.convertTokensToString front ++ (tokenizer.flush current).flatten := fun current => by
    rw [flushed, flushed, goesOn _ _ finished]
  induction b generalizing current with
  | nil => exact cut current
  | cons token rest ih =>
    simp only [subTexts]
    split
    · exact ih current
    · split
      · simp only [List.flatten_append, cut, List.append_assoc]
      · rw [List.append_assoc]
        exact ih (current ++ [token])

theorem subTexts_unspaced {b : List Token} (current : List Token)
    (unspaced : ∀ token ∈ b, token ∉ tokenizer.addedVocab.map some ∨
      skipSpecialTokens ∧ token ∈ tokenizer.allSpecialTokens.map some) :
    tokenizer.subTexts skipSpecialTokens current b = tokenizer.flush (current ++ b.filter fun token =>
      ¬(skipSpecialTokens ∧ token ∈ tokenizer.allSpecialTokens.map some)) := by
  induction b generalizing current with
  | nil => rw [List.filter_nil, List.append_nil, subTexts]
  | cons token rest ih =>
    have later := fun current => ih current fun token member => unspaced token (List.mem_cons_of_mem _ member)
    rw [subTexts, List.filter_cons]
    by_cases skipped : skipSpecialTokens ∧ token ∈ tokenizer.allSpecialTokens.map some
    · rw [if_pos skipped, if_neg (by simpa using skipped)]
      exact later current
    · have ordinary := (unspaced token List.mem_cons_self).resolve_right skipped
      rw [if_neg skipped, if_neg ordinary, if_pos (decide_eq_true skipped), later, List.append_assoc]
      rfl

theorem intercalate_empty (texts : List Text) : List.intercalate [] texts = texts.flatten := by
  induction texts with
  | nil => rfl
  | cons text rest ih =>
    cases rest with
    | nil => simp
    | cons next rest => rw [List.intercalate_cons_cons, ih, List.append_nil, List.flatten_cons (l := text)]

theorem intercalate_flush (separator : Text) (run : List Token) :
    List.intercalate separator (tokenizer.flush run) =
      if run = [] then [] else tokenizer.convertTokensToString run := by
  unfold flush
  split <;> simp

/-- With spaces put between them, the tokens still are one run. -/
theorem convert_spaced (goesOn : GoesOn tokenizer.convertTokensToString) {a b : List Token}
    (apart : ∀ token ∈ a ++ b, token ∉ tokenizer.addedVocab.map some ∨
      skipSpecialTokens ∧ token ∈ tokenizer.allSpecialTokens.map some)
    (finished : ¬EndsUnfinished
      (tokenizer.convertTokensToStringWithAddedEncoders skipSpecialTokens true a)) :
    tokenizer.convertTokensToStringWithAddedEncoders skipSpecialTokens true (a ++ b) =
      tokenizer.convertTokensToStringWithAddedEncoders skipSpecialTokens true a ++
        tokenizer.convertTokensToStringWithAddedEncoders skipSpecialTokens true b := by
  unfold convertTokensToStringWithAddedEncoders at finished ⊢
  have left := fun token member => apart token (List.mem_append_left b member)
  have right := fun token member => apart token (List.mem_append_right a member)
  rw [if_pos rfl, subTexts_unspaced [] left, intercalate_flush] at finished
  rw [if_pos rfl, subTexts_unspaced [] left, subTexts_unspaced [] right, subTexts_unspaced [] apart,
    intercalate_flush, intercalate_flush, intercalate_flush, List.filter_append]
  simp only [List.nil_append] at finished ⊢
  generalize a.filter _ = left at finished ⊢
  generalize b.filter _ = right
  by_cases none : left = []
  · rw [none, List.nil_append, if_pos rfl, List.nil_append]
  · rw [if_neg none] at finished ⊢
    rw [if_neg (List.append_ne_nil_of_left_ne_nil none right), goesOn _ _ finished]
    by_cases empty : right = []
    · rw [empty, if_pos rfl, goesOn.nil finished]
    · rw [if_neg empty]

theorem convert_joined (goesOn : GoesOn tokenizer.convertTokensToString) {a : List Token} (b : List Token)
    (finished : ¬EndsUnfinished
      (tokenizer.convertTokensToStringWithAddedEncoders skipSpecialTokens false a)) :
    tokenizer.convertTokensToStringWithAddedEncoders skipSpecialTokens false (a ++ b) =
      tokenizer.convertTokensToStringWithAddedEncoders skipSpecialTokens false a ++
        tokenizer.convertTokensToStringWithAddedEncoders skipSpecialTokens false b := by
  unfold convertTokensToStringWithAddedEncoders at finished ⊢
  rw [if_neg Bool.false_ne_true] at finished ⊢
  obtain ⟨texts, last, goes⟩ := @subTexts_append tokenizer skipSpecialTokens [] a
  have front : tokenizer.subTexts skipSpecialTokens [] a = texts ++ tokenizer.flush last := by
    simpa only [List.append_nil, subTexts] using goes []
  rw [front, intercalate_empty, List.flatten_append] at finished
  rw [goes, front, intercalate_empty, intercalate_empty, intercalate_empty, List.flatten_append, List.flatten_append]
  by_cases empty : last = []
  · subst empty
    simp [flush]
  · have run : (tokenizer.flush last).flatten = tokenizer.convertTokensToString last := by simp [flush, empty]
    have cut : ¬EndsUnfinished (tokenizer.convertTokensToString last) := by
      intro unfinished
      have some : tokenizer.convertTokensToString last ≠ [] := by
        rintro none
        rw [none] at unfinished
        exact not_endsUnfinished_nil unfinished
      rw [run, endsUnfinished_append some] at finished
      exact finished unfinished
    have split := @flatten_subTexts tokenizer skipSpecialTokens goesOn _ cut [] b
    rw [List.append_nil] at split
    rw [split, run, List.append_assoc]

theorem toText_continuous (goesOn : GoesOn tokenizer.convertTokensToString) {tail : List Token}
    (finished : ¬EndsUnfinished (tokenizer.toText skipSpecialTokens spacesBetweenSpecialTokens tail)) :
    Continuous (tokenizer.Unspaced skipSpecialTokens spacesBetweenSpecialTokens)
      (tokenizer.toText skipSpecialTokens spacesBetweenSpecialTokens) := by
  by_cases plain : tokenizer.isFast ∨ tokenizer.addedVocab = []
  · have same : tokenizer.toText skipSpecialTokens spacesBetweenSpecialTokens = tokenizer.convertTokensToString :=
      funext fun tokens => if_pos plain
    rw [same] at finished ⊢
    exact ⟨goesOn.nil finished, fun a b _ => goesOn a b⟩
  have same : tokenizer.toText skipSpecialTokens spacesBetweenSpecialTokens =
      tokenizer.convertTokensToStringWithAddedEncoders skipSpecialTokens spacesBetweenSpecialTokens :=
    funext fun tokens => if_neg plain
  rw [same]
  refine ⟨by unfold convertTokensToStringWithAddedEncoders; simp [subTexts, flush], fun a b unspaced finished => ?_⟩
  cases spaces : spacesBetweenSpecialTokens with
  | true =>
    rw [spaces] at unspaced finished
    refine convert_spaced goesOn (fun token member => ?_) finished
    exact ((unspaced token member).resolve_left fun fast => plain (Or.inl fast)).resolve_left (by simp)
  | false =>
    rw [spaces] at finished
    exact convert_joined goesOn b finished

end AnyTokenizer

namespace Detokenization

/-- Of the tokens, the first `n` are the prompt's, and those from `m` on are converted. What has been returned is the
text up to the read offset; the window and the text end where they can be cut, and what is after them is held back. -/
structure Reads (toText : List Token → Text) (m n : ℕ) (s : Detokenization) (tokens : List Token) : Prop where
  known : s.tokens = some tokens
  tail : m ≤ n ∧ m ≤ s.prefixOffset
  ordered : s.prefixOffset ≤ s.readOffset ∧ n ≤ s.readOffset ∧ s.readOffset ≤ tokens.length
  window : ¬EndsUnfinished (toText ((tokens.take s.readOffset).drop s.prefixOffset))
  output : ¬EndsUnfinished (toText ((tokens.take s.readOffset).drop n))
  text : s.text = toText ((tokens.take s.readOffset).drop n)
  heldBack : toText (tokens.drop s.readOffset) = [] ∨ EndsUnfinished (toText (tokens.drop s.readOffset))

variable {tokens : List Token} {n : ℕ}

theorem drop_split {r : ℕ} (before : n ≤ r) :
    tokens.drop n = (tokens.take r).drop n ++ tokens.drop r := by
  conv_lhs => rw [← List.take_append_drop r tokens]
  rcases Nat.le_total r tokens.length with inside | outside
  · rw [List.drop_append_of_le_length (by rw [List.length_take]; omega)]
  · rw [List.drop_of_length_le outside, List.append_nil, List.append_nil]

variable {m : ℕ}

theorem allowed_drop {allowed : Token → Prop} {k r : ℕ}
    (each : ∀ token ∈ tokens.drop m, allowed token) (inside : m ≤ k) (before : k ≤ r) :
    ∀ token ∈ (tokens.take r).drop k ++ tokens.drop r, allowed token := by
  rw [← drop_split before]
  exact fun token member => each token ((List.drop_sublist_drop_left tokens inside).subset member)

variable {s : Detokenization}

theorem Reads.agrees {allowed : Token → Prop} (continuous : Continuous allowed toText) (reads : Reads toText m n s tokens)
    (each : ∀ token ∈ tokens.drop m, allowed token) :
    s.text <+: toText (tokens.drop n) ∧ (¬EndsUnfinished (toText (tokens.drop n)) → s.text = toText (tokens.drop n)) := by
  have all : toText (tokens.drop n) = s.text ++ toText (tokens.drop s.readOffset) := by
    rw [drop_split reads.ordered.2.1, continuous.append _ _ (allowed_drop each reads.tail.1 reads.ordered.2.1) reads.output,
      reads.text]
  rw [all]
  refine ⟨List.prefix_append _ _, fun finished => ?_⟩
  rcases reads.heldBack with none | unfinished
  · rw [none, List.append_nil]
  · by_cases none : toText (tokens.drop s.readOffset) = []
    · rw [none, List.append_nil]
    · exact absurd ((endsUnfinished_append none).mpr unfinished) finished

theorem feed_ofPrompt (prompt : List TokenId) (newTokenId : TokenId) :
    (ofPrompt prompt).feed tokenizer skipSpecialTokens spacesBetweenSpecialTokens newTokenId =
      (fromNewRequest tokenizer skipSpecialTokens prompt).feed tokenizer skipSpecialTokens spacesBetweenSpecialTokens
        newTokenId := by
  unfold feed AnyTokenizer.detokenizeIncrementally ofPrompt fromNewRequest
  simp only [List.getLast?_concat, List.dropLast_concat, Option.isNone_none, Option.isNone_some, if_true]
  split
  · rfl
  · rfl

variable {allowed : Token → Prop}

theorem Reads.fed
    (continuous : Continuous allowed (tokenizer.toText skipSpecialTokens spacesBetweenSpecialTokens))
    (reads : Reads (tokenizer.toText skipSpecialTokens spacesBetweenSpecialTokens) m n s tokens) (newTokenId : TokenId)
    (each : ∀ token ∈ (tokens ++ tokenizer.newTokens skipSpecialTokens newTokenId).drop m, allowed token) :
    ∃ t, s.feed tokenizer skipSpecialTokens spacesBetweenSpecialTokens newTokenId = .ok t ∧
      Reads (tokenizer.toText skipSpecialTokens spacesBetweenSpecialTokens) m n t
        (tokens ++ tokenizer.newTokens skipSpecialTokens newTokenId) := by
  obtain ⟨before, after, inside⟩ := reads.ordered
  set toText := tokenizer.toText skipSpecialTokens spacesBetweenSpecialTokens with conversion
  set all := tokens ++ tokenizer.newTokens skipSpecialTokens newTokenId with outputTokens
  have front : all.take s.readOffset = tokens.take s.readOffset := List.take_append_of_le_length inside
  -- the new text is that of the window, and then that of the tokens after it
  have newText : toText (all.drop s.prefixOffset) =
      toText ((tokens.take s.readOffset).drop s.prefixOffset) ++ toText (all.drop s.readOffset) := by
    have between := allowed_drop each reads.tail.2 before
    rw [front] at between
    rw [drop_split before, front, continuous.append _ _ between reads.window]
  unfold Detokenization.feed AnyTokenizer.detokenizeIncrementally
  simp only [List.getLast?_concat, reads.known, Option.isNone_some, Bool.false_eq_true, if_false, ← conversion,
    ← outputTokens, front]
  rw [newText]
  by_cases held : (toText ((tokens.take s.readOffset).drop s.prefixOffset) ++ toText (all.drop s.readOffset)).length ≤
      (toText ((tokens.take s.readOffset).drop s.prefixOffset)).length ∨
      EndsUnfinished (toText ((tokens.take s.readOffset).drop s.prefixOffset) ++ toText (all.drop s.readOffset))
  · rw [if_pos held]
    refine ⟨_, rfl, rfl, reads.tail, ⟨before, after, ?_⟩, ?_, ?_, ?_, ?_⟩
    · rw [outputTokens, List.length_append]
      exact le_trans inside (Nat.le_add_right _ _)
    · rw [front]
      exact reads.window
    · rw [front]
      exact reads.output
    · rw [front, ← reads.text]
      exact List.append_nil _
    · by_cases none : toText (all.drop s.readOffset) = []
      · exact Or.inl none
      · refine Or.inr ?_
        rcases held with short | unfinished
        · rw [List.length_append] at short
          exact absurd (List.eq_nil_of_length_eq_zero (by omega)) none
        · exact (endsUnfinished_append none).mp unfinished
  · rw [if_neg held]
    rw [not_or, List.length_append] at held
    have some_ : toText (all.drop s.readOffset) ≠ [] := by
      intro none
      rw [none] at held
      exact held.1 (by simp)
    have finished : ¬EndsUnfinished (toText (all.drop s.readOffset)) := fun unfinished =>
      held.2 ((endsUnfinished_append some_).mpr unfinished)
    have output : toText (all.drop n) = s.text ++ toText (all.drop s.readOffset) := by
      have between := allowed_drop each reads.tail.1 after
      rw [front] at between
      rw [drop_split after, front, continuous.append _ _ between reads.output, reads.text]
    refine ⟨_, rfl, rfl, ⟨reads.tail.1, reads.tail.1.trans after⟩, ⟨?_, ?_, le_rfl⟩, ?_, ?_, ?_, ?_⟩
    · rw [outputTokens, List.length_append]
      exact le_trans inside (Nat.le_add_right _ _)
    · rw [outputTokens, List.length_append]
      exact le_trans after (le_trans inside (Nat.le_add_right _ _))
    · rw [List.take_length]
      exact finished
    · rw [List.take_length, output, endsUnfinished_append some_]
      exact finished
    · rw [List.take_length, output, List.drop_left]
    · left
      rw [List.drop_length, continuous.nil]

theorem Reads.fedAll
    (continuous : Continuous allowed (tokenizer.toText skipSpecialTokens spacesBetweenSpecialTokens))
    (reads : Reads (tokenizer.toText skipSpecialTokens spacesBetweenSpecialTokens) m n s tokens) (ids : List TokenId)
    (each : ∀ token ∈ (tokens ++ ids.flatMap (tokenizer.newTokens skipSpecialTokens)).drop m, allowed token) :
    ∃ t, ids.foldlM (feed tokenizer skipSpecialTokens spacesBetweenSpecialTokens) s = .ok t ∧
      Reads (tokenizer.toText skipSpecialTokens spacesBetweenSpecialTokens) m n t
        (tokens ++ ids.flatMap (tokenizer.newTokens skipSpecialTokens)) := by
  induction ids generalizing s tokens with
  | nil => exact ⟨s, rfl, by simpa using reads⟩
  | cons newTokenId rest ih =>
    rw [List.flatMap_cons, ← List.append_assoc] at each
    obtain ⟨t, fed, reads⟩ := reads.fed continuous newTokenId fun token member => each token (by
      rw [List.drop_append]
      exact List.mem_append_left _ member)
    obtain ⟨u, result, reads⟩ := ih reads each
    refine ⟨u, ?_, ?_⟩
    · rw [List.foldlM_cons, fed]
      exact result
    · rw [List.flatMap_cons, ← List.append_assoc]
      exact reads

/-- A prompt whose last tokens, from the prefix offset on, do not end unfinished. -/
def Finished (tokenizer : AnyTokenizer) (skipSpecialTokens spacesBetweenSpecialTokens : Bool) (prompt : List TokenId) : Prop :=
  ¬EndsUnfinished (tokenizer.toText skipSpecialTokens spacesBetweenSpecialTokens
    ((tokenizer.convertPromptIdsToTokens skipSpecialTokens prompt).1.drop
      (tokenizer.convertPromptIdsToTokens skipSpecialTokens prompt).2.1))

instance (prompt : List TokenId) :
    Decidable (Finished tokenizer skipSpecialTokens spacesBetweenSpecialTokens prompt) :=
  inferInstanceAs (Decidable ¬_)

theorem fromNewRequest_reads
    (continuous : Continuous allowed (tokenizer.toText skipSpecialTokens spacesBetweenSpecialTokens))
    {prompt : List TokenId} (finished : Finished tokenizer skipSpecialTokens spacesBetweenSpecialTokens prompt) :
    Reads (tokenizer.toText skipSpecialTokens spacesBetweenSpecialTokens)
      (tokenizer.convertPromptIdsToTokens skipSpecialTokens prompt).2.1
      (tokenizer.convertPromptIdsToTokens skipSpecialTokens prompt).1.length
      (fromNewRequest tokenizer skipSpecialTokens prompt) (tokenizer.convertPromptIdsToTokens skipSpecialTokens prompt).1 := by
  have read : (fromNewRequest tokenizer skipSpecialTokens prompt).readOffset =
      (tokenizer.convertPromptIdsToTokens skipSpecialTokens prompt).1.length := (List.length_map _).symm
  refine ⟨rfl, ⟨(Nat.sub_le _ _).trans read.le, le_rfl⟩, ⟨Nat.sub_le _ _, read.ge, read.le⟩, ?_, ?_, ?_, ?_⟩
  · rw [read, List.take_length]
    exact finished
  · rw [read, List.take_length, List.drop_length, continuous.nil]
    exact not_endsUnfinished_nil
  · rw [read, List.take_length, List.drop_length, continuous.nil]
    rfl
  · rw [read, List.drop_length, continuous.nil]
    exact Or.inl rfl

variable (tokenizer skipSpecialTokens spacesBetweenSpecialTokens) in
/-- The tokens that are converted: the prompt's last ones, and those of the output. -/
def converted (prompt ids : List TokenId) : List Token :=
  (tokenizer.convertPromptIdsToTokens skipSpecialTokens prompt).1.drop
    (tokenizer.convertPromptIdsToTokens skipSpecialTokens prompt).2.1 ++ ids.flatMap (tokenizer.newTokens skipSpecialTokens)

/-- Whether the prompt is converted by the first call or before it, after each call all returned text is that of the
output tokens up to the read offset, the text of all output tokens begins with it, and it is all of it unless it
ends unfinished. -/
theorem detokenizes (goesOn : GoesOn tokenizer.convertTokensToString) {prompt : List TokenId}
    (finished : Finished tokenizer skipSpecialTokens spacesBetweenSpecialTokens prompt) {start : Detokenization}
    (begins : start = ofPrompt prompt ∨ start = fromNewRequest tokenizer skipSpecialTokens prompt) {ids : List TokenId}
    (called : ids ≠ [])
    (unspaced : ∀ token ∈ converted tokenizer skipSpecialTokens prompt ids,
      tokenizer.Unspaced skipSpecialTokens spacesBetweenSpecialTokens token) :
    ∃ s promptTokens, ids.foldlM (feed tokenizer skipSpecialTokens spacesBetweenSpecialTokens) start = .ok s ∧
      let outputTokens := ids.flatMap (tokenizer.newTokens skipSpecialTokens)
      let outputText := tokenizer.toText skipSpecialTokens spacesBetweenSpecialTokens outputTokens
      s.tokens = some (promptTokens ++ outputTokens) ∧ promptTokens.length ≤ s.readOffset ∧
      s.text = tokenizer.toText skipSpecialTokens spacesBetweenSpecialTokens
        (outputTokens.take (s.readOffset - promptTokens.length)) ∧
      s.text <+: outputText ∧ (¬EndsUnfinished outputText → s.text = outputText) := by
  have same : ids.foldlM (feed tokenizer skipSpecialTokens spacesBetweenSpecialTokens) start =
      ids.foldlM (feed tokenizer skipSpecialTokens spacesBetweenSpecialTokens)
        (fromNewRequest tokenizer skipSpecialTokens prompt) := by
    obtain ⟨id, rest, rfl⟩ := List.exists_cons_of_ne_nil called
    rcases begins with rfl | rfl
    · rw [List.foldlM_cons, List.foldlM_cons, feed_ofPrompt]
    · rfl
  have continuous := AnyTokenizer.toText_continuous goesOn finished
  have first := fromNewRequest_reads continuous finished
  rw [converted, ← List.drop_append_of_le_length first.tail.1] at unspaced
  obtain ⟨s, result, reads⟩ := first.fedAll continuous ids unspaced
  have agrees := reads.agrees continuous unspaced
  rw [List.drop_left] at agrees
  refine ⟨s, _, same.trans result, reads.known, reads.ordered.2.1, ?_, agrees⟩
  rw [reads.text, List.take_append, List.take_of_length_le reads.ordered.2.1, List.drop_left]

def exampleTokenizer : AnyTokenizer where
  size := 3
  isFast := true
  addedVocab := []
  allSpecialTokens := []
  convertIdsToTokens ids _ := ids.map fun id => some (if id = 0 then ['a'] else if id = 1 then ['b'] else ['c'])
  convertTokensToString tokens := tokens.flatMap (Option.getD · [])

theorem exampleTokenizer_goesOn : GoesOn exampleTokenizer.convertTokensToString := fun _ _ _ => List.flatMap_append

/-- `c` is added to its vocabulary. -/
def slowTokenizer : AnyTokenizer := { exampleTokenizer with isFast := false, addedVocab := [['c']] }

theorem detokenizes_example : Finished slowTokenizer true false [0, 1] ∧
    ∃ s promptTokens, [1, 2, 0].foldlM (feed slowTokenizer true false) (ofPrompt [0, 1]) = .ok s ∧
      s.tokens = some (promptTokens ++ [some ['b'], some ['c'], some ['a']]) ∧ promptTokens.length ≤ s.readOffset ∧
      s.text = slowTokenizer.toText true false
        ([some ['b'], some ['c'], some ['a']].take (s.readOffset - promptTokens.length)) ∧
      s.text <+: ['b', 'c', 'a'] ∧ (¬EndsUnfinished ['b', 'c', 'a'] → s.text = ['b', 'c', 'a']) :=
  ⟨by decide, @detokenizes slowTokenizer true false exampleTokenizer_goesOn [0, 1] (by decide) _ (Or.inl rfl) [1, 2, 0] (by decide)
    (by decide)⟩

/-- An added token is set apart from the text before it. -/
theorem spaced_token : GoesOn slowTokenizer.convertTokensToString ∧ Finished slowTokenizer true true [0] ∧
    ((feed slowTokenizer true true (ofPrompt [0]) 2).toOption.map (·.text) = some [' ', 'c']) ∧
    slowTokenizer.convertTokensToString (slowTokenizer.newTokens true 2) = ['c'] :=
  ⟨exampleTokenizer_goesOn, by decide, by decide, by decide⟩

end Detokenization
end Vllm.Frontend
