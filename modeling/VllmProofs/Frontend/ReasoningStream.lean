import VllmProofs.Frontend.RequestState

/-!
`DeepSeekR1ReasoningParser`: the reasoning in the output of a model, found in the whole text by a regular
expression, and in the deltas of a stream by the ids of the tokens around it. The two agree unless the start
token shares a delta with tokens, but not with the end token.
-/

namespace Vllm.Frontend

structure DeltaMessage where
  reasoningContent : Option Text := none
  content : Option Text := none
  deriving DecidableEq, Repr

structure DeepSeekR1ReasoningParser where
  thinkStartTokenId : TokenId
  thinkEndTokenId : TokenId

namespace DeepSeekR1ReasoningParser

def thinkStartToken : Text := "<think>".toList

def thinkEndToken : Text := "</think>".toList

/-- `text.find(sub)` -/
def index (text sub : Text) : ℤ := (find text sub 0).elim (-1) fun i => i

def orNone (content : Text) : Option Text := if content = [] then none else some content

/-- The message for a delta with the end token: the text up to it, from `start` on, is reasoning. -/
def splitAtEnd (deltaText : Text) (start : ℤ) : DeltaMessage :=
  let endIndex := index deltaText thinkEndToken
  { reasoningContent := some (PySlice.slice deltaText start endIndex)
    content := orNone (PySlice.sliceFrom deltaText (endIndex + thinkEndToken.length)) }

variable (s : DeepSeekR1ReasoningParser)

def extractReasoningContentStreaming (deltaText : Text) (previousTokenIds deltaTokenIds : List TokenId) :
    Option DeltaMessage :=
  if deltaTokenIds = [s.thinkStartTokenId] ∨ deltaTokenIds = [s.thinkEndTokenId] then none
  else if s.thinkStartTokenId ∈ previousTokenIds then
    if s.thinkEndTokenId ∈ deltaTokenIds then some (splitAtEnd deltaText 0)
    else if s.thinkEndTokenId ∈ previousTokenIds then some { content := some deltaText }
    else some { reasoningContent := some deltaText }
  else if s.thinkStartTokenId ∈ deltaTokenIds then
    if s.thinkEndTokenId ∈ deltaTokenIds then
      some (splitAtEnd deltaText (index deltaText thinkStartToken + thinkStartToken.length))
    else some { reasoningContent := some deltaText }
  -- the model may have generated the end token without the start token
  else if s.thinkEndTokenId ∈ deltaTokenIds then some (splitAtEnd deltaText 0)
  else if s.thinkEndTokenId ∈ previousTokenIds then some { content := some deltaText }
  else some { reasoningContent := some deltaText }

def firstReasoning? (text : Text) : Option Text :=
  (List.range (text.length + 1)).findSome? fun i =>
    if thinkStartToken <+: text.drop i then
      (find text thinkEndToken (i + thinkStartToken.length : ℕ)).map fun j =>
        (text.take j).drop (i + thinkStartToken.length)
    else none

def extractReasoningContent (modelOutput : Text) : Except PyError (Text × Option Text) :=
  if find modelOutput thinkEndToken 0 = none then return (modelOutput, none)
  else
    let modelOutput :=
      if find modelOutput thinkStartToken 0 = none then thinkStartToken ++ modelOutput else modelOutput
    match firstReasoning? modelOutput with
    | none => throw .indexError
    | some reasoningContent =>
      let finalOutput := modelOutput.drop (thinkStartToken ++ reasoningContent ++ thinkEndToken).length
      return (reasoningContent, orNone finalOutput)

/-! ### A stream -/

structure OutputToken where
  id : TokenId
  text : Text
  deriving DecidableEq, Repr

def textOf (tokens : List OutputToken) : Text := tokens.flatMap OutputToken.text

def idsOf (tokens : List OutputToken) : List TokenId := tokens.map OutputToken.id

/-- All reasoning and all content of the messages for the deltas. -/
def streamed : List OutputToken → List (List OutputToken) → Text × Text
  | _, [] => ([], [])
  | previous, delta :: rest =>
    let message := s.extractReasoningContentStreaming (textOf delta) (idsOf previous) (idsOf delta)
    let (reasoningContent, content) := streamed (previous ++ delta) rest
    ((message.bind DeltaMessage.reasoningContent).getD [] ++ reasoningContent,
      (message.bind DeltaMessage.content).getD [] ++ content)

end DeepSeekR1ReasoningParser
end Vllm.Frontend

namespace Vllm.Frontend

/-! ### Markers in a text -/

/-- The marker does not begin elsewhere in the text. -/
def OnlyAt (marker text : Text) (p : ℕ) : Prop := ∀ i, marker <+: text.drop i → i = p

section
variable {marker text front back : Text} {p k : ℕ}

theorem OnlyAt.prefix (only : OnlyAt marker (front ++ back) p) : OnlyAt marker front p := by
  intro i here
  apply only i
  rw [List.drop_append]
  exact here.trans (List.prefix_append _ _)

theorem OnlyAt.suffix (only : OnlyAt marker (front ++ back) (front.length + p)) : OnlyAt marker back p := by
  intro i here
  have shifted := only (front.length + i) (by rwa [List.drop_append, List.drop_of_length_le (Nat.le_add_right _ _),
    Nat.add_sub_cancel_left, List.nil_append])
  omega

theorem find_first (nonempty : marker ≠ []) (here : marker <+: text.drop p) (after : k ≤ p)
    (first : ∀ i, k ≤ i → marker <+: text.drop i → p ≤ i) : find text marker k = some p := by
  have inside : p < text.length := by
    by_contra outside
    rw [List.drop_eq_nil_of_le (Nat.le_of_not_lt outside), List.prefix_nil] at here
    exact nonempty here
  have bound : PySlice.bound text.length k = k := by
    rw [PySlice.bound, if_neg (by omega), Int.toNat_natCast, Nat.min_eq_left (by omega)]
  unfold find
  rw [List.find?_range_eq_some]
  refine ⟨?_, ?_, fun j before => ?_⟩
  · rw [bound]
    exact decide_eq_true ⟨after, here⟩
  · exact List.mem_range.mpr (by omega)
  · rw [bound, Bool.not_eq_true', decide_eq_false_iff_not]
    rintro ⟨late, begins⟩
    have := first j late begins
    omega

theorem find_none (absent : ∀ i, k ≤ i → ¬marker <+: text.drop i) (inside : k ≤ text.length) :
    find text marker k = none := by
  have bound : PySlice.bound text.length k = k := by
    rw [PySlice.bound, if_neg (by omega), Int.toNat_natCast, Nat.min_eq_left inside]
  unfold find
  rw [List.find?_range_eq_none]
  intro i _
  rw [bound, Bool.not_eq_true', decide_eq_false_iff_not]
  exact fun both => absent i both.1 both.2

theorem find_marker (nonempty : marker ≠ []) (only : OnlyAt marker (front ++ marker ++ back) front.length)
    (after : k ≤ front.length) : find (front ++ marker ++ back) marker k = some front.length := by
  refine find_first nonempty ?_ after fun i _ here => (only i here).ge
  rw [List.append_assoc, List.drop_left]
  exact List.prefix_append _ _

end

namespace DeepSeekR1ReasoningParser

variable {s : DeepSeekR1ReasoningParser} {previous tokens before after : List OutputToken} {deltas : List (List OutputToken)}
  {t : OutputToken}

@[simp] theorem textOf_append (xs ys : List OutputToken) : textOf (xs ++ ys) = textOf xs ++ textOf ys := by
  simp [textOf]

@[simp] theorem textOf_cons (t : OutputToken) (xs : List OutputToken) : textOf (t :: xs) = t.text ++ textOf xs := rfl

@[simp] theorem textOf_nil : textOf [] = [] := rfl

@[simp] theorem idsOf_append (xs ys : List OutputToken) : idsOf (xs ++ ys) = idsOf xs ++ idsOf ys := by
  simp [idsOf]

@[simp] theorem idsOf_cons (t : OutputToken) (xs : List OutputToken) : idsOf (t :: xs) = t.id :: idsOf xs := rfl

theorem streamed_append (deltas deltas' : List (List OutputToken)) : s.streamed previous (deltas ++ deltas') =
    ((s.streamed previous deltas).1 ++ (s.streamed (previous ++ deltas.flatten) deltas').1,
      (s.streamed previous deltas).2 ++ (s.streamed (previous ++ deltas.flatten) deltas').2) := by
  induction deltas generalizing previous with
  | nil => simp [streamed]
  | cons delta rest ih => simp [streamed, ih]

theorem streamed_content (there : s.thinkEndTokenId ∈ idsOf previous) (noStart : s.thinkStartTokenId ∉ idsOf deltas.flatten)
    (noEnd : s.thinkEndTokenId ∉ idsOf deltas.flatten) : s.streamed previous deltas = ([], textOf deltas.flatten) := by
  induction deltas generalizing previous with
  | nil => rfl
  | cons delta rest ih =>
    rw [List.flatten_cons, idsOf_append, List.mem_append, not_or] at noStart noEnd
    have later := @ih (previous ++ delta) (by rw [idsOf_append]; exact List.mem_append_left _ there)
      noStart.2 noEnd.2
    have message : s.extractReasoningContentStreaming (textOf delta) (idsOf previous) (idsOf delta) =
        some { content := some (textOf delta) } := by
      have alone : ¬(idsOf delta = [s.thinkStartTokenId] ∨ idsOf delta = [s.thinkEndTokenId]) := by
        rintro (same | same)
        · exact noStart.1 (same ▸ List.mem_singleton_self _)
        · exact noEnd.1 (same ▸ List.mem_singleton_self _)
      unfold extractReasoningContentStreaming
      simp only [alone, there, noStart.1, noEnd.1, if_true, if_false, ite_self]
    rw [streamed, message, later]
    simp

theorem streamed_reasoning (noEnd : s.thinkEndTokenId ∉ idsOf (previous ++ deltas.flatten))
    (noStart : s.thinkStartTokenId ∉ idsOf deltas.flatten) : s.streamed previous deltas = (textOf deltas.flatten, []) := by
  induction deltas generalizing previous with
  | nil => rfl
  | cons delta rest ih =>
    rw [List.flatten_cons, ← List.append_assoc] at noEnd
    rw [List.flatten_cons, idsOf_append, List.mem_append, not_or] at noStart
    have later := @ih (previous ++ delta) noEnd noStart.2
    rw [idsOf_append, idsOf_append, List.mem_append, List.mem_append, not_or, not_or] at noEnd
    have message : s.extractReasoningContentStreaming (textOf delta) (idsOf previous) (idsOf delta) =
        some { reasoningContent := some (textOf delta) } := by
      have alone : ¬(idsOf delta = [s.thinkStartTokenId] ∨ idsOf delta = [s.thinkEndTokenId]) := by
        rintro (same | same)
        · exact noStart.1 (same ▸ List.mem_singleton_self _)
        · exact noEnd.1.2 (same ▸ List.mem_singleton_self _)
      unfold extractReasoningContentStreaming
      simp only [alone, noStart.1, noEnd.1.1, noEnd.1.2, if_false, ite_self]
    rw [streamed, message, later]
    simp

theorem thinkEndToken_ne : thinkEndToken ≠ [] := by decide

theorem thinkStartToken_ne : thinkStartToken ≠ [] := by decide

@[simp] theorem orNone_getD (content : Text) : (orNone content).getD [] = content := by
  unfold orNone
  split
  · rename_i empty
    exact empty.symm
  · rfl

variable {front back : Text}

theorem splitAtEnd_eq {start : ℕ}
    (only : OnlyAt thinkEndToken (front ++ thinkEndToken ++ back) front.length) :
    splitAtEnd (front ++ thinkEndToken ++ back) start = { reasoningContent := some (front.drop start), content := orNone back } := by
  have found := find_marker thinkEndToken_ne only (Nat.zero_le _)
  rw [Nat.cast_zero] at found
  unfold splitAtEnd index
  simp only [found, Option.elim_some]
  congr 2
  · rw [PySlice.slice_nat, List.append_assoc, List.take_left]
  · rw [← Nat.cast_add, PySlice.sliceFrom_nat, ← List.length_append, List.drop_left]

variable {e : OutputToken}

/-- The reasoning before the end token and the content after it. -/
theorem streamed_end (tokens : deltas.flatten = before ++ e :: after) (id : e.id = s.thinkEndTokenId)
    (text : e.text = thinkEndToken) (noStart : s.thinkStartTokenId ∉ idsOf deltas.flatten)
    (noEnd : s.thinkEndTokenId ∉ idsOf (previous ++ before ++ after))
    (only : OnlyAt thinkEndToken (textOf deltas.flatten) (textOf before).length) :
    s.streamed previous deltas = (textOf before, textOf after) := by
  induction deltas generalizing previous before with
  | nil => simp at tokens
  | cons delta rest ih =>
    rw [List.flatten_cons, idsOf_append, List.mem_append, not_or] at noStart
    rw [List.flatten_cons] at tokens only
    simp only [idsOf_append, List.mem_append, not_or] at noEnd
    rcases List.append_eq_append_iff.mp tokens with ⟨more, rfl, split⟩ | ⟨more, rfl, split⟩
    · -- the end token comes in a later delta
      simp only [idsOf_append, List.mem_append, not_or] at noEnd
      have here := @streamed_reasoning s previous [delta] (by
        simp only [List.flatten_cons, List.flatten_nil, List.append_nil, idsOf_append, List.mem_append, not_or]
        exact ⟨noEnd.1.1, noEnd.1.2.1⟩) (by simpa using noStart.1)
      have later := @ih (previous ++ delta) _ split noStart.2 (by
        simp only [idsOf_append, List.mem_append, not_or]
        exact ⟨⟨⟨noEnd.1.1, noEnd.1.2.1⟩, noEnd.1.2.2⟩, noEnd.2⟩) (by
        rw [textOf_append, textOf_append, List.length_append] at only
        exact only.suffix)
      have both := @streamed_append s previous [delta] rest
      rw [List.singleton_append, here] at both
      simp only [List.flatten_cons, List.flatten_nil, List.append_nil] at both
      rw [both, later]
      simp
    · cases more with
      | nil =>
        -- the end token comes first in the next delta
        rw [List.append_nil] at noStart ⊢
        rw [List.append_nil] at tokens
        rw [List.nil_append] at split
        have here := @streamed_reasoning s previous [before] (by
          simp only [List.flatten_cons, List.flatten_nil, List.append_nil, idsOf_append, List.mem_append, not_or]
          exact noEnd.1) (by simpa using noStart.1)
        have later := @ih (previous ++ before) [] split.symm noStart.2 (by
          simp only [List.append_nil, idsOf_append, List.mem_append, not_or]
          exact noEnd) (by
          rw [List.append_nil, textOf_append] at only
          exact only.suffix (p := 0))
        have both := @streamed_append s previous [before] rest
        rw [List.singleton_append, here] at both
        simp only [List.flatten_cons, List.flatten_nil, List.append_nil] at both
        rw [both, later]
        simp
      | cons e' more =>
        rw [List.cons_append, List.cons.injEq] at split
        obtain ⟨rfl, rfl⟩ := split
        have there : s.thinkEndTokenId ∈ idsOf (before ++ e :: more) := by
          simp [id]
        have later := @streamed_content s (previous ++ (before ++ e :: more)) rest (by
          rw [idsOf_append]
          exact List.mem_append_right _ there) noStart.2 (by
          rw [idsOf_append, List.mem_append, not_or] at noEnd
          exact noEnd.2.2)
        rw [streamed, later]
        by_cases alone : idsOf (before ++ e :: more) = [s.thinkEndTokenId]
        · have empty : before = [] ∧ more = [] := by
            have length := congrArg List.length alone
            simp only [idsOf, List.length_map, List.length_append, List.length_cons, List.length_nil] at length
            exact ⟨List.eq_nil_of_length_eq_zero (by omega), List.eq_nil_of_length_eq_zero (by omega)⟩
          obtain ⟨rfl, rfl⟩ := empty
          unfold extractReasoningContentStreaming
          rw [if_pos (Or.inr alone)]
          simp
        · have other : ¬idsOf (before ++ e :: more) = [s.thinkStartTokenId] := fun same =>
            noStart.1 (same ▸ List.mem_singleton_self _)
          have message : s.extractReasoningContentStreaming (textOf (before ++ e :: more)) (idsOf previous)
              (idsOf (before ++ e :: more)) = some (splitAtEnd (textOf (before ++ e :: more)) 0) := by
            unfold extractReasoningContentStreaming
            simp only [alone, other, or_self, noStart.1, there, if_true, if_false, ite_self]
          have parts : textOf (before ++ e :: more) = textOf before ++ thinkEndToken ++ textOf more := by
            simp [text]
          rw [textOf_append, parts] at only
          have split := @splitAtEnd_eq _ _ 0 only.prefix
          rw [Nat.cast_zero, List.drop_zero] at split
          rw [message, parts, split]
          simp

/-! ### The whole text -/

theorem extractReasoningContent_none {text : Text} (absent : ∀ i, ¬thinkEndToken <+: text.drop i) :
    extractReasoningContent text = .ok (text, none) := by
  have none := find_none (k := 0) (fun i _ => absent i) (Nat.zero_le _)
  rw [Nat.cast_zero] at none
  unfold extractReasoningContent
  rw [if_pos none]
  rfl

variable {reasoning : Text}

/-- The first match of the expression, where the first end token comes after the start token. -/
theorem firstReasoning?_eq
    (firstStart : ∀ i, thinkStartToken <+: (front ++ thinkStartToken ++ reasoning ++ thinkEndToken ++ back).drop i →
      front.length ≤ i)
    (firstEnd : ∀ i, (front ++ thinkStartToken).length ≤ i →
      thinkEndToken <+: (front ++ thinkStartToken ++ reasoning ++ thinkEndToken ++ back).drop i →
        (front ++ thinkStartToken ++ reasoning).length ≤ i) :
    firstReasoning? (front ++ thinkStartToken ++ reasoning ++ thinkEndToken ++ back) = some reasoning := by
  have after : (front ++ thinkStartToken).length ≤ (front ++ thinkStartToken ++ reasoning).length := by
    rw [@List.length_append _ (front ++ thinkStartToken) _]
    omega
  have found := @find_first thinkEndToken (front ++ thinkStartToken ++ reasoning ++ thinkEndToken ++ back) ((front ++ thinkStartToken ++ reasoning).length) _ thinkEndToken_ne (by
      rw [List.append_assoc _ thinkEndToken, List.drop_left]
      exact List.prefix_append _ _) after firstEnd
  obtain ⟨k, size⟩ : ∃ k, (front ++ thinkStartToken ++ reasoning ++ thinkEndToken ++ back).length + 1 =
      front.length + (k + 1) := by
    refine ⟨(thinkStartToken ++ reasoning ++ thinkEndToken ++ back).length, ?_⟩
    simp only [List.length_append]
    omega
  have cut : List.range (front.length + (k + 1)) =
      List.range front.length ++ front.length :: List.range' (front.length + 1) k := by
    rw [List.range_eq_range', List.range_eq_range', ← List.range'_append_1, Nat.zero_add, List.range'_succ]
  unfold firstReasoning?
  rw [size, cut, List.findSome?_append, List.findSome?_eq_none_iff.mpr, Option.none_or, List.findSome?_cons, if_pos]
  · rw [← List.length_append, found, Option.map_some]
    have taken : (front ++ thinkStartToken ++ reasoning ++ thinkEndToken ++ back).take (front ++ thinkStartToken ++ reasoning).length =
        front ++ thinkStartToken ++ reasoning := by
      rw [List.append_assoc _ thinkEndToken, List.take_left]
    rw [taken, List.drop_left]
  · rw [List.append_assoc, List.append_assoc, List.append_assoc, List.drop_left]
    exact List.prefix_append _ _
  · intro i before
    rw [if_neg]
    intro here
    have := firstStart i here
    have := List.mem_range.mp before
    omega

/-- With both tokens, the content is cut off at the length of what is before it, were the start token first. -/
theorem extractReasoningContent_both
    (onlyStart : OnlyAt thinkStartToken (front ++ thinkStartToken ++ reasoning ++ thinkEndToken ++ back) front.length)
    (onlyEnd : OnlyAt thinkEndToken (front ++ thinkStartToken ++ reasoning ++ thinkEndToken ++ back)
      (front ++ thinkStartToken ++ reasoning).length) :
    extractReasoningContent (front ++ thinkStartToken ++ reasoning ++ thinkEndToken ++ back) =
      .ok (reasoning, orNone ((front ++ thinkStartToken ++ reasoning ++ thinkEndToken ++ back).drop
        (thinkStartToken ++ reasoning ++ thinkEndToken).length)) := by
  have atEnd := find_marker thinkEndToken_ne onlyEnd (Nat.zero_le _)
  have atStart := @find_first _ (front ++ thinkStartToken ++ reasoning ++ thinkEndToken ++ back) front.length 0 thinkStartToken_ne (by
      rw [List.append_assoc, List.append_assoc, List.append_assoc, List.drop_left]
      exact List.prefix_append _ _) (Nat.zero_le _) fun i _ here => (onlyStart i here).ge
  have found := firstReasoning?_eq (fun i here => (onlyStart i here).ge) fun i _ here => (onlyEnd i here).ge
  rw [Nat.cast_zero] at atEnd atStart
  unfold extractReasoningContent
  simp only [atEnd, atStart, found, reduceCtorEq, if_false]
  rfl

theorem extractReasoningContent_end
    (noStart : ∀ i, ¬thinkStartToken <+: (reasoning ++ thinkEndToken ++ back).drop i)
    (onlyEnd : OnlyAt thinkEndToken (reasoning ++ thinkEndToken ++ back) reasoning.length) :
    extractReasoningContent (reasoning ++ thinkEndToken ++ back) = .ok (reasoning, orNone back) := by
  have atEnd := find_marker thinkEndToken_ne onlyEnd (Nat.zero_le _)
  have none := find_none (k := 0) (fun i _ => noStart i) (Nat.zero_le _)
  have found : firstReasoning? (thinkStartToken ++ (reasoning ++ thinkEndToken ++ back)) = some reasoning := by
    have first : ∀ i, thinkStartToken.length ≤ i →
        thinkEndToken <+: (thinkStartToken ++ reasoning ++ thinkEndToken ++ back).drop i →
          (thinkStartToken ++ reasoning).length ≤ i := by
      intro i late here
      obtain ⟨j, rfl⟩ := Nat.exists_eq_add_of_le late
      rw [List.append_assoc, List.append_assoc, List.drop_append, List.drop_of_length_le (Nat.le_add_right _ _),
        List.nil_append, Nat.add_sub_cancel_left, ← List.append_assoc] at here
      have := onlyEnd j here
      rw [List.length_append]
      omega
    have shape := @firstReasoning?_eq [] _ _ (fun _ _ => Nat.zero_le _) first
    simpa only [List.nil_append, List.append_assoc] using shape
  rw [Nat.cast_zero] at atEnd none
  unfold extractReasoningContent
  simp only [atEnd, none, found, reduceCtorEq, if_false, if_true]
  rw [← List.append_assoc, ← List.append_assoc, List.drop_left]
  rfl

/-! ### Both against each other -/

/-- The tokens around the reasoning come at most once each, the start token first, and their texts
nowhere else. -/
structure Marked (s : DeepSeekR1ReasoningParser) (tokens : List OutputToken) : Prop where
  different : s.thinkStartTokenId ≠ s.thinkEndTokenId
  startText : ∀ t ∈ tokens, t.id = s.thinkStartTokenId → t.text = thinkStartToken
  endText : ∀ t ∈ tokens, t.id = s.thinkEndTokenId → t.text = thinkEndToken
  startOnce : (idsOf tokens).count s.thinkStartTokenId ≤ 1
  endOnce : (idsOf tokens).count s.thinkEndTokenId ≤ 1
  startFirst : ∀ before t after, tokens = before ++ t :: after → t.id = s.thinkStartTokenId →
    s.thinkEndTokenId ∉ idsOf before
  startOnly : ∀ i, thinkStartToken <+: (textOf tokens).drop i → ∃ before t after,
    tokens = before ++ t :: after ∧ t.id = s.thinkStartTokenId ∧ (textOf before).length = i
  endOnly : ∀ i, thinkEndToken <+: (textOf tokens).drop i → ∃ before t after,
    tokens = before ++ t :: after ∧ t.id = s.thinkEndTokenId ∧ (textOf before).length = i

/-- The delta with the start token has no other token, or the end token as well, and there is no text before
it; without an end token it has other tokens. -/
def CutsWell (s : DeepSeekR1ReasoningParser) (deltas : List (List OutputToken)) : Prop :=
  ∀ delta ∈ deltas, s.thinkStartTokenId ∈ idsOf delta →
    if s.thinkEndTokenId ∈ idsOf deltas.flatten then
      textOf (deltas.flatten.takeWhile fun t => t.id ≠ s.thinkStartTokenId) = [] ∧
        (delta.length = 1 ∨ s.thinkEndTokenId ∈ idsOf delta)
    else delta.length ≠ 1

instance (s : DeepSeekR1ReasoningParser) (deltas : List (List OutputToken)) : Decidable (s.CutsWell deltas) :=
  inferInstanceAs (Decidable (∀ delta ∈ deltas, _ → _))

theorem split_once {id : TokenId} (once : (idsOf tokens).count id ≤ 1) (there : id ∈ idsOf tokens) :
    ∃ before t after, tokens = before ++ t :: after ∧ t.id = id ∧ id ∉ idsOf before ∧ id ∉ idsOf after := by
  obtain ⟨t, member, rfl⟩ := List.mem_map.mp there
  obtain ⟨before, after, rfl⟩ := List.append_of_mem member
  rw [idsOf_append, idsOf_cons, List.count_append, List.count_cons_self] at once
  exact ⟨before, t, after, rfl, rfl, List.count_eq_zero.mp (by omega), List.count_eq_zero.mp (by omega)⟩

theorem split_unique {id : TokenId} {before' after' : List OutputToken} {t' : OutputToken}
    (same : before ++ t :: after = before' ++ t' :: after') (early : id ∉ idsOf before) (late : id ∉ idsOf after)
    (here : t'.id = id) : before' = before := by
  rcases List.append_eq_append_iff.mp same with ⟨more, rfl, split⟩ | ⟨more, rfl, split⟩
  · cases more with
    | nil => exact List.append_nil _
    | cons u more =>
      rw [List.cons_append, List.cons.injEq] at split
      refine absurd ?_ late
      rw [split.2]
      simp [here]
  · cases more with
    | nil => exact (List.append_nil _).symm
    | cons u more =>
      rw [List.cons_append, List.cons.injEq] at split
      refine absurd ?_ early
      rw [← split.1]
      simp [here]

theorem split_deltas (tokens : deltas.flatten = before ++ t :: after) : ∃ early front back late,
    deltas = early ++ (front ++ t :: back) :: late ∧ early.flatten ++ front = before ∧ back ++ late.flatten = after := by
  induction deltas generalizing before with
  | nil => simp at tokens
  | cons delta rest ih =>
    rw [List.flatten_cons] at tokens
    rcases List.append_eq_append_iff.mp tokens with ⟨more, rfl, split⟩ | ⟨more, rfl, split⟩
    · obtain ⟨early, front, back, late, rfl, rfl, rfl⟩ := ih split
      exact ⟨delta :: early, front, back, late, rfl, by simp, rfl⟩
    · cases more with
      | nil =>
        obtain ⟨early, front, back, late, rfl, none, rfl⟩ := @ih [] split.symm
        refine ⟨(before ++ []) :: early, front, back, late, rfl, ?_, rfl⟩
        rw [List.flatten_cons, List.append_assoc, none, List.append_nil, List.append_nil]
      | cons u more =>
        rw [List.cons_append, List.cons.injEq] at split
        obtain ⟨rfl, rfl⟩ := split
        exact ⟨[], before, more, rest, rfl, rfl, rfl⟩

namespace Marked

variable (marked : s.Marked tokens)
include marked

theorem atEnd (there : s.thinkEndTokenId ∈ idsOf tokens) : ∃ before e after, tokens = before ++ e :: after ∧
    e.id = s.thinkEndTokenId ∧ e.text = thinkEndToken ∧ s.thinkEndTokenId ∉ idsOf before ∧
    s.thinkEndTokenId ∉ idsOf after ∧ OnlyAt thinkEndToken (textOf tokens) (textOf before).length := by
  obtain ⟨before, e, after, rfl, id, early, late⟩ := split_once marked.endOnce there
  refine ⟨before, e, after, rfl, id, marked.endText e (by simp) id, early, late, fun i here => ?_⟩
  obtain ⟨before', e', after', same, id', length⟩ := marked.endOnly i here
  rw [← length, split_unique same early late id']

theorem atStart (there : s.thinkStartTokenId ∈ idsOf tokens) : ∃ before t after, tokens = before ++ t :: after ∧
    t.id = s.thinkStartTokenId ∧ t.text = thinkStartToken ∧ s.thinkStartTokenId ∉ idsOf before ∧
    s.thinkStartTokenId ∉ idsOf after ∧ s.thinkEndTokenId ∉ idsOf before ∧
    OnlyAt thinkStartToken (textOf tokens) (textOf before).length := by
  obtain ⟨before, t, after, rfl, id, early, late⟩ := split_once marked.startOnce there
  refine ⟨before, t, after, rfl, id, marked.startText t (by simp) id, early, late, marked.startFirst _ _ _ rfl id,
    fun i here => ?_⟩
  obtain ⟨before', t', after', same, id', length⟩ := marked.startOnly i here
  rw [← length, split_unique same early late id']

theorem noEnd (absent : s.thinkEndTokenId ∉ idsOf tokens) (i : ℕ) : ¬thinkEndToken <+: (textOf tokens).drop i := by
  intro here
  obtain ⟨before, e, after, rfl, id, -⟩ := marked.endOnly i here
  exact absent (by simp [id])

theorem noStart (absent : s.thinkStartTokenId ∉ idsOf tokens) (i : ℕ) : ¬thinkStartToken <+: (textOf tokens).drop i := by
  intro here
  obtain ⟨before, t, after, rfl, id, -⟩ := marked.startOnly i here
  exact absent (by simp [id])

end Marked

/-- What the stream and the whole text come to agree. -/
def Agrees (s : DeepSeekR1ReasoningParser) (deltas : List (List OutputToken)) : Prop :=
  ∃ reasoningContent content, extractReasoningContent (textOf deltas.flatten) = .ok (reasoningContent, content) ∧
    s.streamed [] deltas = (reasoningContent, content.getD [])

theorem agrees_noStart (marked : s.Marked deltas.flatten) (absent : s.thinkStartTokenId ∉ idsOf deltas.flatten) :
    s.Agrees deltas := by
  by_cases there : s.thinkEndTokenId ∈ idsOf deltas.flatten
  · obtain ⟨before, e, after, tokens, id, text, early, late, only⟩ := marked.atEnd there
    have stream := @streamed_end s [] _ _ _ _ tokens id text absent
      (by simp only [List.nil_append, idsOf_append, List.mem_append, not_or]; exact ⟨early, late⟩) only
    have parts : textOf deltas.flatten = textOf before ++ thinkEndToken ++ textOf after := by
      rw [tokens]
      simp [text]
    have none := marked.noStart absent
    rw [parts] at only none
    refine ⟨_, _, by rw [parts]; exact extractReasoningContent_end none only, ?_⟩
    rw [stream, orNone_getD]
  · have stream := @streamed_reasoning s [] _ (by simpa using there) absent
    exact ⟨_, _, extractReasoningContent_none (marked.noEnd there), stream⟩

/-! ### The delta with the start token -/

structure Around (s : DeepSeekR1ReasoningParser) (early : List (List OutputToken)) (front : List OutputToken) (t : OutputToken)
    (back : List OutputToken) (late : List (List OutputToken)) : Prop where
  different : s.thinkStartTokenId ≠ s.thinkEndTokenId
  id : t.id = s.thinkStartTokenId
  text : t.text = thinkStartToken
  noStart : s.thinkStartTokenId ∉ idsOf (early.flatten ++ front)
  noEnd : s.thinkEndTokenId ∉ idsOf (early.flatten ++ front)
  startOnce : s.thinkStartTokenId ∉ idsOf (back ++ late.flatten)
  onlyStart : OnlyAt thinkStartToken (textOf (early ++ (front ++ t :: back) :: late).flatten)
    (textOf (early.flatten ++ front)).length

namespace Around

variable {early late : List (List OutputToken)} {front back : List OutputToken} (around : s.Around early front t back late)
include around

theorem streamed : s.streamed [] (early ++ (front ++ t :: back) :: late) =
    (textOf early.flatten ++ (s.streamed early.flatten ((front ++ t :: back) :: late)).1,
      (s.streamed early.flatten ((front ++ t :: back) :: late)).2) := by
  have noStart := around.noStart
  have noEnd := around.noEnd
  rw [idsOf_append, List.mem_append, not_or] at noStart noEnd
  have here := @streamed_reasoning s [] early (by rw [List.nil_append]; exact noEnd.1) noStart.1
  rw [streamed_append, here, List.nil_append, List.nil_append]

omit around in
theorem within (marker : Text) (p : ℕ) (only : OnlyAt marker (textOf (early ++ (front ++ t :: back) :: late).flatten)
    ((textOf early.flatten).length + p)) : OnlyAt marker (textOf (front ++ t :: back)) p := by
  rw [List.flatten_append, List.flatten_cons, textOf_append, textOf_append] at only
  exact only.suffix.prefix

theorem not_end : t.id ≠ s.thinkEndTokenId := by
  rw [around.id]
  exact around.different

/-- Without the end token, the text of the delta is all reasoning if the start token is not alone. -/
theorem message (noEnd : s.thinkEndTokenId ∉ idsOf back) :
    s.extractReasoningContentStreaming (textOf (front ++ t :: back)) (idsOf early.flatten) (idsOf (front ++ t :: back)) =
      if (front ++ t :: back).length = 1 then none
      else some { reasoningContent := some (textOf (front ++ t :: back)) } := by
  have before := around.noStart
  have free := around.noEnd
  rw [idsOf_append, List.mem_append, not_or] at before free
  have absent : s.thinkEndTokenId ∉ idsOf (front ++ t :: back) := by
    rw [idsOf_append, idsOf_cons, List.mem_append, List.mem_cons, not_or, not_or]
    exact ⟨free.2, fun same => around.not_end same.symm, noEnd⟩
  have here : s.thinkStartTokenId ∈ idsOf (front ++ t :: back) := by simp [around.id]
  unfold extractReasoningContentStreaming
  by_cases alone : (front ++ t :: back).length = 1
  · rw [if_pos alone, if_pos]
    left
    rw [List.length_append, List.length_cons] at alone
    rw [List.eq_nil_of_length_eq_zero (l := front) (by omega), List.eq_nil_of_length_eq_zero (l := back) (by omega)]
    exact congrArg (fun id => [id]) around.id
  · rw [if_neg alone, if_neg, if_neg before.1, if_pos here, if_neg absent]
    rintro (same | same)
    · have length := congrArg List.length same
      rw [idsOf, List.length_map] at length
      exact alone length
    · exact absent (same ▸ List.mem_singleton_self _)

/-- With both tokens in the delta, what is between them is reasoning. -/
theorem message_both {before after : List OutputToken} (split : back = before ++ e :: after)
    (id : e.id = s.thinkEndTokenId) (text : e.text = thinkEndToken)
    (only : OnlyAt thinkEndToken (textOf (early ++ (front ++ t :: back) :: late).flatten)
      (textOf (early.flatten ++ front ++ t :: before)).length) :
    s.extractReasoningContentStreaming (textOf (front ++ t :: back)) (idsOf early.flatten) (idsOf (front ++ t :: back)) =
      some { reasoningContent := some (textOf before), content := orNone (textOf after) } := by
  have free := around.noStart
  rw [idsOf_append, List.mem_append, not_or] at free
  have startHere : s.thinkStartTokenId ∈ idsOf (front ++ t :: back) := by simp [around.id]
  have endHere : s.thinkEndTokenId ∈ idsOf (front ++ t :: back) := by simp [split, id]
  have several : ¬(idsOf (front ++ t :: back) = [s.thinkStartTokenId] ∨ idsOf (front ++ t :: back) = [s.thinkEndTokenId]) := by
    have length : 2 ≤ (idsOf (front ++ t :: back)).length := by
      rw [split, idsOf, List.length_map]
      simp only [List.length_append, List.length_cons]
      omega
    rintro (same | same)
    · rw [same] at length
      simp at length
    · rw [same] at length
      simp at length
  have parts : textOf (front ++ t :: back) =
      textOf front ++ thinkStartToken ++ (textOf before ++ thinkEndToken ++ textOf after) := by
    simp [split, around.text, text]
  have parts' : textOf (front ++ t :: back) =
      textOf front ++ thinkStartToken ++ textOf before ++ thinkEndToken ++ textOf after := by
    simp [split, around.text, text]
  have startOnly : OnlyAt thinkStartToken (textOf (front ++ t :: back)) (textOf front).length := by
    apply within
    have whole := around.onlyStart
    rwa [textOf_append, List.length_append] at whole
  have endOnly : OnlyAt thinkEndToken (textOf (front ++ t :: back)) (textOf front ++ thinkStartToken ++ textOf before).length := by
    apply within
    rwa [List.append_assoc, textOf_append, List.length_append, textOf_append, textOf_cons, around.text,
      ← List.append_assoc (textOf front)] at only
  have atStart : index (textOf (front ++ t :: back)) thinkStartToken = (textOf front).length := by
    rw [parts] at startOnly
    have found := find_marker thinkStartToken_ne startOnly (Nat.zero_le _)
    rw [Nat.cast_zero] at found
    unfold index
    rw [parts, found]
    rfl
  unfold extractReasoningContentStreaming
  rw [if_neg several, if_neg free.1, if_pos startHere, if_pos endHere, atStart, parts', ← Nat.cast_add]
  rw [parts'] at endOnly
  rw [splitAtEnd_eq endOnly, ← List.length_append, List.drop_left]

/-- Without an end token, the start token must not be alone. -/
theorem agrees_start (marked : s.Marked (early ++ (front ++ t :: back) :: late).flatten)
    (absent : s.thinkEndTokenId ∉ idsOf (early ++ (front ++ t :: back) :: late).flatten) :
    s.Agrees (early ++ (front ++ t :: back) :: late) ↔ (front ++ t :: back).length ≠ 1 := by
  have whole := extractReasoningContent_none (marked.noEnd absent)
  have free := absent
  rw [List.flatten_append, List.flatten_cons, idsOf_append, idsOf_append, List.mem_append, List.mem_append, not_or, not_or] at free
  have noEnd : s.thinkEndTokenId ∉ idsOf back := by
    intro member
    exact free.2.1 (by simp [member])
  have startOnce := around.startOnce
  rw [idsOf_append, List.mem_append, not_or] at startOnce
  have later := @streamed_reasoning s (early.flatten ++ (front ++ t :: back)) late (by
    simp only [idsOf_append, List.mem_append, not_or]
    rw [idsOf_append, List.mem_append, not_or] at free
    exact ⟨⟨free.1, free.2.1⟩, free.2.2⟩) startOnce.2
  have stream := around.streamed
  rw [DeepSeekR1ReasoningParser.streamed, around.message noEnd, later] at stream
  have parts : textOf (early ++ (front ++ t :: back) :: late).flatten =
      textOf early.flatten ++ (textOf (front ++ t :: back) ++ textOf late.flatten) := by
    rw [List.flatten_append, List.flatten_cons, textOf_append, textOf_append]
  unfold Agrees
  rw [whole, stream]
  constructor
  · rintro ⟨reasoning, content, same, agree⟩ alone
    cases same
    have length := congrArg (fun x => x.1.length) agree
    rw [parts, if_pos alone] at length
    have marker : (textOf (front ++ t :: back)).length = (textOf front).length + (thinkStartToken.length + (textOf back).length) := by
      simp [around.text]
    have some_ : thinkStartToken.length = 7 := rfl
    simp only [Option.bind_none, Option.getD_none, List.nil_append, List.length_append] at length
    omega
  · intro several
    refine ⟨_, _, rfl, ?_⟩
    rw [parts, if_neg several]
    rfl

/-- The end token comes after the start token, in a later delta or in the same. -/
theorem end_place (id : e.id = s.thinkEndTokenId)
    (tokens : (early ++ (front ++ t :: back) :: late).flatten = before ++ e :: after) :
    (∃ more, before = early.flatten ++ front ++ t :: (back ++ more) ∧ late.flatten = more ++ e :: after) ∨
    ∃ reasoning more, before = early.flatten ++ front ++ t :: reasoning ∧ back = reasoning ++ e :: more ∧
      after = more ++ late.flatten := by
  have shape : (early ++ (front ++ t :: back) :: late).flatten = (early.flatten ++ front) ++ t :: (back ++ late.flatten) := by
    simp
  obtain ⟨reasoning, rfl, behind⟩ : ∃ reasoning, before = early.flatten ++ front ++ t :: reasoning ∧
      back ++ late.flatten = reasoning ++ e :: after := by
    rw [shape] at tokens
    rcases List.append_eq_append_iff.mp tokens with ⟨more, rfl, split⟩ | ⟨more, same, split⟩
    · cases more with
      | nil =>
        rw [List.nil_append, List.cons.injEq] at split
        exact absurd (split.1 ▸ id) around.not_end
      | cons u more =>
        rw [List.cons_append, List.cons.injEq] at split
        exact ⟨more, by rw [split.1], split.2⟩
    · cases more with
      | nil =>
        rw [List.nil_append, List.cons.injEq] at split
        exact absurd (split.1 ▸ id) around.not_end
      | cons u more =>
        rw [List.cons_append, List.cons.injEq] at split
        refine absurd ?_ around.noEnd
        rw [same]
        simp [← split.1, id]
  rcases List.append_eq_append_iff.mp behind with ⟨more, rfl, split⟩ | ⟨more, rfl, split⟩
  · exact Or.inl ⟨more, rfl, split⟩
  · cases more with
    | nil => exact Or.inl ⟨[], by rw [List.append_nil, List.append_nil], split.symm⟩
    | cons u more =>
      rw [List.cons_append, List.cons.injEq] at split
      obtain ⟨rfl, rfl⟩ := split
      exact Or.inr ⟨reasoning, more, rfl, rfl, rfl⟩

/-- A delta before the end token is streamed whole, unless the start token is all of it. -/
theorem streamed_endLater {more : List OutputToken} (split : late.flatten = more ++ e :: after)
    (id : e.id = s.thinkEndTokenId) (text : e.text = thinkEndToken)
    (noEnd : s.thinkEndTokenId ∉ idsOf (early.flatten ++ front ++ t :: (back ++ more)))
    (once : s.thinkEndTokenId ∉ idsOf after)
    (only : OnlyAt thinkEndToken (textOf (early ++ (front ++ t :: back) :: late).flatten)
      (textOf (early.flatten ++ front ++ t :: (back ++ more))).length) :
    s.streamed [] (early ++ (front ++ t :: back) :: late) = (textOf early.flatten ++
      ((if (front ++ t :: back).length = 1 then [] else textOf front ++ thinkStartToken) ++ textOf (back ++ more)),
      textOf after) := by
  have startOnce := around.startOnce
  simp only [idsOf_append, idsOf_cons, List.mem_append, List.mem_cons, not_or] at noEnd startOnce
  have later := @streamed_end s (early.flatten ++ (front ++ t :: back)) _ _ _ _ split id text startOnce.2 (by
    simp only [idsOf_append, idsOf_cons, List.mem_append, List.mem_cons, not_or]
    exact ⟨⟨⟨noEnd.1.1, noEnd.1.2, noEnd.2.1, noEnd.2.2.1⟩, noEnd.2.2.2⟩, once⟩) (by
    have cut : textOf (early ++ (front ++ t :: back) :: late).flatten =
        textOf (early.flatten ++ front ++ t :: back) ++ textOf late.flatten := by
      simp
    have place : textOf (early.flatten ++ front ++ t :: (back ++ more)) =
        textOf (early.flatten ++ front ++ t :: back) ++ textOf more := by
      simp
    rw [cut, place, List.length_append] at only
    exact only.suffix)
  rw [around.streamed, DeepSeekR1ReasoningParser.streamed, around.message noEnd.2.2.1, later]
  by_cases alone : (front ++ t :: back).length = 1
  · have empty : back = [] := by
      rw [List.length_append, List.length_cons] at alone
      exact List.eq_nil_of_length_eq_zero (by omega)
    rw [if_pos alone, if_pos alone, empty]
    simp
  · rw [if_neg alone, if_neg alone]
    simp [around.text]

/-- With the end token, the delta is cut there, and at the start token. -/
theorem streamed_endHere {reasoning more : List OutputToken} (split : back = reasoning ++ e :: more)
    (id : e.id = s.thinkEndTokenId) (text : e.text = thinkEndToken)
    (once : s.thinkEndTokenId ∉ idsOf (more ++ late.flatten))
    (only : OnlyAt thinkEndToken (textOf (early ++ (front ++ t :: back) :: late).flatten)
      (textOf (early.flatten ++ front ++ t :: reasoning)).length) :
    s.streamed [] (early ++ (front ++ t :: back) :: late) =
      (textOf early.flatten ++ textOf reasoning, textOf (more ++ late.flatten)) := by
  have startOnce := around.startOnce
  rw [idsOf_append, List.mem_append, not_or] at startOnce once
  have later := @streamed_content s (early.flatten ++ (front ++ t :: back)) late (by simp [split, id])
    startOnce.2 once.2
  rw [around.streamed, DeepSeekR1ReasoningParser.streamed, around.message_both split id text only, later]
  simp

/-- Before the end token, the start token is alone in its delta or comes with it, and it is first. -/
theorem agrees_end (marked : s.Marked (early ++ (front ++ t :: back) :: late).flatten)
    (there : s.thinkEndTokenId ∈ idsOf (early ++ (front ++ t :: back) :: late).flatten) :
    s.Agrees (early ++ (front ++ t :: back) :: late) ↔ textOf (early.flatten ++ front) = [] ∧
      ((front ++ t :: back).length = 1 ∨ s.thinkEndTokenId ∈ idsOf (front ++ t :: back)) := by
  obtain ⟨before, e, after, tokens, id, text, noEnd, once, only⟩ := marked.atEnd there
  -- the delta adds `extra` to the reasoning that the whole text has
  obtain ⟨reasoning, extra, rfl, stream, well⟩ : ∃ reasoning extra, before = early.flatten ++ front ++ t :: reasoning ∧
      s.streamed [] (early ++ (front ++ t :: back) :: late) =
        (textOf early.flatten ++ (extra ++ textOf reasoning), textOf after) ∧
      (extra = [] ↔ (front ++ t :: back).length = 1 ∨ s.thinkEndTokenId ∈ idsOf (front ++ t :: back)) := by
    rcases around.end_place id tokens with ⟨more, rfl, split⟩ | ⟨reasoning, more, rfl, split, rfl⟩
    · refine ⟨_, _, rfl, around.streamed_endLater split id text noEnd once only, ?_⟩
      have absent : s.thinkEndTokenId ∉ idsOf (front ++ t :: back) := by
        simp only [idsOf_append, idsOf_cons, List.mem_append, List.mem_cons, not_or] at noEnd ⊢
        exact ⟨noEnd.1.2, noEnd.2.1, noEnd.2.2.1⟩
      rw [or_iff_left absent, ite_eq_left_iff, List.append_eq_nil_iff]
      exact ⟨fun none => by_contra fun several => thinkStartToken_ne (none several).2,
        fun alone several => absurd alone several⟩
    · refine ⟨reasoning, [], rfl, around.streamed_endHere split id text once only, ?_⟩
      exact iff_of_true rfl (Or.inr (by simp [split, id]))
  have parts : textOf (early ++ (front ++ t :: back) :: late).flatten = textOf (early.flatten ++ front) ++ thinkStartToken ++
      textOf reasoning ++ thinkEndToken ++ textOf after := by
    rw [tokens]
    simp [around.text, text]
  have whole : extractReasoningContent (textOf (early ++ (front ++ t :: back) :: late).flatten) =
      .ok (textOf reasoning, orNone ((textOf (early ++ (front ++ t :: back) :: late).flatten).drop
        (thinkStartToken ++ textOf reasoning ++ thinkEndToken).length)) := by
    have startOnly := around.onlyStart
    have endOnly := only
    rw [textOf_append, textOf_cons, around.text, ← List.append_assoc] at endOnly
    rw [parts] at startOnly endOnly ⊢
    exact extractReasoningContent_both startOnly endOnly
  unfold Agrees
  rw [whole, stream, ← well]
  constructor
  · rintro ⟨reasoning', content, same, agree⟩
    cases same
    rw [orNone_getD, Prod.mk.injEq] at agree
    constructor
    · have length := congrArg List.length agree.2
      rw [parts, List.length_drop] at length
      simp only [List.length_append] at length
      apply List.eq_nil_of_length_eq_zero
      rw [textOf_append, List.length_append] at length ⊢
      omega
    · have length := congrArg List.length agree.1
      simp only [List.length_append] at length
      exact List.eq_nil_of_length_eq_zero (by omega)
  · rintro ⟨nothing, rfl⟩
    refine ⟨_, _, rfl, ?_⟩
    have early' : textOf early.flatten = [] := by
      rw [textOf_append, List.append_eq_nil_iff] at nothing
      exact nothing.1
    rw [orNone_getD, early', parts, nothing]
    simp only [List.nil_append, List.drop_left]

end Around

/-- The stream and the whole text agree just when the stream is cut well. -/
theorem agrees_iff_cutsWell (marked : s.Marked deltas.flatten) : s.Agrees deltas ↔ s.CutsWell deltas := by
  by_cases there : s.thinkStartTokenId ∈ idsOf deltas.flatten
  · obtain ⟨before, t, after, tokens, id, text, noStart, once, noEnd, only⟩ := marked.atStart there
    obtain ⟨early, front, back, late, rfl, rfl, rfl⟩ := split_deltas tokens
    have around : s.Around early front t back late := ⟨marked.different, id, text, noStart, noEnd, once, only⟩
    have first : (early ++ (front ++ t :: back) :: late).flatten.takeWhile (fun t => t.id ≠ s.thinkStartTokenId) =
        early.flatten ++ front := by
      rw [tokens, List.takeWhile_append_of_pos, List.takeWhile_cons_of_neg, List.append_nil]
      · simpa using id
      · intro u member
        rw [decide_eq_true_eq]
        rintro same
        exact noStart (same ▸ List.mem_map_of_mem member)
    have here : s.thinkStartTokenId ∈ idsOf (front ++ t :: back) := by simp [id]
    -- no other delta has the start token
    have sole : ∀ delta ∈ early ++ (front ++ t :: back) :: late, s.thinkStartTokenId ∈ idsOf delta →
        delta = front ++ t :: back := by
      intro delta member start
      obtain ⟨u, inside, same⟩ := List.mem_map.mp start
      rcases List.mem_append.mp member with earlier | later
      · refine absurd ?_ noStart
        rw [← same, idsOf_append]
        exact List.mem_append_left _ (List.mem_map_of_mem (List.mem_flatten.mpr ⟨delta, earlier, inside⟩))
      · rcases List.mem_cons.mp later with rfl | later
        · rfl
        · refine absurd ?_ once
          rw [← same, idsOf_append]
          exact List.mem_append_right _ (List.mem_map_of_mem (List.mem_flatten.mpr ⟨delta, later, inside⟩))
    have condition : s.CutsWell (early ++ (front ++ t :: back) :: late) ↔
        if s.thinkEndTokenId ∈ idsOf (early ++ (front ++ t :: back) :: late).flatten then
          textOf (early.flatten ++ front) = [] ∧
            ((front ++ t :: back).length = 1 ∨ s.thinkEndTokenId ∈ idsOf (front ++ t :: back))
        else (front ++ t :: back).length ≠ 1 := by
      unfold CutsWell
      rw [first]
      constructor
      · exact fun well => well _ (by simp) here
      · intro well delta member start
        rw [sole delta member start]
        exact well
    rw [condition]
    split
    · exact around.agrees_end marked ‹_›
    · exact around.agrees_start marked ‹_›
  · refine iff_of_true (agrees_noStart marked there) fun delta member start => absurd ?_ there
    obtain ⟨u, inside, same⟩ := List.mem_map.mp start
    rw [← same]
    exact List.mem_map_of_mem (List.mem_flatten.mpr ⟨delta, member, inside⟩)

/-! ### The start token in a delta with text -/

def exampleParser : DeepSeekR1ReasoningParser where
  thinkStartTokenId := 0
  thinkEndTokenId := 1

def exampleOutput : List OutputToken :=
  [⟨0, thinkStartToken⟩, ⟨2, ['a']⟩, ⟨1, thinkEndToken⟩, ⟨3, ['b']⟩]

theorem exampleOutput_marked : exampleParser.Marked exampleOutput := by
  have starts : ∀ i < 18, thinkStartToken <+: (textOf exampleOutput).drop i → i = 0 := by decide
  have ends : ∀ i < 18, thinkEndToken <+: (textOf exampleOutput).drop i → i = 8 := by decide
  have inside : ∀ (marker : Text) (i : ℕ), marker ≠ [] → marker <+: (textOf exampleOutput).drop i → i < 18 := by
    intro marker i nonempty here
    by_contra outside
    rw [List.drop_eq_nil_of_le (le_trans (by decide) (Nat.le_of_not_lt outside)), List.prefix_nil] at here
    exact nonempty here
  refine ⟨by decide, by decide, by decide, by decide, by decide, fun before t after same id => ?_,
    fun i here => ⟨[], _, _, rfl, rfl, ?_⟩, fun i here => ⟨exampleOutput.take 2, ⟨1, thinkEndToken⟩, [⟨3, ['b']⟩], rfl, rfl, ?_⟩⟩
  · rw [@split_unique [] _ _ 0 _ _ _ same (by decide) (by decide) id]
    decide
  · exact (starts i (inside _ i thinkStartToken_ne here) here).symm
  · exact (ends i (inside _ i thinkEndToken_ne here) here).symm

/-- The text of the start token is streamed as reasoning. -/
theorem streams_startToken : exampleParser.Marked exampleOutput ∧
    ¬exampleParser.Agrees [exampleOutput.take 2, exampleOutput.drop 2] := by
  refine ⟨exampleOutput_marked, ?_⟩
  rintro ⟨reasoning, content, whole, stream⟩
  have found : extractReasoningContent (textOf [exampleOutput.take 2, exampleOutput.drop 2].flatten) =
      .ok (['a'], some ['b']) := by rfl
  rw [found] at whole
  cases whole
  revert stream
  decide

/-- Each token in a delta of its own, and all in one. -/
theorem agrees_iff_cutsWell_example :
    (exampleParser.Agrees (exampleOutput.map fun t => [t]) ↔ exampleParser.CutsWell (exampleOutput.map fun t => [t])) ∧
      exampleParser.CutsWell (exampleOutput.map fun t => [t]) ∧ exampleParser.CutsWell [exampleOutput] :=
  ⟨@agrees_iff_cutsWell _ (exampleOutput.map fun t => [t]) exampleOutput_marked, by decide, by decide⟩

end DeepSeekR1ReasoningParser
end Vllm.Frontend
