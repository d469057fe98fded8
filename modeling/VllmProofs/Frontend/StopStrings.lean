import VllmProofs.Data.Occurrences
import VllmProofs.Frontend.StreamedText

/-!
Where the text of a request is cut, when its tokens come in groups: `IncrementalDetokenizer.update` for each
group, against the stop string that is completed first.
-/

namespace Vllm.Frontend

namespace IncrementalDetokenizer

/-- The groups of tokens, until a stop string is matched. -/
def updates [Tokenizer] (s : IncrementalDetokenizer) : List (List TokenId) → Option Text × IncrementalDetokenizer
  | [] => (none, s)
  | newTokenIds :: rest =>
    match s.update newTokenIds with
    | (none, s) => s.updates rest
    | (some stopString, s) => (some stopString, s)

/-- The text with all of the new tokens, if it is not cut. -/
def textWith [Tokenizer] (s : IncrementalDetokenizer) (newTokenIds : List TokenId) : Text :=
  if s.hasTokenizer then s.outputText ++ decode s.tokenIds newTokenIds else s.outputText

def cutAtFirst (s : IncrementalDetokenizer) (text : Text) : Option Text × Text :=
  match firstCompleted s.stop text with
  | none => (none, text)
  | some (stopString, e) => (some stopString, text.take (if s.includeStopStrInOutput then e else e - stopString.length))

/-- In the text of the first groups that has a stop string, the first that is listed is completed before others. -/
def InOrder [Tokenizer] (s : IncrementalDetokenizer) (groups : List (List TokenId)) : Prop :=
  ∀ before group after, groups = before ++ group :: after →
    (∀ stopString ∈ s.stop, ¬Occurs stopString (s.textWith before.flatten)) →
    ∀ stopString, s.stop.find? (fun stopString => Occurs stopString (s.textWith (before ++ [group]).flatten)) = some stopString →
    ∀ other ∈ s.stop, ∀ e, EndsAt other (s.textWith (before ++ [group]).flatten) e →
      ∃ e' ≤ e, EndsAt stopString (s.textWith (before ++ [group]).flatten) e'

end IncrementalDetokenizer

/-! ### One update -/

variable {text chunk stopString : Text} {stop : List Text} {includeInOutput : Bool}

/-- Where nothing was completed before, the search from the given place finds the first occurrence. -/
theorem find_new (nonempty : stopString ≠ []) (some_ : chunk ≠ []) (new : ¬Occurs stopString text) :
    (∃ e, EndsAt stopString (text ++ chunk) e ∧ (∀ e', EndsAt stopString (text ++ chunk) e' → e ≤ e') ∧
      find (text ++ chunk) stopString (1 - chunk.length - stopString.length) = some (e - stopString.length)) ∨
    (∀ e, ¬EndsAt stopString (text ++ chunk) e) ∧
      find (text ++ chunk) stopString (1 - chunk.length - stopString.length) = none := by
  have long : 0 < stopString.length := List.length_pos_iff.mpr nonempty
  have more : 0 < chunk.length := List.length_pos_iff.mpr some_
  -- an occurrence that is new does not begin before the search
  have late : ∀ e, EndsAt stopString (text ++ chunk) e →
      PySlice.bound (text ++ chunk).length (1 - chunk.length - stopString.length) ≤ e - stopString.length := by
    intro e ends
    have after : text.length < e := by
      by_contra inside
      exact new (ends.of_append (Nat.le_of_not_lt inside)).occurs
    have begun := ends.length_le
    rw [PySlice.bound, if_pos (by omega), List.length_append]
    omega
  unfold find
  cases found : (List.range ((text ++ chunk).length + 1)).find? fun i =>
      PySlice.bound (text ++ chunk).length (1 - chunk.length - stopString.length) ≤ i ∧
        stopString <+: (text ++ chunk).drop i with
  | none =>
    refine Or.inr ⟨fun e ends => ?_, rfl⟩
    have none := List.find?_range_eq_none.mp found (e - stopString.length) (by have := ends.1; omega)
    rw [Bool.not_eq_true', decide_eq_false_iff_not] at none
    exact none ⟨late e ends, ends.start⟩
  | some i =>
    obtain ⟨here, inside, first⟩ := List.find?_range_eq_some.mp found
    have ends := EndsAt.of_start (of_decide_eq_true here).2 (Nat.lt_succ_iff.mp (List.mem_range.mp inside))
    refine Or.inl ⟨i + stopString.length, ends, fun e' ends' => ?_, by rw [Nat.add_sub_cancel]⟩
    by_contra earlier
    have begun := ends'.length_le
    have none := first (e' - stopString.length) (by omega)
    rw [Bool.not_eq_true', decide_eq_false_iff_not] at none
    exact none ⟨late e' ends', ends'.start⟩

def cutText (text : Text) : Option ℕ → Text
  | none => text
  | some truncateTo => text.take truncateTo

/-- What the check makes of new characters: the first stop string in the list that occurs, at its first occurrence. -/
theorem checkStopStrings_new (nonempty : [] ∉ stop) (new : ∀ stopString ∈ stop, ¬Occurs stopString text) :
    (checkStopStrings (text ++ chunk) chunk.length stop includeInOutput = none ∧
      ∀ stopString ∈ stop, ¬Occurs stopString (text ++ chunk)) ∨
    ∃ stopString e cut,
      checkStopStrings (text ++ chunk) chunk.length stop includeInOutput = some (stopString, cut) ∧
      stop.find? (fun stopString => Occurs stopString (text ++ chunk)) = some stopString ∧
      EndsAt stopString (text ++ chunk) e ∧ (∀ e', EndsAt stopString (text ++ chunk) e' → e ≤ e') ∧
      cutText (text ++ chunk) cut = (text ++ chunk).take (if includeInOutput then e else e - stopString.length) := by
  rcases eq_or_ne chunk [] with rfl | some_
  · rw [List.append_nil]
    exact Or.inl ⟨rfl, new⟩
  have positive : chunk.length ≠ 0 := Nat.ne_of_gt (List.length_pos_iff.mpr some_)
  have search : ∀ stopString ∈ stop, ¬Occurs stopString (text ++ chunk) →
      find (text ++ chunk) stopString (1 - chunk.length - stopString.length) = none := by
    intro stopString member absent
    rcases find_new (fun empty => nonempty (empty ▸ member)) some_ (new stopString member) with ⟨e, ends, -⟩ | ⟨-, none⟩
    · exact absurd ends.occurs absent
    · exact none
  unfold checkStopStrings
  rw [if_neg positive]
  cases listed : stop.find? fun stopString => Occurs stopString (text ++ chunk) with
  | none =>
    have absent : ∀ stopString ∈ stop, ¬Occurs stopString (text ++ chunk) := by
      intro stopString member
      simpa using List.find?_eq_none.mp listed stopString member
    refine Or.inl ⟨?_, absent⟩
    rw [List.findSome?_eq_none_iff]
    intro stopString member
    rw [search stopString member (absent stopString member)]
    rfl
  | some stopString =>
    obtain ⟨-, before, after, split_, absent⟩ := List.find?_eq_some_iff_append.mp listed
    have member := List.mem_of_find?_eq_some listed
    have occurs := holds_of_find? listed
    rcases find_new (fun empty => nonempty (empty ▸ member)) some_ (new stopString member) with
      ⟨e, ends, least, found⟩ | ⟨none, -⟩
    · have skipped : (before.findSome? fun stopString =>
          (find (text ++ chunk) stopString (1 - chunk.length - stopString.length)).map fun stopIndex =>
            if includeInOutput then
              (stopString, if (text ++ chunk).length ≤ stopIndex + stopString.length then none
                else some (stopIndex + stopString.length))
            else (stopString, some stopIndex)) = (none : Option (Text × Option ℕ)) := by
        rw [List.findSome?_eq_none_iff]
        intro other earlier
        have listed : other ∈ stop := by
          rw [split_]
          exact List.mem_append_left _ earlier
        rw [search other listed (by simpa using absent other earlier)]
        rfl
      have begun := ends.length_le
      refine Or.inr ⟨stopString, e, if includeInOutput then if (text ++ chunk).length ≤ e then none else some e
        else some (e - stopString.length), ?_, rfl, ends, least, ?_⟩
      · rw [split_, List.findSome?_append, skipped, List.findSome?_cons, found, Option.map_some,
          Nat.sub_add_cancel begun]
        cases includeInOutput with
        | true => rfl
        | false => rfl
      · cases includeInOutput with
        | true =>
          rw [if_pos rfl, if_pos rfl]
          split
          · rename_i whole
            exact (List.take_of_length_le whole).symm
          · rfl
        | false => rfl
    · obtain ⟨e, -, ends⟩ := occurs
      exact absurd ends (none e)

namespace IncrementalDetokenizer
variable [Tokenizer] {s : IncrementalDetokenizer} {group : List TokenId} {groups : List (List TokenId)}

theorem decode_append (tokenIds first second : List TokenId) :
    decode tokenIds (first ++ second) = decode tokenIds first ++ decode (tokenIds ++ first) second := by
  induction first generalizing tokenIds with
  | nil => rw [List.append_nil]; rfl
  | cons newTokenId rest ih =>
    show Tokenizer.newText _ ++ decode _ (rest ++ second) = (Tokenizer.newText _ ++ decode _ rest) ++ _
    rw [ih, List.append_assoc, List.append_assoc, List.singleton_append]

structure Searching (s : IncrementalDetokenizer) : Prop where
  hasTokenizer : s.hasTokenizer = true
  nonempty : [] ∉ s.stop
  new : ∀ stopString ∈ s.stop, ¬Occurs stopString s.outputText

/-- The detokenizer after tokens that complete no stop string. -/
def after (s : IncrementalDetokenizer) (group : List TokenId) : IncrementalDetokenizer :=
  { s with tokenIds := s.tokenIds ++ group, outputText := s.textWith group }

section
variable (searching : s.Searching)
include searching

theorem textWith_after (group later : List TokenId) :
    (s.after group).textWith later = s.textWith (group ++ later) := by
  unfold textWith after
  dsimp only
  rw [if_pos searching.hasTokenizer, if_pos searching.hasTokenizer, textWith, if_pos searching.hasTokenizer,
    decode_append, List.append_assoc]

/-- Either no stop string occurs yet, or the first in the list that does is matched, at its first occurrence. -/
theorem update_new (group : List TokenId) :
    (s.update group = (none, s.after group) ∧ ∀ stopString ∈ s.stop, ¬Occurs stopString (s.textWith group)) ∨
    ∃ stopString e s', s.update group = (some stopString, s') ∧
      s.stop.find? (fun stopString => Occurs stopString (s.textWith group)) = some stopString ∧
      EndsAt stopString (s.textWith group) e ∧ (∀ e', EndsAt stopString (s.textWith group) e' → e ≤ e') ∧
      s'.outputText = (s.textWith group).take (if s.includeStopStrInOutput then e else e - stopString.length) := by
  have text : s.textWith group = s.outputText ++ decode s.tokenIds group := if_pos searching.hasTokenizer
  unfold update after
  rw [if_pos searching.hasTokenizer, text]
  dsimp only
  rcases @checkStopStrings_new s.outputText (decode s.tokenIds group) s.stop s.includeStopStrInOutput
    searching.nonempty searching.new with ⟨none, absent⟩ | ⟨stopString, e, cut, matched, listed, ends, least, text'⟩
  · rw [none]
    exact Or.inl ⟨rfl, absent⟩
  · rw [matched]
    cases cut with
    | none => exact Or.inr ⟨stopString, e, _, rfl, listed, ends, least, text'⟩
    | some truncateTo => exact Or.inr ⟨stopString, e, _, rfl, listed, ends, least, text'⟩

theorem Searching.after
    (absent : ∀ stopString ∈ s.stop, ¬Occurs stopString (s.textWith group)) : (s.after group).Searching :=
  ⟨searching.hasTokenizer, searching.nonempty, absent⟩

theorem inOrder_after (absent : ∀ stopString ∈ s.stop, ¬Occurs stopString (s.textWith group)) :
    s.InOrder (group :: groups) ↔ (s.after group).InOrder groups := by
  constructor
  · intro inOrder before next later split_ none stopString listed
    have earlier := inOrder (group :: before) next later (by rw [split_]; rfl)
    rw [textWith_after searching] at none listed ⊢
    exact earlier none stopString listed
  · intro inOrder before next later split_ none stopString listed
    cases before with
    | nil =>
      cases split_
      have occurs := holds_of_find? listed
      rw [List.nil_append, List.flatten_singleton] at occurs
      exact absurd occurs (absent stopString (List.mem_of_find?_eq_some listed))
    | cons first before =>
      cases split_
      have later := inOrder before next later rfl
      rw [textWith_after searching, textWith_after searching] at later
      exact later none stopString listed

theorem textWith_append (first second : List TokenId) :
    ∃ more, s.textWith (first ++ second) = s.textWith first ++ more := by
  unfold textWith
  rw [if_pos searching.hasTokenizer, if_pos searching.hasTokenizer, decode_append, ← List.append_assoc]
  exact ⟨_, rfl⟩

theorem inOrder_of_occurs {stopString : Text} {e : ℕ}
    (listed : s.stop.find? (fun stopString => Occurs stopString (s.textWith group)) = some stopString)
    (ends : EndsAt stopString (s.textWith group) e) (least : ∀ e', EndsAt stopString (s.textWith group) e' → e ≤ e') :
    s.InOrder (group :: groups) ↔ ∀ other ∈ s.stop, ∀ e', EndsAt other (s.textWith group) e' → e ≤ e' := by
  constructor
  · intro inOrder other member e' ends'
    have here := inOrder [] group groups rfl fun stopString member => by
      rw [List.flatten_nil]
      unfold textWith
      rw [if_pos searching.hasTokenizer, decode, List.append_nil]
      exact searching.new stopString member
    rw [List.nil_append, List.flatten_singleton] at here
    obtain ⟨e'', before, ends''⟩ := here stopString listed other member e' ends'
    exact (least e'' ends'').trans before
  · intro first before next later split_ none stopString' listed'
    cases before with
    | nil =>
      cases split_
      rw [List.nil_append, List.flatten_singleton] at listed' ⊢
      rw [listed] at listed'
      cases listed'
      exact fun other member e' ends' => ⟨e, first other member e' ends', ends⟩
    | cons group' before =>
      cases split_
      obtain ⟨more, text⟩ := textWith_append searching group before.flatten
      refine absurd ?_ (none stopString (List.mem_of_find?_eq_some listed))
      rw [List.flatten_cons, text]
      exact (ends.append_left more).occurs

theorem updates_searching :
    ((s.updates groups).1, (s.updates groups).2.outputText) = s.cutAtFirst (s.textWith groups.flatten) ↔
      s.InOrder groups := by
  induction groups generalizing s with
  | nil =>
    have text : s.textWith [] = s.outputText := by
      unfold textWith
      rw [if_pos searching.hasTokenizer, decode, List.append_nil]
    have none : firstCompleted s.stop s.outputText = none := by
      cases found : firstCompleted s.stop s.outputText with
      | none => rfl
      | some x =>
        obtain ⟨listed, -⟩ := firstCompleted_eq_some found
        have ends := holds_of_find? listed
        exact absurd ends.occurs (searching.new _ (List.mem_of_find?_eq_some listed))
    rw [List.flatten_nil, text]
    unfold cutAtFirst
    rw [none]
    exact ⟨fun _ before group after split_ => absurd split_ (by simp), fun _ => rfl⟩
  | cons group rest ih =>
    rcases update_new searching group with ⟨goesOn, absent⟩ | ⟨stopString, e, s', matched, listed, ends, least, text'⟩
    · have later : s.updates (group :: rest) = (s.after group).updates rest := by rw [updates, goesOn]
      rw [inOrder_after searching absent, ← ih (searching.after absent), textWith_after searching, later]
      rfl
    · obtain ⟨more, text⟩ := textWith_append searching group rest.flatten
      obtain ⟨first, e', found⟩ := firstCompleted_of_endsAt (List.mem_of_find?_eq_some listed) ends
      obtain ⟨listed', least'⟩ := firstCompleted_eq_some found
      have ends' := holds_of_find? listed'
      have stops : s.updates (group :: rest) = (some stopString, s') := by rw [updates, matched]
      have within : (if s.includeStopStrInOutput then e' else e' - first.length) ≤ (s.textWith group).length := by
        have inside := ends'.1
        split <;> omega
      have cut : s.cutAtFirst (s.textWith group ++ more) =
          (some first, (s.textWith group).take (if s.includeStopStrInOutput then e' else e' - first.length)) := by
        unfold cutAtFirst
        rw [firstCompleted_append found more]
        dsimp only
        rw [List.take_append_of_le_length within]
      rw [inOrder_of_occurs searching listed ends least, List.flatten_cons, text, stops, cut, text']
      constructor
      · intro same other member e'' ends''
        cases (Prod.mk.inj same).1
        exact (least e' ends').trans (least' other member e'' ends'')
      · intro inOrder
        have early := inOrder first (List.mem_of_find?_eq_some listed') e' ends'
        have late := least' stopString (List.mem_of_find?_eq_some listed) e ends
        have same : e' = e := Nat.le_antisymm late early
        subst same
        have first_ := find?_of_weaker (q := fun s' => decide (EndsAt s' (s.textWith group) e'))
          (fun s' _ ends => decide_eq_true (of_decide_eq_true ends).occurs) listed (decide_eq_true ends)
        rw [listed'] at first_
        cases first_
        rfl

end

theorem updates_without (without : s.hasTokenizer = false) (groups : List (List TokenId)) :
    (s.updates groups).1 = none ∧ (s.updates groups).2.outputText = s.outputText := by
  induction groups generalizing s with
  | nil => exact ⟨rfl, rfl⟩
  | cons group rest ih =>
    have update : s.update group = (none, { s with tokenIds := s.tokenIds ++ group }) := by
      unfold IncrementalDetokenizer.update
      rw [without]
      rfl
    have later : s.updates (group :: rest) = updates { s with tokenIds := s.tokenIds ++ group } rest := by
      rw [updates, update]
    rw [later]
    exact ih without

/-- However its tokens are grouped, the text is cut at the stop string that is completed first, just when in the group
that completes one the first in the list is not completed after others. -/
theorem updates_fromNewRequest (request : EngineCoreRequest) (nonempty : [] ∉ request.samplingParams.stop)
    (groups : List (List TokenId)) :
    (((fromNewRequest request).updates groups).1, ((fromNewRequest request).updates groups).2.outputText) =
        (fromNewRequest request).cutAtFirst ((fromNewRequest request).textWith groups.flatten) ↔
      (fromNewRequest request).InOrder groups := by
  unfold fromNewRequest
  dsimp only
  split
  · apply updates_searching
    refine ⟨rfl, nonempty, fun stopString member => ?_⟩
    rintro ⟨e, inside, ends⟩
    have empty : stopString = [] := List.eq_nil_of_length_eq_zero (Nat.le_zero.mp (ends.length_le.trans inside))
    exact nonempty (empty ▸ member)
  · obtain ⟨none, text⟩ := @updates_without _ { tokenIds := [] } rfl groups
    rw [none, text]
    exact ⟨fun _ before group after split_ absent stopString listed => absurd listed (by simp), fun _ => rfl⟩

end IncrementalDetokenizer

namespace IncrementalDetokenizer

-- the tokens of a text of two letters

local instance letters : Tokenizer where
  newText tokenIds := if tokenIds.getLast? = some 1 then ['a'] else ['b']

def stopsAt (stop : List Text) : IncrementalDetokenizer :=
  .fromNewRequest { requestId := "0", promptTokenIds := [0], samplingParams := { stop } }

theorem updates_fromNewRequest_overlapping :
    (((stopsAt ["ab".toList, "bb".toList]).updates [[1], [2, 2]]).1,
        ((stopsAt ["ab".toList, "bb".toList]).updates [[1], [2, 2]]).2.outputText) = (some "ab".toList, []) ∧
      ((((stopsAt ["ab".toList, "bb".toList]).updates [[1], [2, 2]]).1,
          ((stopsAt ["ab".toList, "bb".toList]).updates [[1], [2, 2]]).2.outputText) =
          (stopsAt ["ab".toList, "bb".toList]).cutAtFirst
            ((stopsAt ["ab".toList, "bb".toList]).textWith [[1], [2, 2]].flatten) ↔
        (stopsAt ["ab".toList, "bb".toList]).InOrder [[1], [2, 2]]) :=
  ⟨by decide, updates_fromNewRequest _ (by decide) _⟩

/-- The same tokens, one for each update or two for one, end in different texts, for different reasons. -/
theorem updates_depend_on_groups : (((stopsAt ["b".toList, "a".toList]).updates [[1], [2]]).1,
        ((stopsAt ["b".toList, "a".toList]).updates [[1], [2]]).2.outputText) = (some "a".toList, []) ∧
      (((stopsAt ["b".toList, "a".toList]).updates [[1, 2]]).1,
        ((stopsAt ["b".toList, "a".toList]).updates [[1, 2]]).2.outputText) = (some "b".toList, "a".toList) ∧
      (stopsAt ["b".toList, "a".toList]).cutAtFirst
        ((stopsAt ["b".toList, "a".toList]).textWith [1, 2]) = (some "a".toList, []) := by
  decide

end IncrementalDetokenizer
end Vllm.Frontend
