import VllmProofs.Multimodal.PromptUpdates

/-!
`find_mm_placeholders`: a scan for the contents of the items of all modalities, each modality's in order. It
finds disjoint places, and every item when nothing else in the prompt looks like the next item of a modality.
-/

namespace Vllm.Multimodal

structure PlaceholderFeaturesInfo (κ α : Type) where
  modality : κ
  itemIdx : ℕ
  startIdx : ℕ
  tokens : List α
  deriving DecidableEq, Repr

def PlaceholderFeaturesInfo.length {κ α : Type} (p : PlaceholderFeaturesInfo κ α) : ℕ := p.tokens.length

structure NotSubsequence (α : Type) where
  contentTokensFeat : List α
  contentTokensFull : List α
  deriving DecidableEq, Repr

section
variable {κ α : Type} [DecidableEq α]

/-- The updates of a modality are tried in turn; the placeholder, and the end of the full content. -/
def tryUpdates (prompt : List α) (startIdx : ℕ) (modality : κ) (itemIdx : ℕ) :
    List (BoundPromptUpdate κ α) → Except (NotSubsequence α) (Option (PlaceholderFeaturesInfo κ α × ℕ))
  | [] => .ok none
  | update :: rest =>
    let content := update.getContent itemIdx
    let endIdxFull := startIdx + content.full.length
    if content.full.length = 0 ∨ prompt.length < endIdxFull then tryUpdates prompt startIdx modality itemIdx rest
    else if slice prompt startIdx endIdxFull = content.full then
      match (iterTokenMatches content.full content.features).head? with
      | some found => .ok (some (⟨modality, itemIdx, startIdx + found.1, content.features⟩, endIdxFull))
      | none => .error ⟨content.features, content.full⟩
    else tryUpdates prompt startIdx modality itemIdx rest

variable [DecidableEq κ]

def tryModalities (prompt : List α) (mmItemCounts : κ → ℕ) (startIdx : ℕ) (itemIdxByModality : κ → ℕ) :
    List (κ × List (BoundPromptUpdate κ α)) → Except (NotSubsequence α) (Option (PlaceholderFeaturesInfo κ α × ℕ))
  | [] => .ok none
  | (modality, modalityUpdates) :: rest =>
    let itemIdx := itemIdxByModality modality
    if mmItemCounts modality ≤ itemIdx then tryModalities prompt mmItemCounts startIdx itemIdxByModality rest
    else do
      match ← tryUpdates prompt startIdx modality itemIdx modalityUpdates with
      | some found => return some found
      | none => tryModalities prompt mmItemCounts startIdx itemIdxByModality rest

variable (mmPromptUpdates : List (κ × List (BoundPromptUpdate κ α))) (prompt : List α) (mmItemCounts : κ → ℕ)

/-- The loop of `_iter_placeholders`; there is no result if it goes on after so many rounds. -/
def iterPlaceholders : ℕ → ℕ → (κ → ℕ) → Option (Except (NotSubsequence α) (List (PlaceholderFeaturesInfo κ α)))
  | rounds, startIdx, itemIdxByModality =>
    if startIdx < prompt.length then
      match rounds with
      | 0 => none
      | rounds + 1 =>
        match tryModalities prompt mmItemCounts startIdx itemIdxByModality mmPromptUpdates with
        | .error e => some (.error e)
        | .ok none => iterPlaceholders rounds (startIdx + 1) itemIdxByModality
        | .ok (some (placeholder, endIdxFull)) =>
          (iterPlaceholders rounds endIdxFull (Function.update itemIdxByModality placeholder.modality
            (itemIdxByModality placeholder.modality + 1))).map (Except.map (placeholder :: ·))
    else some (.ok [])

/-- `full_groupby_modality`: the modalities in the order in which they first come. -/
def fullGroupbyModality (placeholders : List (PlaceholderFeaturesInfo κ α)) :
    List (κ × List (PlaceholderFeaturesInfo κ α)) :=
  (placeholders.map PlaceholderFeaturesInfo.modality).eraseDups.map fun modality =>
    (modality, placeholders.filter fun p => p.modality = modality)

/-- A round goes on by one position at least. -/
def findMmPlaceholders : Option (Except (NotSubsequence α) (List (κ × List (PlaceholderFeaturesInfo κ α)))) :=
  (iterPlaceholders mmPromptUpdates prompt mmItemCounts prompt.length 0 fun _ => 0).map (Except.map fullGroupbyModality)

end
end Vllm.Multimodal

namespace Vllm.Multimodal

variable {κ α : Type}

/-! ### Occurrences -/

/-- A content that is not empty stands at this place. -/
def Occurs (prompt : List α) (startIdx : ℕ) (content : List α) : Prop :=
  content ≠ [] ∧ startIdx + content.length ≤ prompt.length ∧ slice prompt startIdx (startIdx + content.length) = content

theorem slice_of_slice {prompt content : List α} {start first last : ℕ}
    (there : slice prompt start (start + content.length) = content) (inside : last ≤ content.length) :
    slice prompt (start + first) (start + last) = slice content first last := by
  conv_rhs => rw [← there]
  unfold slice
  rw [List.take_drop, List.drop_drop, List.take_take, min_eq_left (by omega)]

section
variable [DecidableEq α] {rounds : ℕ}

theorem iterTokenMatchesFrom_mem {tokenIds matchIds : List α} {startIdx : ℕ} {found : ℕ × ℕ}
    (member : found ∈ iterTokenMatchesFrom tokenIds matchIds rounds startIdx) :
    found.2 = found.1 + matchIds.length ∧ found.2 ≤ tokenIds.length ∧ slice tokenIds found.1 found.2 = matchIds := by
  induction rounds generalizing startIdx with
  | zero => cases member
  | succ rounds ih =>
    unfold iterTokenMatchesFrom at member
    split at member
    · rename_i inside
      split at member
      · rename_i same
        rcases List.mem_cons.mp member with rfl | member
        · exact ⟨rfl, inside, same⟩
        · exact ih member
      · exact ih member
    · cases member

theorem iterTokenMatchesFrom_ne_nil {tokenIds matchIds : List α} {startIdx place : ℕ}
    (inside : place + matchIds.length ≤ tokenIds.length) (occurs : slice tokenIds place (place + matchIds.length) = matchIds)
    (ahead : startIdx ≤ place) (enough : place < startIdx + rounds) :
    iterTokenMatchesFrom tokenIds matchIds rounds startIdx ≠ [] := by
  induction rounds generalizing startIdx with
  | zero => omega
  | succ rounds ih =>
    unfold iterTokenMatchesFrom
    rw [if_pos (by omega)]
    split
    · exact List.cons_ne_nil _ _
    · rename_i other
      have later : startIdx ≠ place := by
        rintro rfl
        exact other occurs
      exact ih (by omega) (by omega)

theorem iterTokenMatches_ne_nil {full features : List α} (nonempty : features ≠ []) (infix_ : features <:+: full) :
    iterTokenMatches full features ≠ [] := by
  obtain ⟨before, after, rfl⟩ := infix_
  unfold iterTokenMatches
  rw [if_neg nonempty]
  refine @iterTokenMatchesFrom_ne_nil _ _ _ _ _ _ before.length ?_ ?_ (Nat.zero_le _) ?_
  · simp
  · unfold slice
    rw [List.append_assoc, ← List.length_append, ← List.append_assoc, List.take_left, List.drop_left]
  · simp only [List.length_append]
    omega

theorem iterTokenMatches_head {full features : List α} {found : ℕ × ℕ}
    (head : (iterTokenMatches full features).head? = some found) :
    features ≠ [] ∧ found.1 + features.length ≤ full.length ∧ slice full found.1 (found.1 + features.length) = features := by
  have member := List.mem_of_head? head
  unfold iterTokenMatches at member
  split at member
  · cases member
  · rename_i nonempty
    obtain ⟨ends, inside, same⟩ := iterTokenMatchesFrom_mem member
    rw [ends] at inside same
    exact ⟨nonempty, inside, same⟩

/-! ### One round -/

variable {prompt : List α} {startIdx : ℕ} {modality : κ} {itemIdx : ℕ} {updates : List (BoundPromptUpdate κ α)}

structure FoundAt (prompt : List α) (startIdx : ℕ) (modality : κ) (itemIdx : ℕ) (content : PromptContent α)
    (found : PlaceholderFeaturesInfo κ α × ℕ) : Prop where
  occurs : Occurs prompt startIdx content.full
  stop : found.2 = startIdx + content.full.length
  placeholder : ∃ first, (iterTokenMatches content.full content.features).head? = some first ∧
    found.1 = ⟨modality, itemIdx, startIdx + first.1, content.features⟩

/-- The features are not part of the full content, which stands here. -/
def Unmatched (prompt : List α) (startIdx : ℕ) (content : PromptContent α) : Prop :=
  Occurs prompt startIdx content.full ∧ iterTokenMatches content.full content.features = []

/-- What trying some contents may come to. -/
def Tried (Content : κ → ℕ → PromptContent α → Prop) (prompt : List α) (startIdx : ℕ) :
    Except (NotSubsequence α) (Option (PlaceholderFeaturesInfo κ α × ℕ)) → Prop
  | .error _ => ∃ modality itemIdx content, Content modality itemIdx content ∧ Unmatched prompt startIdx content
  | .ok none => ∀ modality itemIdx content, Content modality itemIdx content → ¬Occurs prompt startIdx content.full
  | .ok (some found) => ∃ modality itemIdx content, Content modality itemIdx content ∧
      FoundAt prompt startIdx modality itemIdx content found

theorem Tried.more {Content Content' : κ → ℕ → PromptContent α → Prop}
    {result : Except (NotSubsequence α) (Option (PlaceholderFeaturesInfo κ α × ℕ))} (tried : Tried Content prompt startIdx result)
    (more : ∀ m i content, Content m i content → Content' m i content)
    (others : ∀ m i content, Content' m i content → Content m i content ∨ ¬Occurs prompt startIdx content.full) :
    Tried Content' prompt startIdx result := by
  match result with
  | .error _ =>
    obtain ⟨m, i, content, known, unmatched⟩ := tried
    exact ⟨m, i, content, more m i content known, unmatched⟩
  | .ok none =>
    intro m i content known
    rcases others m i content known with before | absent
    · exact tried m i content before
    · exact absent
  | .ok (some found) =>
    obtain ⟨m, i, content, known, foundAt⟩ := tried
    exact ⟨m, i, content, more m i content known, foundAt⟩

theorem tryUpdates_tried : Tried (fun m i content => m = modality ∧ i = itemIdx ∧ ∃ u ∈ updates, u.getContent itemIdx = content)
    prompt startIdx (tryUpdates prompt startIdx modality itemIdx updates) := by
  induction updates with
  | nil =>
    rintro _ _ _ ⟨-, -, u, member, -⟩
    cases member
  | cons u rest ih =>
    have skipped (absent : ¬Occurs prompt startIdx (u.getContent itemIdx).full) :
        Tried (fun m i content => m = modality ∧ i = itemIdx ∧ ∃ v ∈ u :: rest, v.getContent itemIdx = content)
          prompt startIdx (tryUpdates prompt startIdx modality itemIdx rest) := by
      refine ih.more ?_ ?_
      · rintro m i content ⟨same, same', v, member, known⟩
        exact ⟨same, same', v, List.mem_cons_of_mem _ member, known⟩
      · rintro m i content ⟨same, same', v, member, rfl⟩
        rcases List.mem_cons.mp member with rfl | member
        · exact Or.inr absent
        · exact Or.inl ⟨same, same', v, member, rfl⟩
    unfold tryUpdates
    dsimp only
    split
    · rename_i outside
      refine skipped fun occurs => ?_
      obtain ⟨nonempty, inside, -⟩ := occurs
      have positive := List.length_pos_iff.mpr nonempty
      omega
    · rename_i inside
      rw [not_or, not_lt] at inside
      split
      · rename_i same
        have occurs : Occurs prompt startIdx (u.getContent itemIdx).full :=
          ⟨fun empty => inside.1 (List.length_eq_zero_iff.mpr empty), inside.2, same⟩
        split
        · rename_i found head
          exact ⟨modality, itemIdx, _, ⟨rfl, rfl, u, List.mem_cons_self, rfl⟩, occurs, rfl, found, head, rfl⟩
        · rename_i none
          exact ⟨modality, itemIdx, _, ⟨rfl, rfl, u, List.mem_cons_self, rfl⟩, occurs, List.head?_eq_none_iff.mp none⟩
      · rename_i other
        exact skipped fun occurs => other occurs.2.2

variable {mmItemCounts next : κ → ℕ} {mmPromptUpdates : List (κ × List (BoundPromptUpdate κ α))}

def NextContent (mmPromptUpdates : List (κ × List (BoundPromptUpdate κ α))) (mmItemCounts next : κ → ℕ) (modality : κ)
    (itemIdx : ℕ) (content : PromptContent α) : Prop :=
  ∃ updates, (modality, updates) ∈ mmPromptUpdates ∧ itemIdx = next modality ∧ itemIdx < mmItemCounts modality ∧
    ∃ u ∈ updates, u.getContent itemIdx = content

theorem tryModalities_tried : Tried (NextContent mmPromptUpdates mmItemCounts next) prompt startIdx
    (tryModalities prompt mmItemCounts startIdx next mmPromptUpdates) := by
  induction mmPromptUpdates with
  | nil =>
    rintro _ _ _ ⟨_, member, -⟩
    cases member
  | cons entry rest ih =>
    obtain ⟨modality, updates⟩ := entry
    have widen : ∀ m i content, NextContent rest mmItemCounts next m i content →
        NextContent ((modality, updates) :: rest) mmItemCounts next m i content := by
      rintro m i content ⟨updates', member, known⟩
      exact ⟨updates', List.mem_cons_of_mem _ member, known⟩
    unfold tryModalities
    dsimp only
    split
    · rename_i done
      refine ih.more widen ?_
      rintro m i content ⟨updates', member, rfl, more, known⟩
      rcases List.mem_cons.mp member with same | member
      · cases same
        omega
      · exact Or.inl ⟨updates', member, rfl, more, known⟩
    · rename_i more
      have tried := @tryUpdates_tried _ _ _ prompt startIdx modality (next modality) updates
      have own : ∀ m i content, (m = modality ∧ i = next modality ∧ ∃ u ∈ updates, u.getContent (next modality) = content) →
          NextContent ((modality, updates) :: rest) mmItemCounts next m i content := by
        rintro m i content ⟨rfl, rfl, known⟩
        exact ⟨updates, List.mem_cons_self, rfl, Nat.lt_of_not_le more, known⟩
      cases result : tryUpdates prompt startIdx modality (next modality) updates with
      | error e =>
        rw [result] at tried
        obtain ⟨m, i, content, known, unmatched⟩ := tried
        exact ⟨m, i, content, own m i content known, unmatched⟩
      | ok option =>
        rw [result] at tried
        cases option with
        | some found =>
          obtain ⟨m, i, content, known, foundAt⟩ := tried
          exact ⟨m, i, content, own m i content known, foundAt⟩
        | none =>
          refine ih.more widen ?_
          rintro m i content ⟨updates', member, rfl, more, known⟩
          rcases List.mem_cons.mp member with same | member
          · cases same
            exact Or.inr (tried _ _ content ⟨rfl, rfl, known⟩)
          · exact Or.inl ⟨updates', member, rfl, more, known⟩

/-! ### The scan -/

/-- A placeholder stands for an item: its tokens are in the prompt, inside the full content of the item. -/
def Placed (mmPromptUpdates : List (κ × List (BoundPromptUpdate κ α))) (prompt : List α)
    (p : PlaceholderFeaturesInfo κ α) : Prop :=
  ∃ updates, (p.modality, updates) ∈ mmPromptUpdates ∧ ∃ u ∈ updates, ∃ fullStart,
    Occurs prompt fullStart (u.getContent p.itemIdx).full ∧ (u.getContent p.itemIdx).features = p.tokens ∧
    Occurs prompt p.startIdx p.tokens ∧ fullStart ≤ p.startIdx ∧
    p.startIdx + p.length ≤ fullStart + (u.getContent p.itemIdx).full.length

variable {content : PromptContent α} {found : PlaceholderFeaturesInfo κ α × ℕ}

theorem FoundAt.inside (foundAt : FoundAt prompt startIdx modality itemIdx content found) :
    Occurs prompt found.1.startIdx found.1.tokens ∧ content.features = found.1.tokens ∧ startIdx ≤ found.1.startIdx ∧
      found.1.startIdx + found.1.length ≤ found.2 := by
  obtain ⟨⟨-, fits, there⟩, stop, first, head, eq⟩ := foundAt
  obtain ⟨nonempty, inside, part⟩ := iterTokenMatches_head head
  have length : found.1.length = content.features.length := by rw [PlaceholderFeaturesInfo.length, eq]
  rw [length, stop, eq]
  refine ⟨⟨nonempty, ?_, ?_⟩, rfl, Nat.le_add_right _ _, ?_⟩
  · dsimp only
    omega
  · dsimp only
    rw [Nat.add_assoc, slice_of_slice there inside, part]
  · dsimp only
    omega

variable [DecidableEq κ]

/-- The placeholders from a place on, given the indices of the next items -/
structure Scanned (mmPromptUpdates : List (κ × List (BoundPromptUpdate κ α))) (prompt : List α) (mmItemCounts : κ → ℕ)
    (startIdx : ℕ) (next : κ → ℕ) (placeholders : List (PlaceholderFeaturesInfo κ α)) : Prop where
  placed : ∀ p ∈ placeholders, Placed mmPromptUpdates prompt p
  ahead : ∀ p ∈ placeholders, startIdx ≤ p.startIdx
  increasing : placeholders.Pairwise fun p q => p.startIdx + p.length ≤ q.startIdx
  numbered : ∀ m, (placeholders.filter (·.modality = m)).map (·.itemIdx) =
    List.range' (next m) (placeholders.filter (·.modality = m)).length
  counted : ∀ m, (placeholders.filter (·.modality = m)).length ≤ mmItemCounts m - next m

variable {placeholders : List (PlaceholderFeaturesInfo κ α)}

omit [DecidableEq α] in
theorem Scanned.skip
    (scanned : Scanned mmPromptUpdates prompt mmItemCounts (startIdx + 1) next placeholders) :
    Scanned mmPromptUpdates prompt mmItemCounts startIdx next placeholders where
  __ := scanned
  ahead p member := Nat.le_of_succ_le (scanned.ahead p member)

/-- One more placeholder, for the next item of its modality -/
theorem Scanned.cons (known : NextContent mmPromptUpdates mmItemCounts next modality itemIdx content)
    (foundAt : FoundAt prompt startIdx modality itemIdx content found)
    (scanned : Scanned mmPromptUpdates prompt mmItemCounts found.2 (Function.update next modality (next modality + 1)) placeholders) :
    Scanned mmPromptUpdates prompt mmItemCounts startIdx next (found.1 :: placeholders) := by
  obtain ⟨tokens, features, first, last⟩ := foundAt.inside
  obtain ⟨-, stop, _, -, eq⟩ := id foundAt
  have own : found.1.modality = modality ∧ found.1.itemIdx = itemIdx := by
    rw [eq]
    exact ⟨rfl, rfl⟩
  obtain ⟨updates, member, rfl, more, u, member', rfl⟩ := known
  refine ⟨?_, ?_, ?_, ?_, ?_⟩
  · rintro p (_ | ⟨_, later⟩)
    · refine ⟨updates, own.1 ▸ member, u, member', startIdx, ?_⟩
      rw [own.2]
      exact ⟨foundAt.occurs, features, tokens, first, stop ▸ last⟩
    · exact scanned.placed p later
  · rintro p (_ | ⟨_, later⟩)
    · exact first
    · have := scanned.ahead p later
      omega
  · refine List.pairwise_cons.mpr ⟨fun q later => ?_, scanned.increasing⟩
    exact last.trans (scanned.ahead q later)
  · intro m
    have rest := scanned.numbered m
    rw [List.filter_cons]
    by_cases same : modality = m
    · subst same
      rw [Function.update_self] at rest
      simp only [own.1, decide_true, if_true, List.map_cons, List.length_cons, List.range'_succ, own.2, rest]
    · rw [Function.update_of_ne (Ne.symm same)] at rest
      simp only [own.1, same, decide_false, Bool.false_eq_true, if_false, rest]
  · intro m
    have rest := scanned.counted m
    rw [List.filter_cons]
    by_cases same : modality = m
    · subst same
      rw [Function.update_self] at rest
      simp only [own.1, decide_true, if_true, List.length_cons]
      omega
    · rw [Function.update_of_ne (Ne.symm same)] at rest
      simpa only [own.1, same, decide_false, Bool.false_eq_true, if_false] using rest

/-- What the scan comes to: it stops, at the latest, at a content whose features are not part of it. -/
def ScanResult (mmPromptUpdates : List (κ × List (BoundPromptUpdate κ α))) (prompt : List α) (mmItemCounts : κ → ℕ)
    (startIdx : ℕ) (next : κ → ℕ) : Except (NotSubsequence α) (List (PlaceholderFeaturesInfo κ α)) → Prop
  | .error _ => ∃ modality updates u itemIdx place, (modality, updates) ∈ mmPromptUpdates ∧ u ∈ updates ∧
      itemIdx < mmItemCounts modality ∧ Unmatched prompt place (u.getContent itemIdx)
  | .ok placeholders => Scanned mmPromptUpdates prompt mmItemCounts startIdx next placeholders

theorem iterPlaceholders_result (enough : prompt.length ≤ startIdx + rounds) :
    ∃ result, iterPlaceholders mmPromptUpdates prompt mmItemCounts rounds startIdx next = some result ∧
      ScanResult mmPromptUpdates prompt mmItemCounts startIdx next result := by
  induction rounds generalizing startIdx next with
  | zero =>
    unfold iterPlaceholders
    rw [if_neg (by omega)]
    exact ⟨_, rfl, by constructor <;> simp⟩
  | succ rounds ih =>
    unfold iterPlaceholders
    split
    · have tried := @tryModalities_tried _ _ _ prompt startIdx mmItemCounts next mmPromptUpdates
      dsimp only
      cases round : tryModalities prompt mmItemCounts startIdx next mmPromptUpdates with
      | error e =>
        rw [round] at tried
        obtain ⟨m, _, _, ⟨updates, member, rfl, more, u, member', rfl⟩, unmatched⟩ := tried
        exact ⟨_, rfl, m, updates, u, _, startIdx, member, member', more, unmatched⟩
      | ok option =>
        rw [round] at tried
        cases option with
        | none =>
          obtain ⟨result, eq, right⟩ := @ih (startIdx + 1) next (by omega)
          refine ⟨result, eq, ?_⟩
          cases result with
          | error e => exact right
          | ok placeholders => exact Scanned.skip right
        | some found =>
          obtain ⟨m, i, content, known, foundAt⟩ := tried
          obtain ⟨placeholder, stop⟩ := found
          obtain ⟨_, ends, _, -, eq⟩ := id foundAt
          have onward := List.length_pos_iff.mpr foundAt.occurs.1
          obtain ⟨result, run, right⟩ := @ih stop (Function.update next m (next m + 1)) (by omega)
          have own : placeholder.modality = m := by rw [show placeholder = _ from eq]
          refine ⟨result.map (placeholder :: ·), ?_, ?_⟩
          · dsimp only
            rw [own, run]
            rfl
          · cases result with
            | error e => exact right
            | ok placeholders => exact Scanned.cons known foundAt right
    · exact ⟨_, rfl, by constructor <;> simp⟩

end
end Vllm.Multimodal
