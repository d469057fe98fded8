import VllmProofs.Multimodal.PlaceholderScan

/-!
`find_mm_placeholders` on a prompt that is put together from text and the contents of items.
-/

namespace Vllm.Multimodal

variable {κ α : Type}

/-- A part of a prompt: text, or the next item of a modality, as this update puts it there. -/
inductive Segment (κ α : Type) where
  | text (tokens : List α)
  | item (modality : κ) (update : BoundPromptUpdate κ α)

/-- Where the features of an item are found in its content. -/
def featuresStart [DecidableEq α] (content : PromptContent α) : ℕ :=
  match (iterTokenMatches content.full content.features).head? with
  | some first => first.1
  | none => 0

section
variable [DecidableEq κ]

def layout : List (Segment κ α) → (κ → ℕ) → List α
  | [], _ => []
  | .text tokens :: rest, next => tokens ++ layout rest next
  | .item modality update :: rest, next => (update.getContent (next modality)).full ++
      layout rest (Function.update next modality (next modality + 1))

variable [DecidableEq α]

def layoutPlaceholders : List (Segment κ α) → ℕ → (κ → ℕ) → List (PlaceholderFeaturesInfo κ α)
  | [], _, _ => []
  | .text tokens :: rest, place, next => layoutPlaceholders rest (place + tokens.length) next
  | .item modality update :: rest, place, next =>
    let content := update.getContent (next modality)
    ⟨modality, next modality, place + featuresStart content, content.features⟩ ::
      layoutPlaceholders rest (place + content.full.length) (Function.update next modality (next modality + 1))

end

/-- No content of a next item stands here. -/
def Quiet (mmPromptUpdates : List (κ × List (BoundPromptUpdate κ α))) (prompt : List α) (mmItemCounts : κ → ℕ)
    (next : κ → ℕ) (place : ℕ) : Prop :=
  ∀ m i content, NextContent mmPromptUpdates mmItemCounts next m i content → ¬Occurs prompt place content.full

structure StandsAlone (mmPromptUpdates : List (κ × List (BoundPromptUpdate κ α))) (prompt : List α)
    (mmItemCounts : κ → ℕ) (next : κ → ℕ) (place : ℕ) (modality : κ) (update : BoundPromptUpdate κ α) : Prop where
  known : ∃ updates, (modality, updates) ∈ mmPromptUpdates ∧ update ∈ updates
  more : next modality < mmItemCounts modality
  nonempty : (update.getContent (next modality)).full ≠ []
  features : (update.getContent (next modality)).features ≠ []
  part : (update.getContent (next modality)).features <:+: (update.getContent (next modality)).full
  alone : ∀ m i content, NextContent mmPromptUpdates mmItemCounts next m i content → Occurs prompt place content.full →
    m = modality ∧ content = update.getContent (next modality)

/-- Nothing but the items themselves looks like the next item of a modality. -/
def Unambiguous [DecidableEq κ] (mmPromptUpdates : List (κ × List (BoundPromptUpdate κ α))) (prompt : List α)
    (mmItemCounts : κ → ℕ) : List (Segment κ α) → ℕ → (κ → ℕ) → Prop
  | [], _, _ => True
  | .text tokens :: rest, place, next =>
    (∀ position, place ≤ position → position < place + tokens.length →
      Quiet mmPromptUpdates prompt mmItemCounts next position) ∧
    Unambiguous mmPromptUpdates prompt mmItemCounts rest (place + tokens.length) next
  | .item modality update :: rest, place, next =>
    StandsAlone mmPromptUpdates prompt mmItemCounts next place modality update ∧
    Unambiguous mmPromptUpdates prompt mmItemCounts rest (place + (update.getContent (next modality)).full.length)
      (Function.update next modality (next modality + 1))

section
variable [DecidableEq α] {prompt : List α} {mmItemCounts next : κ → ℕ}
  {mmPromptUpdates : List (κ × List (BoundPromptUpdate κ α))} {place : ℕ} {modality : κ} {update : BoundPromptUpdate κ α}

theorem tryModalities_quiet (quiet : Quiet mmPromptUpdates prompt mmItemCounts next place) :
    tryModalities prompt mmItemCounts place next mmPromptUpdates = .ok none := by
  have tried := @tryModalities_tried _ _ _ prompt place mmItemCounts next mmPromptUpdates
  match result : tryModalities prompt mmItemCounts place next mmPromptUpdates with
  | .error e =>
    rw [result] at tried
    obtain ⟨m, i, content, known, occurs, -⟩ := tried
    exact absurd occurs (quiet m i content known)
  | .ok none => rfl
  | .ok (some found) =>
    rw [result] at tried
    obtain ⟨m, i, content, known, foundAt⟩ := tried
    exact absurd foundAt.occurs (quiet m i content known)

theorem tryModalities_alone (standsAlone : StandsAlone mmPromptUpdates prompt mmItemCounts next place modality update)
    (occurs : Occurs prompt place (update.getContent (next modality)).full) :
    tryModalities prompt mmItemCounts place next mmPromptUpdates =
      .ok (some (⟨modality, next modality, place + featuresStart (update.getContent (next modality)),
        (update.getContent (next modality)).features⟩, place + (update.getContent (next modality)).full.length)) := by
  obtain ⟨updates, member, member'⟩ := standsAlone.known
  have tried := @tryModalities_tried _ _ _ prompt place mmItemCounts next mmPromptUpdates
  match result : tryModalities prompt mmItemCounts place next mmPromptUpdates with
  | .error e =>
    rw [result] at tried
    obtain ⟨m, i, content, known, occurs', unmatched⟩ := tried
    obtain ⟨-, rfl⟩ := standsAlone.alone m i content known occurs'
    exact absurd unmatched (iterTokenMatches_ne_nil standsAlone.features standsAlone.part)
  | .ok none =>
    rw [result] at tried
    exact absurd occurs (tried modality _ _ ⟨updates, member, rfl, standsAlone.more, update, member', rfl⟩)
  | .ok (some found) =>
    rw [result] at tried
    obtain ⟨m, i, content, known, foundAt⟩ := tried
    obtain ⟨rfl, rfl⟩ := standsAlone.alone m i content known foundAt.occurs
    obtain ⟨-, -, rfl, -⟩ := known
    obtain ⟨placeholder, stop⟩ := found
    obtain ⟨-, ends, first, head, eq⟩ := foundAt
    have at_ : featuresStart (update.getContent (next m)) = first.1 := by rw [featuresStart, head]
    rw [at_, ← eq, ← ends]

variable [DecidableEq κ]

theorem iterPlaceholders_text {rounds count : ℕ} (inside : place + count ≤ prompt.length)
    (quiet : ∀ position, place ≤ position → position < place + count →
      Quiet mmPromptUpdates prompt mmItemCounts next position) :
    iterPlaceholders mmPromptUpdates prompt mmItemCounts (rounds + count) place next =
      iterPlaceholders mmPromptUpdates prompt mmItemCounts rounds (place + count) next := by
  induction count generalizing place with
  | zero => rfl
  | succ count ih =>
    rw [← Nat.add_assoc, iterPlaceholders, if_pos (by omega)]
    rw [tryModalities_quiet (quiet place (Nat.le_refl _) (by omega))]
    dsimp only
    rw [ih (by omega) fun position after before => quiet position (by omega) (by omega), Nat.add_right_comm, Nat.add_assoc]

theorem iterPlaceholders_layout {segments : List (Segment κ α)} {rounds : ℕ} (within : place ≤ prompt.length)
    (rest : prompt.drop place = layout segments next) (enough : prompt.length ≤ place + rounds)
    (unambiguous : Unambiguous mmPromptUpdates prompt mmItemCounts segments place next) :
    iterPlaceholders mmPromptUpdates prompt mmItemCounts rounds place next =
      some (.ok (layoutPlaceholders segments place next)) := by
  induction segments generalizing place next rounds with
  | nil =>
    have over_ := List.drop_eq_nil_iff.mp rest
    unfold iterPlaceholders
    rw [if_neg (by omega)]
    rfl
  | cons segment segments ih =>
    have length := congrArg List.length rest
    rw [List.length_drop] at length
    cases segment with
    | text tokens =>
      obtain ⟨quiet, unambiguous⟩ := unambiguous
      rw [layout] at rest length
      rw [List.length_append] at length
      obtain ⟨rounds, rfl⟩ : ∃ k, rounds = k + tokens.length := ⟨rounds - tokens.length, by omega⟩
      rw [iterPlaceholders_text (by omega) quiet]
      refine ih (by omega) ?_ (by omega) unambiguous
      rw [← List.drop_drop, rest, List.drop_left]
    | item modality update =>
      obtain ⟨standsAlone, unambiguous⟩ := unambiguous
      rw [layout] at rest length
      rw [List.length_append] at length
      have onward := List.length_pos_iff.mpr standsAlone.nonempty
      have occurs : Occurs prompt place (update.getContent (next modality)).full := by
        refine ⟨standsAlone.nonempty, by omega, ?_⟩
        rw [slice, ← List.take_drop, rest, List.take_left]
      obtain ⟨rounds, rfl⟩ : ∃ k, rounds = k + 1 := ⟨rounds - 1, by omega⟩
      rw [iterPlaceholders, if_pos (by omega)]
      rw [tryModalities_alone standsAlone occurs]
      dsimp only
      rw [ih (by omega) ?_ (by omega) unambiguous]
      · rfl
      · rw [← List.drop_drop, rest, List.drop_left]

/-- The scan ends. It finds disjoint places inside contents of the items, in order, unless the features of a content
that stands in the prompt are not part of it; and every item, where only the items look like the next item of a
modality. -/
theorem findMmPlaceholders_found (mmPromptUpdates : List (κ × List (BoundPromptUpdate κ α))) (prompt : List α)
    (mmItemCounts : κ → ℕ) :
    (∃ result, findMmPlaceholders mmPromptUpdates prompt mmItemCounts = some result ∧
      match result with
      | .error _ => ∃ modality updates u itemIdx place, (modality, updates) ∈ mmPromptUpdates ∧ u ∈ updates ∧
          itemIdx < mmItemCounts modality ∧ Occurs prompt place (u.getContent itemIdx).full ∧
          ((u.getContent itemIdx).features = [] ∨ ¬(u.getContent itemIdx).features <:+: (u.getContent itemIdx).full)
      | .ok groups => ∃ placeholders, groups = fullGroupbyModality placeholders ∧
          Scanned mmPromptUpdates prompt mmItemCounts 0 (fun _ => 0) placeholders) ∧
    ∀ segments, prompt = layout segments (fun _ => 0) →
      Unambiguous mmPromptUpdates prompt mmItemCounts segments 0 (fun _ => 0) →
      findMmPlaceholders mmPromptUpdates prompt mmItemCounts =
        some (.ok (fullGroupbyModality (layoutPlaceholders segments 0 fun _ => 0))) := by
  refine ⟨?_, ?_⟩
  · obtain ⟨result, run, right⟩ := @iterPlaceholders_result _ _ _ prompt.length prompt 0 mmItemCounts (fun _ => 0) mmPromptUpdates _ (by omega)
    refine ⟨result.map fullGroupbyModality, by rw [findMmPlaceholders, run]; rfl, ?_⟩
    cases result with
    | error e =>
      obtain ⟨modality, updates, u, itemIdx, place, member, member', more, occurs, unmatched⟩ := right
      refine ⟨modality, updates, u, itemIdx, place, member, member', more, occurs, ?_⟩
      by_contra both
      rw [not_or, not_not] at both
      exact iterTokenMatches_ne_nil both.1 both.2 unmatched
    | ok placeholders => exact ⟨placeholders, rfl, right⟩
  · intro segments whole unambiguous
    rw [findMmPlaceholders, iterPlaceholders_layout (Nat.zero_le _) whole (by omega) unambiguous]
    rfl

end

def markedUpdate : BoundPromptUpdate ℕ ℕ := ⟨0, .seq [], .insert, fun _ => ⟨[5, 6], [6]⟩⟩

theorem findMmPlaceholders_found_example :
    findMmPlaceholders [(0, [markedUpdate])] [7, 5, 6] (fun _ => 1) = some (.ok [(0, [⟨0, 0, 2, [6]⟩])]) := by
  have content : ∀ m i c, NextContent [(0, [markedUpdate])] (fun _ => 1) (fun _ => 0) m i c →
      m = 0 ∧ c = ⟨[5, 6], [6]⟩ := by
    rintro m i c ⟨updates, member, -, -, u, member', rfl⟩
    obtain ⟨rfl, rfl⟩ := Prod.mk.inj (List.mem_singleton.mp member)
    obtain rfl := List.mem_singleton.mp member'
    exact ⟨rfl, rfl⟩
  refine (findMmPlaceholders_found [(0, [markedUpdate])] [7, 5, 6] fun _ => 1).2
    [.text [7], .item 0 markedUpdate] rfl ⟨?_, ?_, trivial⟩
  · intro position _ before m i c known occurs
    obtain ⟨-, rfl⟩ := content m i c known
    obtain rfl : position = 0 := by
      rw [List.length_singleton] at before
      omega
    exact absurd occurs.2.2 (by decide)
  · exact ⟨⟨_, List.mem_singleton.mpr rfl, List.mem_singleton.mpr rfl⟩, Nat.one_pos, List.cons_ne_nil _ _,
      List.cons_ne_nil _ _, ⟨[5], [], rfl⟩, fun m i c known _ => content m i c known⟩

/-- Each item is one token, which text may have as well. -/
def tokenUpdate : BoundPromptUpdate ℕ ℕ := ⟨0, .seq [], .insert, fun _ => ⟨[5], [5]⟩⟩

/-- The features of each item are not part of its content. -/
def strayUpdate : BoundPromptUpdate ℕ ℕ := ⟨0, .seq [], .insert, fun _ => ⟨[5], [6]⟩⟩

/-- There is an assertion for features that are not part of the content; and text that looks like the item, just
before it, is taken for it. -/
theorem findMmPlaceholders_misses :
    findMmPlaceholders [(0, [strayUpdate])] [5] (fun _ => 1) = some (.error ⟨[6], [5]⟩) ∧
    layout [.text [5], .item 0 tokenUpdate] (fun _ => 0) = [5, 5] ∧
    layoutPlaceholders [.text [5], .item 0 tokenUpdate] 0 (fun _ => 0) = [⟨0, 0, 1, [5]⟩] ∧
    findMmPlaceholders [(0, [tokenUpdate])] [5, 5] (fun _ => 1) = some (.ok [(0, [⟨0, 0, 0, [5]⟩])]) :=
  ⟨rfl, rfl, rfl, rfl⟩

end Vllm.Multimodal
