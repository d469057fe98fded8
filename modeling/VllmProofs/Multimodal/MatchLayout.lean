import VllmProofs.Multimodal.PromptUpdates

/-!
What `_apply_matches` puts together, piece by piece: positions of the prompt and items of a modality. It is what one
expects exactly if no match that is applied stands before the end of the one applied before it.
-/

namespace Vllm.Multimodal

variable {κ α : Type}

/-- A part of the new prompt: a position of the old one, or the content of an item. -/
inductive Piece (κ α : Type) where
  | token (position : ℕ)
  | item (origin : BoundPromptUpdate κ α) (itemIdx : ℕ)

def render (prompt : List α) : Piece κ α → List α
  | .token position => prompt[position]?.toList
  | .item origin itemIdx => (origin.getContent itemIdx).full

namespace PromptTargetMatch

/-- How many items there is room for, out of so many. -/
def numInserts (m : PromptTargetMatch κ α) (maxItemCount : ℕ) : ℕ :=
  match m.origin.mode with
  | .insert => maxItemCount
  | .replace => if m.startIdx = m.endIdx then maxItemCount else 1

/-- Where the items go: after a target, or in its place. -/
def cut (m : PromptTargetMatch κ α) : ℕ :=
  match m.origin.mode with
  | .insert => m.endIdx
  | .replace => m.startIdx

/-- Does the match take the place of this position? An insertion does not. -/
def replaces (m : PromptTargetMatch κ α) (position : ℕ) : Bool := m.cut ≤ position && position < m.endIdx

def Within (n : ℕ) (m : PromptTargetMatch κ α) : Prop := m.startIdx ≤ m.endIdx ∧ m.endIdx ≤ n

def Apart (m m' : PromptTargetMatch κ α) : Prop := m.endIdx ≤ m'.startIdx ∨ m'.endIdx ≤ m.startIdx ∨
  m.startIdx = m.endIdx ∨ m'.startIdx = m'.endIdx

variable {m : PromptTargetMatch κ α} {n : ℕ}

theorem Within.cut_le (within : m.Within n) : m.startIdx ≤ m.cut ∧ m.cut ≤ m.endIdx := by
  unfold cut
  obtain ⟨ordered, -⟩ := within
  split <;> omega

end PromptTargetMatch

structure Applied (κ α : Type) where
  found : PromptTargetMatch κ α
  items : List ℕ

def Applied.pieces (a : Applied κ α) : List (Piece κ α) := a.items.map (.item a.found.origin)

section
variable [DecidableEq κ]

/-- Each match takes the next items of its modality, as many as it has room for; those that get none are left as
they are. -/
def assign (mmItemCounts : κ → ℕ) : (κ → ℕ) → List (PromptTargetMatch κ α) → List (Applied κ α)
  | _, [] => []
  | next, m :: rest =>
    let first := next m.modality
    let count := mmItemCounts m.modality
    if count ≤ first then assign mmItemCounts next rest
    else
      let numItems := min (first + m.numInserts count) count - first
      ⟨m, List.range' first numItems⟩ ::
        assign mmItemCounts (Function.update next m.modality (first + numItems)) rest

end

def tokens (start stop : ℕ) : List (Piece κ α) := (List.range' start (stop - start)).map .token

def emit (n : ℕ) : ℕ → List (Applied κ α) → List (Piece κ α)
  | prevEnd, [] => tokens prevEnd n
  | prevEnd, a :: rest => tokens prevEnd a.found.cut ++ (a.pieces ++ emit n a.found.endIdx rest)

/-- What is expected at a position: the items of the matches that go there, and the position unless it is replaced. -/
def expectedAt (n : ℕ) (applied : List (Applied κ α)) (position : ℕ) : List (Piece κ α) :=
  (applied.filter fun a => a.found.cut = position).flatMap Applied.pieces ++
    if position < n ∧ ¬applied.any (fun a => a.found.replaces position) then [.token position] else []

/-- The expected prompt: each position that is not replaced, once and in order, with the items in their places. -/
def expected (n : ℕ) (applied : List (Applied κ α)) : List (Piece κ α) := (List.range (n + 1)).flatMap (expectedAt n applied)

/-- No match goes before the end of the one before. -/
def Spaced : ℕ → List (Applied κ α) → Prop
  | _, [] => True
  | prevEnd, a :: rest => prevEnd ≤ a.found.cut ∧ Spaced a.found.endIdx rest

variable {prompt : List α}

theorem slice_eq_flatMap {start stop : ℕ} (within : stop ≤ prompt.length) :
    slice prompt start stop = (tokens start stop : List (Piece κ α)).flatMap (render prompt) := by
  unfold slice tokens
  rw [List.flatMap_map]
  induction stop with
  | zero => simp
  | succ stop ih =>
    by_cases before : start ≤ stop
    · have more : stop + 1 - start = stop - start + 1 := by omega
      have ends : start + 1 * (stop - start) = stop := by omega
      have short : start ≤ (prompt.take stop).length := by
        rw [List.length_take]
        omega
      rw [more, List.range'_concat, List.flatMap_append, ← ih (by omega), ends, List.take_add_one,
        List.drop_append_of_le_length short]
      simp [render]
    · have none : stop + 1 - start = 0 := by omega
      rw [none, List.range'_zero, List.flatMap_nil, List.drop_eq_nil_iff, List.length_take]
      omega

variable [DecidableEq κ] {mmItemCounts : κ → ℕ} {prevEnd : ℕ} {next : κ → ℕ}

theorem applyLoop_cons {m : PromptTargetMatch κ α}
    {rest : List (PromptTargetMatch κ α)} : applyLoop prompt mmItemCounts prevEnd next (m :: rest) =
      if mmItemCounts m.modality ≤ next m.modality then applyLoop prompt mmItemCounts prevEnd next rest
      else
        let numItems := min (next m.modality + m.numInserts (mmItemCounts m.modality)) (mmItemCounts m.modality) - next m.modality
        slice prompt prevEnd m.cut :: (List.range' (next m.modality) numItems).map (fun i => (m.origin.getContent i).full) ++
          applyLoop prompt mmItemCounts m.endIdx (Function.update next m.modality (next m.modality + numItems)) rest := by
  rw [applyLoop]
  unfold PromptTargetMatch.cut PromptTargetMatch.numInserts
  cases m.origin.mode <;> rfl

variable {ms : List (PromptTargetMatch κ α)}

theorem applyLoop_flatten (within : ∀ m ∈ ms, m.Within prompt.length) :
    (applyLoop prompt mmItemCounts prevEnd next ms).flatten =
      (emit prompt.length prevEnd (assign mmItemCounts next ms)).flatMap (render prompt) := by
  induction ms generalizing prevEnd next with
  | nil =>
    unfold applyLoop assign emit
    rw [List.flatten_singleton, ← slice_eq_flatMap le_rfl]
    unfold slice
    rw [List.take_length]
  | cons m rest ih =>
    have ih := fun {prevEnd next} => @ih prevEnd next fun m' member => within m' (List.mem_cons_of_mem _ member)
    have inside := within m List.mem_cons_self
    have fits : m.cut ≤ prompt.length := inside.cut_le.2.trans inside.2
    rw [applyLoop_cons]
    unfold assign
    dsimp only
    split
    · exact ih
    · rw [emit, List.flatMap_append, List.flatMap_append, ← ih, ← slice_eq_flatMap fits, List.flatten_append, List.flatten_cons,
        List.append_assoc]
      congr 2
      unfold Applied.pieces
      rw [List.flatMap_map]
      rfl

def Piece.itemOf (modality : κ) : Piece κ α → Option ℕ
  | .token _ => none
  | .item origin itemIdx => if origin.modality = modality then some itemIdx else none

theorem itemOf_tokens {modality : κ} {start stop : ℕ} :
    (tokens start stop : List (Piece κ α)).filterMap (Piece.itemOf modality) = [] := by
  unfold tokens
  rw [List.filterMap_map]
  exact List.filterMap_eq_nil_iff.mpr fun _ _ => rfl

theorem itemOf_pieces {modality : κ} {a : Applied κ α} :
    a.pieces.filterMap (Piece.itemOf modality) = if a.found.modality = modality then a.items else [] := by
  unfold Applied.pieces
  rw [List.filterMap_map]
  split
  · rename_i same
    have each : (Piece.itemOf modality ∘ Piece.item a.found.origin) = some := by
      funext i
      exact if_pos same
    rw [each, List.filterMap_some]
  · rename_i other
    exact List.filterMap_eq_nil_iff.mpr fun _ _ => if_neg other

/-- How many items of a modality the matches have room for. -/
def capacity (modality : κ) (count : ℕ) (ms : List (PromptTargetMatch κ α)) : ℕ :=
  ((ms.filter fun m => m.modality = modality).map (PromptTargetMatch.numInserts · count)).sum

/-- The items come in order, and the first ones come. -/
theorem items_emit {n : ℕ} (modality : κ) :
    (emit n prevEnd (assign mmItemCounts next ms)).filterMap (Piece.itemOf modality) =
      List.range' (next modality)
        (min (mmItemCounts modality - next modality) (capacity modality (mmItemCounts modality) ms)) := by
  induction ms generalizing prevEnd next with
  | nil =>
    unfold assign emit capacity
    rw [itemOf_tokens]
    simp
  | cons m rest ih =>
    unfold assign
    dsimp only
    have room : capacity modality (mmItemCounts modality) (m :: rest) =
        (if m.modality = modality then m.numInserts (mmItemCounts modality) else 0) +
          capacity modality (mmItemCounts modality) rest := by
      unfold capacity
      by_cases same : m.modality = modality
      · rw [List.filter_cons_of_pos (by simpa using same), List.map_cons, List.sum_cons, if_pos same]
      · rw [List.filter_cons_of_neg (by simpa using same), if_neg same, zero_add]
    rw [room]
    by_cases same : m.modality = modality
    · subst same
      rw [if_pos rfl]
      split
      · rename_i none
        rw [ih]
        congr 1
        omega
      · rename_i more
        rw [emit, List.filterMap_append, List.filterMap_append, itemOf_tokens, itemOf_pieces, ih, if_pos rfl,
          List.nil_append, Function.update_self]
        have append := @List.range'_append_1
        rw [append]
        congr 1
        omega
    · rw [if_neg same, zero_add]
      split
      · exact ih
      · rw [emit, List.filterMap_append, List.filterMap_append, itemOf_tokens, itemOf_pieces, ih, if_neg same,
          Function.update_of_ne (Ne.symm same)]
        rfl

end Vllm.Multimodal
