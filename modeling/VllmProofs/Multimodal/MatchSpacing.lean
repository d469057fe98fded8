import VllmProofs.Multimodal.MatchLayout

/-!
When `_apply_matches` puts together what one expects. If matches are spaced, it does so piece by piece; otherwise it
has too many positions of the prompt.
-/

namespace Vllm.Multimodal

variable {κ α : Type} {n : ℕ} {applied rest : List (Applied κ α)} {a : Applied κ α} {p : ℕ}

def Cuts (n : ℕ) (applied : List (Applied κ α)) : Prop := ∀ a ∈ applied, a.found.cut ≤ a.found.endIdx ∧ a.found.endIdx ≤ n

/-! ### Spaced matches -/

variable {prevEnd : ℕ}

theorem Spaced.le_cut (spaced : Spaced prevEnd applied) (cuts : Cuts n applied) :
    ∀ a ∈ applied, prevEnd ≤ a.found.cut := by
  induction applied generalizing prevEnd with
  | nil => exact fun a member => absurd member List.not_mem_nil
  | cons b rest ih =>
    obtain ⟨first, later⟩ := spaced
    intro a member
    rcases List.mem_cons.mp member with rfl | member
    · exact first
    · have next := ih later (fun c listed => cuts c (List.mem_cons_of_mem _ listed)) a member
      have ordered := (cuts b List.mem_cons_self).1
      omega

theorem expectedAt_before (later : ∀ a ∈ applied, p < a.found.cut) (inside : p < n) : expectedAt n applied p = [.token p] := by
  have none : applied.filter (fun a => a.found.cut = p) = [] := by
    rw [List.filter_eq_nil_iff]
    intro a member
    have below := later a member
    simp only [decide_eq_true_eq]
    omega
  have kept : ¬applied.any (fun a => a.found.replaces p) := by
    rw [List.any_eq_true]
    rintro ⟨a, member, replaces⟩
    have below := later a member
    simp only [PromptTargetMatch.replaces, Bool.and_eq_true, decide_eq_true_eq] at replaces
    omega
  unfold expectedAt
  rw [none, if_pos ⟨inside, kept⟩]
  rfl

theorem expectedAt_replaced (replaces : a.found.cut ≤ p ∧ p < a.found.endIdx)
    (later : ∀ b ∈ rest, a.found.endIdx ≤ b.found.cut) :
    expectedAt n (a :: rest) p = if a.found.cut = p then a.pieces else [] := by
  have none : rest.filter (fun b => b.found.cut = p) = [] := by
    rw [List.filter_eq_nil_iff]
    intro b member
    have above := later b member
    simp only [decide_eq_true_eq]
    omega
  have gone : ¬(p < n ∧ ¬(a :: rest).any (fun b => b.found.replaces p)) := by
    rintro ⟨-, kept⟩
    apply kept
    rw [List.any_cons, Bool.or_eq_true]
    left
    simpa [PromptTargetMatch.replaces] using replaces
  unfold expectedAt
  rw [if_neg gone, List.append_nil, List.filter_cons, none]
  by_cases here : a.found.cut = p
  · simp [here]
  · simp [here]

/-- After a match, there are its items if they go right there, and what is expected of the others. -/
theorem expectedAt_after (after : a.found.endIdx ≤ p) :
    expectedAt n (a :: rest) p = (if a.found.cut = p then a.pieces else []) ++ expectedAt n rest p := by
  have any : (a :: rest).any (fun b => b.found.replaces p) = rest.any fun b => b.found.replaces p := by
    have other : a.found.replaces p = false := by
      simp only [PromptTargetMatch.replaces, Bool.and_eq_false_iff, decide_eq_false_iff_not]
      omega
    rw [List.any_cons, other, Bool.false_or]
  unfold expectedAt
  rw [any, ← List.append_assoc]
  congr 1
  by_cases here : a.found.cut = p
  · simp [here]
  · simp [here]

theorem flatMap_congr_range' {start len : ℕ} {f g : ℕ → List (Piece κ α)} (same : ∀ p, start ≤ p → p < start + len → f p = g p) :
    (List.range' start len).flatMap f = (List.range' start len).flatMap g := by
  refine List.flatMap_congr fun p member => ?_
  obtain ⟨low, high⟩ := List.mem_range'_1.mp member
  exact same p low high

theorem emit_eq_expectedAt (spaced : Spaced prevEnd applied) (cuts : Cuts n applied) (inside : prevEnd ≤ n) :
    emit n prevEnd applied = (List.range' prevEnd (n + 1 - prevEnd)).flatMap (expectedAt n applied) := by
  induction applied generalizing prevEnd with
  | nil =>
    have last : expectedAt n ([] : List (Applied κ α)) n = [] := by simp [expectedAt]
    have more : n + 1 - prevEnd = n - prevEnd + 1 := by omega
    have ends : prevEnd + 1 * (n - prevEnd) = n := by omega
    unfold emit tokens
    rw [more, List.range'_concat, List.flatMap_append, ends, List.flatMap_singleton, last, List.append_nil,
      List.map_eq_flatMap]
    refine flatMap_congr_range' fun p _ high => ?_
    exact (expectedAt_before (fun a member => absurd member List.not_mem_nil) (by omega)).symm
  | cons a rest ih =>
    have later := spaced.2
    have cutsRest : Cuts n rest := fun b member => cuts b (List.mem_cons_of_mem _ member)
    obtain ⟨ordered, within⟩ := cuts a List.mem_cons_self
    have ahead := spaced.1
    have above := later.le_cut cutsRest
    have all := spaced.le_cut cuts
    -- up to the cut, up to the end of the match, and from there on
    have split : List.range' prevEnd (n + 1 - prevEnd) = List.range' prevEnd (a.found.cut - prevEnd) ++
        (List.range' a.found.cut (a.found.endIdx - a.found.cut) ++ List.range' a.found.endIdx (n + 1 - a.found.endIdx)) := by
      have first := @List.range'_append_1 a.found.cut (a.found.endIdx - a.found.cut) (n + 1 - a.found.endIdx)
      have second := @List.range'_append_1 prevEnd (a.found.cut - prevEnd)
        (a.found.endIdx - a.found.cut + (n + 1 - a.found.endIdx))
      rw [Nat.add_sub_cancel' ordered] at first
      rw [Nat.add_sub_cancel' ahead] at second
      rw [first, second]
      congr 1
      omega
    rw [split, List.flatMap_append, List.flatMap_append, emit, ih later cutsRest within]
    congr 1
    · unfold tokens
      rw [List.map_eq_flatMap]
      refine flatMap_congr_range' fun p _ high => ?_
      refine (expectedAt_before (fun b member => ?_) (by omega)).symm
      rcases List.mem_cons.mp member with rfl | member
      · omega
      · have next := above b member
        omega
    · rcases Nat.eq_or_lt_of_le ordered with empty | replaced
      · have more : n + 1 - a.found.endIdx = n - a.found.endIdx + 1 := by omega
        rw [empty, Nat.sub_self, List.range'_zero, List.flatMap_nil, List.nil_append, more, List.range'_succ,
          List.flatMap_cons, List.flatMap_cons, expectedAt_after le_rfl, if_pos empty, List.append_assoc]
        congr 2
        refine flatMap_congr_range' fun p low _ => ?_
        rw [expectedAt_after (by omega), if_neg (by omega), List.nil_append]
      · have more : a.found.endIdx - a.found.cut = a.found.endIdx - a.found.cut - 1 + 1 := by omega
        have nothing : (List.range' (a.found.cut + 1) (a.found.endIdx - a.found.cut - 1)).flatMap (expectedAt n (a :: rest)) = [] := by
          rw [List.flatMap_eq_nil_iff]
          intro p member
          obtain ⟨low, high⟩ := List.mem_range'_1.mp member
          rw [expectedAt_replaced (by omega) above, if_neg (by omega)]
        rw [more, List.range'_succ, List.flatMap_cons, nothing, List.append_nil, expectedAt_replaced ⟨le_rfl, replaced⟩ above,
          if_pos rfl]
        congr 1
        refine flatMap_congr_range' fun p low _ => ?_
        rw [expectedAt_after low, if_neg (by omega), List.nil_append]

/-! ### Counting positions -/

def Piece.isToken : Piece κ α → Bool
  | .token _ => true
  | .item _ _ => false

def replacedCount (applied : List (Applied κ α)) : ℕ := (applied.map fun a => a.found.endIdx - a.found.cut).sum

theorem countP_pieces : a.pieces.countP Piece.isToken = 0 := by
  unfold Applied.pieces
  rw [List.countP_map]
  exact List.countP_eq_zero.mpr fun _ _ => Bool.false_ne_true

theorem countP_tokens {start stop : ℕ} : (tokens start stop : List (Piece κ α)).countP Piece.isToken = stop - start := by
  unfold tokens
  rw [List.countP_map]
  have all : (List.range' start (stop - start)).countP (Piece.isToken ∘ (Piece.token : ℕ → Piece κ α)) =
      (List.range' start (stop - start)).length := List.countP_eq_length.mpr fun _ _ => rfl
  rw [all, List.length_range']

/-- There are never too few positions, and too many when matches are not spaced. -/
theorem countP_emit (cuts : Cuts n applied) (inside : prevEnd ≤ n) :
    n ≤ (emit n prevEnd applied).countP Piece.isToken + replacedCount applied + prevEnd ∧
      (¬Spaced prevEnd applied → n < (emit n prevEnd applied).countP Piece.isToken + replacedCount applied + prevEnd) := by
  induction applied generalizing prevEnd with
  | nil =>
    unfold emit
    rw [countP_tokens]
    exact ⟨by omega, fun spaced => absurd trivial spaced⟩
  | cons a rest ih =>
    obtain ⟨ordered, within⟩ := cuts a List.mem_cons_self
    obtain ⟨enough, more⟩ := ih (fun b member => cuts b (List.mem_cons_of_mem _ member)) within
    have replaced : replacedCount (a :: rest) = a.found.endIdx - a.found.cut + replacedCount rest := rfl
    unfold emit
    rw [List.countP_append, List.countP_append, countP_tokens, countP_pieces, replaced]
    refine ⟨by omega, fun close => ?_⟩
    by_cases ahead : prevEnd ≤ a.found.cut
    · have later := more fun spaced => close ⟨ahead, spaced⟩
      omega
    · omega

theorem countP_or_apart {β : Type} {l : List β} {f g : β → Bool} (apart : ∀ x ∈ l, ¬(f x = true ∧ g x = true)) :
    l.countP (fun x => f x || g x) = l.countP f + l.countP g := by
  induction l with
  | nil => rfl
  | cons x rest ih =>
    have here := apart x List.mem_cons_self
    rw [List.countP_cons, List.countP_cons, List.countP_cons, ih fun y member => apart y (List.mem_cons_of_mem _ member)]
    cases left : f x <;> cases right : g x <;> simp [left, right] at here ⊢ <;> omega

theorem sum_map_ite_one {β : Type} {l : List β} {f : β → Bool} : (l.map fun x => if f x = true then 1 else 0).sum = l.countP f := by
  induction l with
  | nil => rfl
  | cons x rest ih => rw [List.map_cons, List.sum_cons, ih, List.countP_cons, Nat.add_comm]

theorem countP_interval (low high : ℕ) :
    (List.range n).countP (fun p => low ≤ p && p < high) = min high n - low := by
  induction n with
  | zero => simp
  | succ n ih =>
    rw [List.range_succ, List.countP_append, ih, List.countP_singleton]
    by_cases inside : low ≤ n ∧ n < high
    · rw [if_pos (by simpa using inside)]
      omega
    · rw [if_neg (by simpa using inside)]
      omega

variable {m : PromptTargetMatch κ α}

theorem not_replaces_both {m' : PromptTargetMatch κ α} (within : m.Within n) (within' : m'.Within n) (apart : m.Apart m') :
    ¬(m.replaces p = true ∧ m'.replaces p = true) := by
  have cut := within.cut_le
  have cut' := within'.cut_le
  simp only [PromptTargetMatch.replaces, Bool.and_eq_true, decide_eq_true_eq]
  unfold PromptTargetMatch.Apart at apart
  omega

theorem countP_replaced (within : ∀ a ∈ applied, a.found.Within n)
    (apart : applied.Pairwise fun a b => a.found.Apart b.found) :
    (List.range n).countP (fun p => applied.any fun a => a.found.replaces p) = replacedCount applied := by
  induction applied with
  | nil => simp [replacedCount]
  | cons a rest ih =>
    obtain ⟨first, later⟩ := List.pairwise_cons.mp apart
    have inside := within a List.mem_cons_self
    have withinRest : ∀ b ∈ rest, b.found.Within n := fun b member => within b (List.mem_cons_of_mem _ member)
    have separate : ∀ p ∈ List.range n, ¬(a.found.replaces p = true ∧ rest.any (fun b => b.found.replaces p) = true) := by
      rintro p - ⟨here, there⟩
      obtain ⟨b, member, there⟩ := List.any_eq_true.mp there
      exact not_replaces_both inside (withinRest b member) (first b member) ⟨here, there⟩
    have one : (List.range n).countP (fun p => a.found.replaces p) = a.found.endIdx - a.found.cut := by
      have interval := countP_interval (n := n) a.found.cut a.found.endIdx
      rw [min_eq_left inside.2] at interval
      exact interval
    simp only [List.any_cons]
    rw [countP_or_apart separate, one, ih withinRest later]
    rfl

theorem countP_expected (within : ∀ a ∈ applied, a.found.Within n)
    (apart : applied.Pairwise fun a b => a.found.Apart b.found) :
    (expected n applied).countP Piece.isToken + replacedCount applied = n := by
  have each : ∀ p, (expectedAt n applied p).countP Piece.isToken =
      if p < n ∧ ¬applied.any (fun a => a.found.replaces p) then 1 else 0 := by
    intro p
    have items : ((applied.filter fun a => a.found.cut = p).flatMap Applied.pieces).countP Piece.isToken = 0 := by
      rw [List.countP_eq_zero]
      intro piece member
      obtain ⟨a, -, listed⟩ := List.mem_flatMap.mp member
      obtain ⟨i, -, rfl⟩ := List.mem_map.mp listed
      exact Bool.false_ne_true
    unfold expectedAt
    rw [List.countP_append, items, zero_add]
    split <;> rfl
  have total : (expected n applied).countP Piece.isToken =
      (List.range (n + 1)).countP fun p => p < n ∧ ¬applied.any fun a => a.found.replaces p := by
    unfold expected
    rw [List.countP_flatMap, ← sum_map_ite_one]
    congr 1
    refine List.map_congr_left fun p _ => ?_
    rw [Function.comp_apply, each]
    simp only [decide_eq_true_eq]
  have last : (List.range (n + 1)).countP (fun p => p < n ∧ ¬applied.any fun a => a.found.replaces p) =
      (List.range n).countP fun p => ¬applied.any fun a => a.found.replaces p := by
    rw [List.range_succ, List.countP_append, List.countP_singleton, if_neg (by simp), add_zero]
    refine List.countP_congr fun p member => ?_
    have inside := List.mem_range.mp member
    simp [inside]
  have both := List.length_eq_countP_add_countP (fun p => applied.any fun a => a.found.replaces p) (l := List.range n)
  rw [List.length_range, countP_replaced within apart] at both
  rw [total, last]
  simp only [Bool.not_eq_true] at both ⊢
  omega

/-! ### Resolving matches -/

variable {seen : List (Option (PromptTargetMatch κ α))}

theorem markSeen_free {idxs : List ℕ}
    (distinct : idxs.Nodup) (free : ∀ p ∈ idxs, seen[p]? = some none) :
    ∃ seen', markSeen m idxs seen = .ok seen' ∧ ∀ p, p ∉ idxs → seen'[p]? = seen[p]? := by
  induction idxs generalizing seen with
  | nil => exact ⟨seen, rfl, fun _ _ => rfl⟩
  | cons idx rest ih =>
    obtain ⟨fresh, distinct⟩ := List.nodup_cons.mp distinct
    have others : ∀ p ∈ rest, (seen.set idx (some m))[p]? = some none := by
      intro p member
      rw [List.getElem?_set_ne (by rintro rfl; exact fresh member)]
      exact free p (List.mem_cons_of_mem _ member)
    obtain ⟨seen', marked, kept⟩ := ih distinct others
    refine ⟨seen', ?_, fun p outside => ?_⟩
    · unfold markSeen
      rw [free idx List.mem_cons_self]
      exact marked
    · rw [List.mem_cons, not_or] at outside
      rw [kept p outside.2, List.getElem?_set_ne (Ne.symm outside.1)]

variable {ms : List (PromptTargetMatch κ α)}

theorem markAll_free
    (apart : ms.Pairwise PromptTargetMatch.Apart) (free : ∀ m ∈ ms, ∀ p, m.startIdx ≤ p → p < m.endIdx → seen[p]? = some none) :
    ∃ seen', markAll ms seen = .ok seen' := by
  induction ms generalizing seen with
  | nil => exact ⟨seen, rfl⟩
  | cons m rest ih =>
    obtain ⟨first, later⟩ := List.pairwise_cons.mp apart
    obtain ⟨seen', marked, kept⟩ := @markSeen_free _ _ m seen (List.range' m.startIdx (m.endIdx - m.startIdx))
      List.nodup_range' fun p member => by
        obtain ⟨low, high⟩ := List.mem_range'_1.mp member
        exact free m List.mem_cons_self p low (by omega)
    have spared : ∀ m' ∈ rest, ∀ p, m'.startIdx ≤ p → p < m'.endIdx → seen'[p]? = some none := by
      intro m' member p low high
      rw [kept p]
      · exact free m' (List.mem_cons_of_mem _ member) p low high
      · intro inside
        obtain ⟨low', high'⟩ := List.mem_range'_1.mp inside
        have separate := first m' member
        unfold PromptTargetMatch.Apart at separate
        omega
    obtain ⟨seen'', done⟩ := ih later spared
    refine ⟨seen'', ?_⟩
    unfold markAll
    rw [marked]
    exact done

theorem resolveMatches_apart {mmMatches : List (κ × List (PromptTargetMatch κ α))}
    (within : ∀ m ∈ mmMatches.flatMap Prod.snd, m.Within n)
    (apart : (mmMatches.flatMap Prod.snd).Pairwise PromptTargetMatch.Apart) :
    resolveMatches n mmMatches = .ok (sortByStart (mmMatches.flatMap Prod.snd)) := by
  obtain ⟨seen, marked⟩ := @markAll_free _ _ (List.replicate n none) _ apart fun m member p _ high => by
    rw [List.getElem?_replicate_of_lt]
    exact high.trans_le (within m member).2
  unfold resolveMatches
  dsimp only
  rw [marked]
  rfl

/-! ### Applying matches -/

theorem assign_sublist [DecidableEq κ] {mmItemCounts : κ → ℕ} {next : κ → ℕ} :
    ((assign mmItemCounts next ms).map Applied.found).Sublist ms := by
  induction ms generalizing next with
  | nil => exact List.Sublist.refl _
  | cons m rest ih =>
    unfold assign
    dsimp only
    split
    · exact ih.cons m
    · exact ih.cons_cons m

/-- The new prompt consists of positions of the old one and of the first items of each modality, in order. The
positions that are not replaced are there once, with the items in their places, exactly if each match that gets items
goes after the end of the one before it. -/
theorem applyMatches_expected_iff [DecidableEq κ] (promptLen : ℕ) (mmMatches : List (κ × List (PromptTargetMatch κ α)))
    (mmItemCounts : κ → ℕ) (within : ∀ m ∈ mmMatches.flatMap Prod.snd, m.Within promptLen)
    (apart : (mmMatches.flatMap Prod.snd).Pairwise PromptTargetMatch.Apart) :
    let found := sortByStart (mmMatches.flatMap Prod.snd)
    let applied := assign mmItemCounts (fun _ => 0) found
    ∃ pieces : List (Piece κ α),
      (∀ prompt : List α, prompt.length = promptLen →
        ∃ out, applyMatches prompt mmMatches mmItemCounts = .ok out ∧ out.flatten = pieces.flatMap (render prompt)) ∧
      (∀ modality, pieces.filterMap (Piece.itemOf modality) =
        List.range (min (mmItemCounts modality) (capacity modality (mmItemCounts modality) found))) ∧
      (pieces = expected promptLen applied ↔ Spaced 0 applied) := by
  intro found applied
  have perm : found.Perm (mmMatches.flatMap Prod.snd) := List.perm_insertionSort _ _
  have sub : (applied.map Applied.found).Sublist found := assign_sublist
  have inside : ∀ m ∈ found, m.Within promptLen := fun m member => within m (perm.subset member)
  have insideApplied : ∀ a ∈ applied, a.found.Within promptLen := fun a member =>
    inside a.found (sub.subset (List.mem_map_of_mem member))
  have symmetric : Std.Symm (PromptTargetMatch.Apart (κ := κ) (α := α)) := by
    constructor
    intro m m' apart
    unfold PromptTargetMatch.Apart at apart ⊢
    tauto
  have apartApplied : applied.Pairwise fun a b => a.found.Apart b.found := by
    have sorted : found.Pairwise PromptTargetMatch.Apart := (perm.pairwise_iff fun {_ _} => symmetric.symm _ _).mpr apart
    exact List.pairwise_map.mp (sorted.sublist sub)
  have cuts : Cuts promptLen applied := fun a member => ⟨(insideApplied a member).cut_le.2, (insideApplied a member).2⟩
  refine ⟨emit promptLen 0 applied, fun prompt length => ?_, fun modality => ?_, ?_⟩
  · subst length
    refine ⟨_, ?_, applyLoop_flatten inside⟩
    unfold applyMatches
    rw [resolveMatches_apart within apart]
    rfl
  · rw [items_emit, List.range_eq_range']
    rfl
  · constructor
    · intro same
      by_contra close
      have many := (countP_emit cuts (Nat.zero_le promptLen)).2 close
      have right := countP_expected insideApplied apartApplied
      rw [same] at many
      omega
    · intro spaced
      rw [emit_eq_expectedAt spaced cuts (Nat.zero_le _), Nat.sub_zero, ← List.range_eq_range']
      rfl

def imageInsertion : BoundPromptUpdate String ℕ := ⟨"image", .seq [10], .insert, fun _ => ⟨[100], [100]⟩⟩

def audioAtStart : BoundPromptUpdate String ℕ := ⟨"audio", PromptIndexTargets.start, .insert, fun _ => ⟨[200], [200]⟩⟩

def exampleMatches : List (String × List (PromptTargetMatch String ℕ)) :=
  [("audio", findTokenMatches [10, 11] [audioAtStart]), ("image", findTokenMatches [10, 11] [imageInsertion])]

theorem applyMatches_expected_iff_example :
    ∃ pieces out, applyMatches [10, 11] exampleMatches (fun _ => 1) = .ok out ∧ out.flatten = pieces.flatMap (render [10, 11]) ∧
      pieces = expected 2 (assign (fun _ => 1) (fun _ => 0) (sortByStart (exampleMatches.flatMap Prod.snd))) := by
  have within : ∀ m ∈ exampleMatches.flatMap Prod.snd, m.Within 2 := by
    intro m member
    have listed : m ∈ [⟨audioAtStart, 0, 0⟩, ⟨imageInsertion, 0, 1⟩] := member
    simp only [List.mem_cons, List.not_mem_nil, or_false] at listed
    rcases listed with rfl | rfl
    · exact ⟨le_rfl, Nat.zero_le _⟩
    · exact ⟨Nat.zero_le _, Nat.le_succ _⟩
  have apart : (exampleMatches.flatMap Prod.snd).Pairwise PromptTargetMatch.Apart := by
    show [⟨audioAtStart, 0, 0⟩, ⟨imageInsertion, 0, 1⟩].Pairwise PromptTargetMatch.Apart
    simp [PromptTargetMatch.Apart]
  obtain ⟨pieces, puts, -, iff⟩ := applyMatches_expected_iff 2 exampleMatches (fun _ => 1) within apart
  obtain ⟨out, applied, rendered⟩ := puts [10, 11] rfl
  exact ⟨pieces, out, applied, rendered, iff.mpr ⟨le_rfl, Nat.zero_le _, trivial⟩⟩

/-- A start that is listed after a target at the start repeats the target. -/
theorem startAfterTarget_repeats :
    applyMatches [10, 11] exampleMatches.reverse (fun _ => 1) = .ok [[10], [100], [], [200], [10, 11]] ∧
      (expected 2 (assign (fun _ => 1) (fun _ => 0) (sortByStart (exampleMatches.reverse.flatMap Prod.snd)))).flatMap
        (render [10, 11]) = [200, 10, 100, 11] :=
  ⟨rfl, rfl⟩

end Vllm.Multimodal
