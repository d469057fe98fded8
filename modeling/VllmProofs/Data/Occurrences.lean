import Mathlib

/-!
Fronts of a pattern that end another list, found by falling back along the longest borders, and the
occurrences of patterns in a text.
-/

namespace Vllm

variable {α : Type} {p xs : List α} {c : α} {i j k m limit : ℕ}

/-- The front of `p` of length `j` ends `xs`. -/
def FrontEnds (p xs : List α) (j : ℕ) : Prop := j ≤ p.length ∧ p.take j <:+ xs

/-- The front of length `k` of a list is shorter than the list and ends it. -/
def IsBorder (xs : List α) (k : ℕ) : Prop := k < xs.length ∧ xs.take k <:+ xs

def LongestBorder (xs : List α) (k : ℕ) : Prop := IsGreatest {j | IsBorder xs j} k

theorem frontEnds_zero (p xs : List α) : FrontEnds p xs 0 := ⟨Nat.zero_le _, List.nil_suffix⟩

theorem FrontEnds.le_length (ends : FrontEnds p xs j) : j ≤ xs.length := by
  have short := ends.2.length_le
  rw [List.length_take, Nat.min_eq_left ends.1] at short
  exact short

theorem suffix_append_one {ys : List α} {d : α} : ys ++ [d] <:+ xs ++ [c] ↔ ys <:+ xs ∧ d = c := by
  constructor
  · rintro ⟨front, same⟩
    rw [← List.append_assoc] at same
    obtain ⟨whole, last⟩ := List.append_inj' same rfl
    exact ⟨⟨front, whole⟩, List.singleton_inj.mp last⟩
  · rintro ⟨⟨front, rfl⟩, rfl⟩
    exact ⟨front, by rw [List.append_assoc]⟩

theorem frontEnds_append_one : FrontEnds p (xs ++ [c]) (j + 1) ↔ FrontEnds p xs j ∧ p[j]? = some c := by
  unfold FrontEnds
  by_cases here : j < p.length
  · rw [List.take_add_one, List.getElem?_eq_getElem here, Option.toList_some, suffix_append_one, Option.some.injEq]
    constructor
    · rintro ⟨-, ends, same⟩
      exact ⟨⟨here.le, ends⟩, same⟩
    · rintro ⟨⟨-, ends⟩, same⟩
      exact ⟨here, ends, same⟩
  · constructor
    · rintro ⟨inside, -⟩
      omega
    · rintro ⟨-, same⟩
      exact absurd (List.getElem?_eq_some_iff.mp same).1 here

/-- Of two fronts that end a list, the shorter ends the longer. -/
theorem FrontEnds.shorter (short : FrontEnds p xs j) (long : FrontEnds p xs k) (le : j ≤ k) :
    FrontEnds p (p.take k) j := by
  refine ⟨short.1, ?_⟩
  apply List.suffix_of_suffix_length_le short.2 long.2
  rw [List.length_take, List.length_take, Nat.min_eq_left short.1, Nat.min_eq_left long.1]
  exact le

theorem FrontEnds.trans (short : FrontEnds p (p.take k) j) (long : FrontEnds p xs k) : FrontEnds p xs j :=
  ⟨short.1, short.2.trans long.2⟩

theorem isBorder_take (inside : m ≤ p.length) : IsBorder (p.take m) k ↔ k < m ∧ FrontEnds p (p.take m) k := by
  unfold IsBorder FrontEnds
  rw [List.length_take, Nat.min_eq_left inside, List.take_take]
  constructor
  · rintro ⟨less, ends⟩
    rw [Nat.min_eq_left less.le] at ends
    exact ⟨less, by omega, ends⟩
  · rintro ⟨less, -, ends⟩
    rw [Nat.min_eq_left less.le]
    exact ⟨less, ends⟩

/-- The front of length `j` ends `xs`, and none that is longer, but shorter than `limit`, goes on with `c`. -/
structure Candidate (p xs : List α) (limit : ℕ) (c : α) (j : ℕ) : Prop where
  ends : FrontEnds p xs j
  less : j < limit
  greatest : ∀ k < limit, FrontEnds p xs k → p[k]? = some c → k ≤ j

structure LongestFront (p xs : List α) (limit j : ℕ) : Prop where
  ends : FrontEnds p xs j
  le : j ≤ limit
  greatest : ∀ k ≤ limit, FrontEnds p xs k → k ≤ j

theorem LongestFront.candidate (longest : LongestFront p xs m j) (less : j < limit) (within : limit ≤ m + 1) (c : α) :
    Candidate p xs limit c j := by
  refine ⟨longest.ends, less, ?_⟩
  intro k short ends _
  apply longest.greatest k _ ends
  omega

theorem Candidate.grow (candidate : Candidate p xs limit c j) (same : p[j]? = some c) :
    LongestFront p (xs ++ [c]) limit (j + 1) := by
  refine ⟨frontEnds_append_one.mpr ⟨candidate.ends, same⟩, candidate.less, ?_⟩
  intro k le ends
  cases k with
  | zero => omega
  | succ k =>
    obtain ⟨before, next⟩ := frontEnds_append_one.mp ends
    have := candidate.greatest k (by omega) before next
    omega

theorem Candidate.fallback (candidate : Candidate p xs limit c j) (other : p[j]? ≠ some c)
    (border : LongestBorder (p.take j) k) : Candidate p xs limit c k := by
  have inside := candidate.ends.1
  obtain ⟨less, ends⟩ := (isBorder_take inside).mp border.1
  refine ⟨ends.trans candidate.ends, less.trans candidate.less, ?_⟩
  intro l short lEnds next
  have le := candidate.greatest l short lEnds next
  have different : l ≠ j := by
    rintro rfl
    exact other next
  apply border.2
  apply (isBorder_take inside).mpr
  exact ⟨by omega, lEnds.shorter candidate.ends le⟩

theorem Candidate.empty (candidate : Candidate p xs limit c 0) (other : p[0]? ≠ some c) :
    LongestFront p (xs ++ [c]) limit 0 := by
  refine ⟨frontEnds_zero _ _, Nat.zero_le _, ?_⟩
  intro k le ends
  cases k with
  | zero => exact le_refl 0
  | succ k =>
    obtain ⟨before, next⟩ := frontEnds_append_one.mp ends
    have zero := candidate.greatest k (by omega) before next
    obtain rfl : k = 0 := by omega
    exact absurd next other

/-- The longest front that ends the list one symbol on is its longest border. -/
theorem LongestFront.border (inside : m < p.length) (longest : LongestFront p (p.take (m + 1)) m k) :
    LongestBorder (p.take (m + 1)) k := by
  constructor
  · apply (isBorder_take inside).mpr
    exact ⟨Nat.lt_succ_of_le longest.le, longest.ends⟩
  · intro l border
    obtain ⟨less, ends⟩ := (isBorder_take inside).mp border
    exact longest.greatest l (by omega) ends

end Vllm

namespace Vllm

variable {α : Type} {text more s : List α} {patterns : List (List α)} {e e' : ℕ}

/-- An occurrence of `s` in the text is completed after `e` symbols. -/
def EndsAt (s text : List α) (e : ℕ) : Prop := e ≤ text.length ∧ s <:+ text.take e

namespace EndsAt

theorem append_left (ends : EndsAt s text e) (more : List α) : EndsAt s (text ++ more) e := by
  obtain ⟨inside, suffix⟩ := ends
  constructor
  · rw [List.length_append]
    omega
  · rw [List.take_append_of_le_length inside]
    exact suffix

theorem of_append (ends : EndsAt s (text ++ more) e) (inside : e ≤ text.length) : EndsAt s text e := by
  refine ⟨inside, ?_⟩
  rw [← List.take_append_of_le_length inside]
  exact ends.2

theorem length_le (ends : EndsAt s text e) : s.length ≤ e := by
  have short := ends.2.length_le
  rw [List.length_take] at short
  omega

/-- Where an occurrence ends, it has begun. -/
theorem start (ends : EndsAt s text e) : s <+: text.drop (e - s.length) := by
  have long := ends.length_le
  obtain ⟨inside, front, split_⟩ := ends
  have length : front.length = e - s.length := by
    have total := congrArg List.length split_
    rw [List.length_append, List.length_take] at total
    omega
  have all : front ++ (s ++ text.drop e) = text := by
    rw [← List.append_assoc, split_, List.take_append_drop]
  exact ⟨text.drop e, by rw [← length, ← all, List.drop_left' rfl, all]⟩

theorem of_start {i : ℕ} (here : s <+: text.drop i) (inside : i ≤ text.length) : EndsAt s text (i + s.length) := by
  obtain ⟨rest, split_⟩ := here
  have total := congrArg List.length split_
  rw [List.length_append, List.length_drop] at total
  constructor
  · omega
  · refine ⟨text.take i, ?_⟩
    have front : s = (text.drop i).take s.length := by
      rw [← split_, List.take_left' rfl]
    rw [List.take_add, ← front]

end EndsAt

section
variable [DecidableEq α]

instance (s text : List α) (e : ℕ) : Decidable (EndsAt s text e) := inferInstanceAs (Decidable (_ ∧ _))

/-- Whether there is an occurrence. -/
def Occurs (s text : List α) : Prop := ∃ e ≤ text.length, EndsAt s text e

instance (s text : List α) : Decidable (Occurs s text) :=
  decidable_of_iff (∃ e < text.length + 1, EndsAt s text e) (by simp only [Nat.lt_succ_iff]; rfl)

omit [DecidableEq α] in
theorem EndsAt.occurs (ends : EndsAt s text e) : Occurs s text := ⟨e, ends.1, ends⟩

omit [DecidableEq α] in
theorem holds_of_find? {β : Type} {xs : List β} {x : β} {P : β → Prop} [DecidablePred P]
    (found : xs.find? (fun x => P x) = some x) : P x := of_decide_eq_true (List.find?_some (p := fun x => P x) found)

/-- The pattern that is completed first, and where; among several the one that is listed first. -/
def firstCompleted (patterns : List (List α)) (text : List α) : Option (List α × ℕ) := do
  let e ← (List.range (text.length + 1)).find? fun e => ∃ s ∈ patterns, EndsAt s text e
  let s ← patterns.find? fun s => EndsAt s text e
  return (s, e)

theorem firstCompleted_eq_some (found : firstCompleted patterns text = some (s, e)) :
    patterns.find? (fun s => EndsAt s text e) = some s ∧ ∀ s' ∈ patterns, ∀ e', EndsAt s' text e' → e ≤ e' := by
  obtain ⟨e', first, found⟩ := Option.bind_eq_some_iff.mp found
  obtain ⟨s', listed, found⟩ := Option.bind_eq_some_iff.mp found
  cases found
  refine ⟨listed, fun s' member e' ends => ?_⟩
  by_contra earlier
  have none := (List.find?_range_eq_some.mp first).2.2 e' (Nat.lt_of_not_le earlier)
  rw [Bool.not_eq_true', decide_eq_false_iff_not] at none
  exact none ⟨s', member, ends⟩

theorem firstCompleted_of_endsAt (member : s ∈ patterns) (ends : EndsAt s text e) :
    ∃ s' e', firstCompleted patterns text = some (s', e') := by
  have some_ : ((List.range (text.length + 1)).find? fun e => ∃ s ∈ patterns, EndsAt s text e).isSome = true := by
    rw [List.find?_isSome]
    exact ⟨e, List.mem_range.mpr (Nat.lt_succ_of_le ends.1), decide_eq_true ⟨s, member, ends⟩⟩
  obtain ⟨e', first⟩ := Option.isSome_iff_exists.mp some_
  obtain ⟨s', member', ends'⟩ := holds_of_find? first
  have listed : (patterns.find? fun s => EndsAt s text e').isSome = true := by
    rw [List.find?_isSome]
    exact ⟨s', member', decide_eq_true ends'⟩
  obtain ⟨s'', listed⟩ := Option.isSome_iff_exists.mp listed
  refine ⟨s'', e', ?_⟩
  unfold firstCompleted
  simp only [first, listed, Option.bind_eq_bind, Option.bind_some]
  rfl

/-- More text changes nothing about what has been completed. -/
theorem firstCompleted_append (found : firstCompleted patterns text = some (s, e)) (more : List α) :
    firstCompleted patterns (text ++ more) = some (s, e) := by
  obtain ⟨listed, least⟩ := firstCompleted_eq_some found
  have ends := holds_of_find? listed
  obtain ⟨s', e', found'⟩ := firstCompleted_of_endsAt (List.mem_of_find?_eq_some listed) (ends.append_left more)
  obtain ⟨listed', least'⟩ := firstCompleted_eq_some found'
  have ends' := holds_of_find? listed'
  have early : e' ≤ e := least' s (List.mem_of_find?_eq_some listed) e (ends.append_left more)
  have late : e ≤ e' :=
    least s' (List.mem_of_find?_eq_some listed') e' (ends'.of_append (early.trans ends.1))
  have same : e' = e := Nat.le_antisymm early late
  subst same
  have here : (fun s => decide (EndsAt s (text ++ more) e')) = fun s => decide (EndsAt s text e') := by
    funext s
    exact decide_eq_decide.mpr ⟨fun ends' => ends'.of_append ends.1, fun ends => ends.append_left more⟩
  rw [here, listed] at listed'
  cases listed'
  exact found'

omit [DecidableEq α] in
/-- A pattern that meets a condition, and is the first to meet a weaker one. -/
theorem find?_of_weaker {p q : List α → Bool} (weaker : ∀ s ∈ patterns, q s = true → p s = true)
    (found : patterns.find? p = some s) (holds : q s = true) : patterns.find? q = some s := by
  obtain ⟨-, before, after, split_, none⟩ := List.find?_eq_some_iff_append.mp found
  rw [List.find?_eq_some_iff_append]
  refine ⟨holds, before, after, split_, fun s' member => ?_⟩
  have notP := none s' member
  have listed : s' ∈ patterns := by
    rw [split_]
    exact List.mem_append_left _ member
  cases holds' : q s' with
  | false => rfl
  | true =>
    rw [weaker s' listed holds'] at notP
    cases notP

end
end Vllm
