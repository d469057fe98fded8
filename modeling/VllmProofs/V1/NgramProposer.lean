import VllmProofs.Base
import VllmProofs.Data.Occurrences
import VllmProofs.Data.PySlice

/-!
`NgramProposer`, `vllm/v1/spec_decode/ngram_proposer.py`: the tokens that followed the first earlier occurrence
of the last `n` tokens, found with the table of longest borders.
-/

namespace Vllm.V1.NgramProposer

/-- The loop of `_kmp_lps_array`, for at most the given number of rounds. -/
def lpsLoop (pattern : List TokenId) : ℕ → ℕ → ℕ → List ℕ → Except PyError (List ℕ)
  | 0, _, _, _ => .error .recursionError
  | rounds + 1, prevLps, i, lps =>
    if i < pattern.length then
      if pattern[i]? = pattern[prevLps]? then
        lpsLoop pattern rounds (prevLps + 1) (i + 1) (lps.set i (prevLps + 1))
      else if prevLps ≠ 0 then lpsLoop pattern rounds (lps.getD (prevLps - 1) 0) i lps
      else lpsLoop pattern rounds prevLps (i + 1) (lps.set i 0)
    else .ok lps

def kmpLpsArray (pattern : List TokenId) : Except PyError (List ℕ) :=
  -- a round takes two off `2 * (len(pattern) - i) + prev_lps` at a mismatch, and one otherwise
  lpsLoop pattern (2 * pattern.length + 1) 0 1 (List.replicate pattern.length 0)

/-- The loop of `_find_subarray_kmp`, for at most the given number of rounds. -/
def searchLoop (contextTokenIds pattern : List TokenId) (lps : List ℕ) (n k : ℕ) :
    ℕ → ℕ → ℕ → Except PyError (Option (List TokenId))
  | 0, _, _ => .error .recursionError
  | rounds + 1, i, j =>
    if (i : ℤ) < contextTokenIds.length - n then
      if contextTokenIds[i]? = pattern[j]? then
        if j + 1 = n then .ok (some (PySlice.slice contextTokenIds (i + 1 : ℕ) (i + 1 + k : ℕ)))
        else searchLoop contextTokenIds pattern lps n k rounds (i + 1) (j + 1)
      else if j ≠ 0 then searchLoop contextTokenIds pattern lps n k rounds i (lps.getD (j - 1) 0)
      else searchLoop contextTokenIds pattern lps n k rounds (i + 1) j
    else .ok none

def findSubarrayKmp (contextTokenIds : List TokenId) (n k : ℕ) : Except PyError (Option (List TokenId)) :=
  if 0 < n then do
    let pattern := PySlice.sliceFrom contextTokenIds (-(n : ℤ))
    let lps ← kmpLpsArray pattern
    searchLoop contextTokenIds pattern lps n k (2 * contextTokenIds.length + 1) 0 0
  else .error .assertionError

def propose (contextTokenIds : List TokenId) (n k : ℕ) : Except PyError (Option (List TokenId)) :=
  findSubarrayKmp contextTokenIds n k

variable {pattern context before : List TokenId} {lps : List ℕ} {n k i j s prevLps rounds : ℕ} {c : TokenId}

/-! ### The table -/

structure Tabled (pattern : List TokenId) (lps : List ℕ) (i : ℕ) : Prop where
  length : lps.length = pattern.length
  border : ∀ m < i, m < pattern.length → LongestBorder (pattern.take (m + 1)) (lps.getD m 0)

theorem take_succ_of_getElem? {xs : List TokenId} (here : xs[i]? = some c) : xs.take (i + 1) = xs.take i ++ [c] := by
  rw [List.take_add_one, here, Option.toList_some]

theorem Tabled.set (tabled : Tabled pattern lps i) (inside : i < pattern.length)
    (longest : LongestBorder (pattern.take (i + 1)) k) : Tabled pattern (lps.set i k) (i + 1) := by
  have listed : i < lps.length := by
    rw [tabled.length]
    exact inside
  refine ⟨by rw [List.length_set, tabled.length], ?_⟩
  intro m less within
  rcases Nat.lt_or_eq_of_le (Nat.le_of_lt_succ less) with earlier | rfl
  · rw [List.getD_eq_getElem?_getD, List.getElem?_set_ne (by omega), ← List.getD_eq_getElem?_getD]
    exact tabled.border m earlier within
  · rw [List.getD_eq_getElem?_getD, List.getElem?_set_self listed, Option.getD_some]
    exact longest

theorem tabled_start (pattern : List TokenId) : Tabled pattern (List.replicate pattern.length 0) 1 := by
  refine ⟨List.length_replicate, ?_⟩
  intro m less inside
  obtain rfl : m = 0 := by omega
  have zero : (List.replicate pattern.length 0).getD 0 0 = 0 := by
    rw [List.getD_eq_getElem?_getD, List.getElem?_replicate]
    split <;> rfl
  rw [zero]
  constructor
  · apply (isBorder_take inside).mpr
    exact ⟨Nat.zero_lt_one, frontEnds_zero _ _⟩
  · intro k border
    have := ((isBorder_take inside).mp border).1
    omega

theorem lpsLoop_spec (tabled : Tabled pattern lps i) (positive : 0 < i)
    (candidate : ∀ c, pattern[i]? = some c → Candidate pattern (pattern.take i) i c prevLps)
    (enough : 2 * (pattern.length - i) + prevLps < rounds) :
    ∃ table, lpsLoop pattern rounds prevLps i lps = .ok table ∧ Tabled pattern table pattern.length := by
  induction rounds generalizing prevLps i lps with
  | zero => omega
  | succ rounds ih =>
    unfold lpsLoop
    by_cases inside : i < pattern.length
    · rw [if_pos inside]
      have here : pattern[i]? = some pattern[i] := List.getElem?_eq_getElem inside
      have now := candidate _ here
      -- a longest front after this symbol goes into the table, and is the next candidate
      have entered : ∀ l, LongestFront pattern (pattern.take i ++ [pattern[i]]) i l → l ≤ i →
          Tabled pattern (lps.set i l) (i + 1) ∧ ∀ c, pattern[i + 1]? = some c →
            Candidate pattern (pattern.take (i + 1)) (i + 1) c l := by
        intro l longest le
        rw [← take_succ_of_getElem? here] at longest
        refine ⟨tabled.set inside (longest.border inside), ?_⟩
        intro c _
        exact longest.candidate (Nat.lt_succ_of_le le) (le_refl _) c
      split
      · rename_i same
        have longest := now.grow (same.symm.trans here)
        obtain ⟨table, next⟩ := entered _ longest longest.le
        exact ih table (Nat.succ_pos i) next (by omega)
      · rename_i other
        have mismatch : pattern[prevLps]? ≠ some pattern[i] := fun same => other (here.trans same.symm)
        split
        · rename_i nonzero
          have less := now.less
          have border := tabled.border (prevLps - 1) (by omega) (by omega)
          rw [Nat.sub_add_cancel (Nat.pos_of_ne_zero nonzero)] at border
          have shorter := ((isBorder_take now.ends.1).mp border.1).1
          apply ih tabled positive _ (by omega)
          intro c found
          obtain rfl := Option.some.inj (here.symm.trans found)
          exact now.fallback mismatch border
        · rename_i zero
          obtain rfl : prevLps = 0 := by omega
          obtain ⟨table, next⟩ := entered 0 (now.empty mismatch) (Nat.zero_le i)
          exact ih table (Nat.succ_pos i) next (by omega)
    · rw [if_neg inside]
      refine ⟨lps, rfl, tabled.length, ?_⟩
      intro m less within
      exact tabled.border m (by omega) within

/-- The failure table holds the longest proper border of every front of the pattern. -/
theorem kmpLpsArray_borders (pattern : List TokenId) :
    ∃ lps, kmpLpsArray pattern = .ok lps ∧ Tabled pattern lps pattern.length := by
  apply lpsLoop_spec (tabled_start pattern) Nat.zero_lt_one
  · intro c _
    refine ⟨frontEnds_zero _ _, Nat.zero_lt_one, ?_⟩
    intro k less _ _
    omega
  · omega

/-! ### The search -/

/-- The context without its last `n` tokens. -/
def earlier (context : List TokenId) (n : ℕ) : List TokenId := context.take (context.length - n)

def lastTokens (context : List TokenId) (n : ℕ) : List TokenId := context.drop (context.length - n)

/-- The last `n` tokens stand at position `s` of the context without them. -/
structure OccursAt (context : List TokenId) (n s : ℕ) : Prop where
  inside : s + n ≤ (earlier context n).length
  same : ((earlier context n).drop s).take n = lastTokens context n

theorem occursAt_iff (enough : n ≤ context.length) :
    OccursAt context n s ↔ EndsAt (lastTokens context n) (earlier context n) (s + n) := by
  have length : (lastTokens context n).length = n := by
    rw [lastTokens, List.length_drop]
    omega
  constructor
  · rintro ⟨inside, same⟩
    have begins : lastTokens context n <+: (earlier context n).drop s := by
      rw [← same]
      exact List.take_prefix n _
    have ends := EndsAt.of_start begins (by omega)
    rw [length] at ends
    exact ends
  · intro ends
    refine ⟨ends.1, ?_⟩
    have begins := ends.start
    rw [length, Nat.add_sub_cancel] at begins
    have front := List.prefix_iff_eq_take.mp begins
    rw [length] at front
    exact front.symm

structure Unfound (pattern text : List TokenId) (n i j : ℕ) : Prop where
  within : i ≤ text.length
  missing : ∀ e ≤ i, ¬EndsAt pattern text e
  candidate : ∀ c, text[i]? = some c → Candidate pattern (text.take i) n c j

theorem not_endsAt_of_longest (length : pattern.length = n)
    (longest : LongestFront pattern (before.take i) n j) (less : j < n) : ¬EndsAt pattern before i := by
  intro ends
  have whole : FrontEnds pattern (before.take i) n := by
    refine ⟨length.ge, ?_⟩
    rw [← length, List.take_length]
    exact ends.2
  have := longest.greatest n (le_refl n) whole
  omega

theorem Unfound.next (unfound : Unfound pattern before n i k) (length : pattern.length = n)
    (here : before[i]? = some c) (longest : LongestFront pattern (before.take i ++ [c]) n j) (less : j < n) :
    Unfound pattern before n (i + 1) j := by
  rw [← take_succ_of_getElem? here] at longest
  refine ⟨(List.getElem?_eq_some_iff.mp here).1, ?_, fun d _ => longest.candidate less (by omega) d⟩
  intro e le
  rcases Nat.lt_or_eq_of_le le with old | rfl
  · exact unfound.missing e (by omega)
  · exact not_endsAt_of_longest length longest less

/-- What the search returns: the first occurrence, or that there is none. -/
def Found (context : List TokenId) (n k : ℕ) : Option (List TokenId) → Prop
  | some tokens => ∃ e, EndsAt (lastTokens context n) (earlier context n) e ∧
      (∀ e' < e, ¬EndsAt (lastTokens context n) (earlier context n) e') ∧ tokens = (context.drop e).take k
  | none => ∀ e, ¬EndsAt (lastTokens context n) (earlier context n) e

theorem searchLoop_spec (length : (lastTokens context n).length = n)
    (tabled : Tabled (lastTokens context n) lps n) (unfound : Unfound (lastTokens context n) (earlier context n) n i j)
    (enough : 2 * (context.length - n - i) + j < rounds) :
    ∃ r, searchLoop context (lastTokens context n) lps n k rounds i j = .ok r ∧ Found context n k r := by
  induction rounds generalizing i j with
  | zero => omega
  | succ rounds ih =>
    have short : (earlier context n).length = context.length - n := by
      rw [earlier, List.length_take]
      omega
    unfold searchLoop
    by_cases inside : i < context.length - n
    · rw [if_pos (by omega)]
      have here : (earlier context n)[i]? = some context[i] := by
        rw [earlier, List.getElem?_take_of_lt inside]
        exact List.getElem?_eq_getElem _
      have read : context[i]? = some context[i] := List.getElem?_eq_getElem (by omega)
      have now := unfound.candidate _ here
      split
      · rename_i same
        have longest := now.grow (same.symm.trans read)
        split
        · rename_i complete
          -- the whole pattern ends here, and ended nowhere before
          have ends : EndsAt (lastTokens context n) (earlier context n) (i + 1) := by
            refine ⟨by omega, ?_⟩
            have whole := longest.ends.2
            rw [complete, List.take_of_length_le length.le, ← take_succ_of_getElem? here] at whole
            exact whole
          refine ⟨_, rfl, i + 1, ends, fun e less => unfound.missing e (by omega), ?_⟩
          exact PySlice.slice_add context (i + 1) k
        · rename_i incomplete
          have less := longest.le
          exact ih (unfound.next length here longest (by omega)) (by omega)
      · rename_i other
        have mismatch : (lastTokens context n)[j]? ≠ some context[i] := fun same => other (read.trans same.symm)
        split
        · rename_i nonzero
          have less := now.less
          have border := tabled.border (j - 1) (by omega) (by omega)
          rw [Nat.sub_add_cancel (Nat.pos_of_ne_zero nonzero)] at border
          have shorter := ((isBorder_take now.ends.1).mp border.1).1
          apply ih ⟨unfound.within, unfound.missing, _⟩ (by omega)
          intro c found
          obtain rfl := Option.some.inj (here.symm.trans found)
          exact now.fallback mismatch border
        · rename_i zero
          obtain rfl : j = 0 := by omega
          exact ih (unfound.next length here (now.empty mismatch) now.less) (by omega)
    · rw [if_neg (by omega)]
      refine ⟨none, rfl, ?_⟩
      intro e ends
      exact unfound.missing e (by have := ends.1; omega) ends

theorem findSubarrayKmp_found (positive : 0 < n) (enough : n ≤ context.length) :
    ∃ r, findSubarrayKmp context n k = .ok r ∧ Found context n k r := by
  have length : (lastTokens context n).length = n := by
    rw [lastTokens, List.length_drop]
    omega
  obtain ⟨lps, built, tabled⟩ := kmpLpsArray_borders (lastTokens context n)
  rw [length] at tabled
  have start : Unfound (lastTokens context n) (earlier context n) n 0 0 := by
    refine ⟨Nat.zero_le _, ?_, ?_⟩
    · intro e le ends
      have := ends.length_le
      omega
    · intro c _
      refine ⟨frontEnds_zero _ _, positive, ?_⟩
      intro l _ ends _
      exact ends.le_length
  have enough' : 2 * (context.length - n - 0) + 0 < 2 * context.length + 1 := by omega
  obtain ⟨r, searched, found⟩ := searchLoop_spec (k := k) length tabled start enough'
  refine ⟨r, ?_, found⟩
  unfold findSubarrayKmp
  rw [if_pos positive, PySlice.sliceFrom_neg positive enough]
  show (kmpLpsArray (lastTokens context n) >>= _) = _
  rw [built]
  exact searched

theorem findSubarrayKmp_short (positive : 0 < n) (short : context.length < n) :
    findSubarrayKmp context n k = .ok none := by
  obtain ⟨lps, built, -⟩ := kmpLpsArray_borders (PySlice.sliceFrom context (-(n : ℤ)))
  unfold findSubarrayKmp
  rw [if_pos positive]
  show (kmpLpsArray (PySlice.sliceFrom context (-(n : ℤ))) >>= _) = _
  rw [built]
  show searchLoop context _ lps n k _ 0 0 = _
  unfold searchLoop
  rw [if_neg (by omega)]

/-- The proposal is what follows the leftmost earlier occurrence of the last `n` tokens, at least one token and
`k` if there are as many; without an occurrence there is none. -/
theorem propose_follows (context : List TokenId) (n k : ℕ) (matched : 0 < n) (wanted : 0 < k) :
    (∃ r, propose context n k = .ok r ∧ (r = none ↔ ∀ s, ¬OccursAt context n s) ∧
      ∀ tokens, r = some tokens → tokens ≠ [] ∧
        ∃ s, IsLeast {s | OccursAt context n s} s ∧ tokens = (context.drop (s + n)).take k) ∧
    ∀ pattern, ∃ lps, kmpLpsArray pattern = .ok lps ∧ lps.length = pattern.length ∧
      ∀ i < pattern.length, ∃ border, lps[i]? = some border ∧ LongestBorder (pattern.take (i + 1)) border := by
  constructor
  · rcases Nat.lt_or_ge context.length n with short | enough
    · refine ⟨none, findSubarrayKmp_short matched short, ⟨fun _ s occurs => ?_, fun _ => rfl⟩, nofun⟩
      have inside := occurs.inside
      rw [earlier, List.length_take] at inside
      omega
    · obtain ⟨r, searched, found⟩ := findSubarrayKmp_found (k := k) matched enough
      refine ⟨r, searched, ?_⟩
      cases r with
      | none =>
        refine ⟨⟨fun _ s occurs => found _ ((occursAt_iff enough).mp occurs), fun _ => rfl⟩, nofun⟩
      | some tokens =>
        obtain ⟨e, ends, first, rfl⟩ := found
        have long : n ≤ e := by
          have := ends.length_le
          rw [lastTokens, List.length_drop] at this
          omega
        obtain ⟨s, rfl⟩ : ∃ s, e = s + n := ⟨e - n, by omega⟩
        have occurs := (occursAt_iff enough).mpr ends
        refine ⟨⟨nofun, fun absent => (absent s occurs).elim⟩, ?_⟩
        rintro _ ⟨⟩
        have inside := occurs.inside
        rw [earlier, List.length_take] at inside
        constructor
        · rw [← List.length_pos_iff, List.length_take, List.length_drop]
          omega
        · refine ⟨s, ⟨occurs, ?_⟩, rfl⟩
          intro t other
          by_contra less
          exact first (t + n) (by omega) ((occursAt_iff enough).mp other)
  · intro pattern
    obtain ⟨lps, built, tabled⟩ := kmpLpsArray_borders pattern
    refine ⟨lps, built, tabled.length, ?_⟩
    intro i inside
    have listed : i < lps.length := by
      rw [tabled.length]
      exact inside
    have border := tabled.border i inside inside
    rw [List.getD_eq_getElem _ _ listed] at border
    exact ⟨lps[i], List.getElem?_eq_getElem listed, border⟩

theorem propose_follows_three : ∃ s, IsLeast {s | OccursAt [1, 2, 3, 4, 2, 3] 2 s} s ∧
    [4, 2, 3] = (([1, 2, 3, 4, 2, 3] : List TokenId).drop (s + 2)).take 4 := by
  obtain ⟨⟨r, proposed, -, follows⟩, -⟩ := propose_follows [1, 2, 3, 4, 2, 3] 2 4 (by decide) (by decide)
  have shown : propose [1, 2, 3, 4, 2, 3] 2 4 = .ok (some [4, 2, 3]) := rfl
  have same := Except.ok.inj (proposed.symm.trans shown)
  exact (follows _ same).2

end Vllm.V1.NgramProposer
