import Mathlib.Data.List.Basic
import Mathlib.Tactic.Common

namespace Vllm.SpecDecode

/-- Column of a row's first rejected token, `k` where every token is accepted. -/
def limits (k : Nat) (accepted : List Bool) : Nat :=
  if accepted.any (· == false) then accepted.findIdx (· == false) else k

/-- `_create_output`, for one row: the two masks are over the columns, and what stands in the last
draft column before the recovered token is filled in decides about the bonus token. -/
def createOutput (accepted : List Bool) (substituteTokenIds draftTokenIds : List Int)
    (bonusTokenId : Int) : List Int :=
  let k := substituteTokenIds.length
  let limit := limits k accepted
  let acceptedMask (i : Nat) := decide (i < limit)
  let afterFalseMask (i : Nat) := decide (i = limit)
  let output (i : Nat) := if acceptedMask i then draftTokenIds.getD i (-1) else -1
  let last := if output (k - 1) ≠ -1 then bonusTokenId else -1
  (List.range k).map (fun i =>
    output i * (if afterFalseMask i then 0 else 1) +
      substituteTokenIds.getD i 0 * (if afterFalseMask i then 1 else 0)) ++ [last]

theorem limits_accepted (k : Nat) (accepted : List Bool) :
    limits (k + 1) (true :: accepted) = limits k accepted + 1 := by
  simp only [limits, List.any_cons, List.findIdx_cons]
  split_ifs with rejected rest rest
  · rfl
  · exact absurd rejected (by simpa using rest)
  · exact absurd rest (by simpa using rejected)
  · rfl

theorem limits_rejected (k : Nat) (accepted : List Bool) : limits k (false :: accepted) = 0 := by
  simp [limits, List.findIdx_cons]

theorem createOutput_rejected (accepted : List Bool) (substitute draft : Int)
    (substitutes drafts : List Int) (bonus : Int) :
    createOutput (false :: accepted) (substitute :: substitutes) (draft :: drafts) bonus =
      substitute :: List.replicate (substitutes.length + 1) (-1) := by
  simp only [createOutput, List.length_cons, limits_rejected]
  simp [List.range_succ_eq_map, List.replicate_succ', Function.comp_def, List.map_const']

theorem createOutput_accepted (accepted : List Bool) (substitute draft : Int)
    {substitutes : List Int} (drafts : List Int) (bonus : Int) (columns : substitutes ≠ []) :
    createOutput (true :: accepted) (substitute :: substitutes) (draft :: drafts) bonus =
      draft :: createOutput accepted substitutes drafts bonus := by
  obtain ⟨k, length⟩ : ∃ k, substitutes.length = k + 1 :=
    Nat.exists_eq_succ_of_ne_zero (by simpa using columns)
  simp only [createOutput, List.length_cons, limits_accepted, length]
  rw [List.range_succ_eq_map, List.map_cons, List.cons_append, List.map_map]
  simp [Function.comp_def]

theorem createOutput_single (substitute : Int) {draft : Int} (bonus : Int) (real : draft ≠ -1) :
    createOutput [true] [substitute] [draft] bonus = [draft, bonus] := by
  simp [createOutput, limits, real]

section Tokens

variable {v : Nat}

/-- The tokens that acceptance in order gives: drafts up to the first rejected one, in whose place
its substitute ends the list, or all drafts and the bonus token. -/
def emittedTokens : List Bool → List (Fin v) → List (Fin v) → Fin v → List (Fin v)
  | true :: accepted, _ :: substitutes, draft :: drafts, bonus =>
    draft :: emittedTokens accepted substitutes drafts bonus
  | false :: _, substitute :: _, _ :: _, _ => [substitute]
  | _, _, _, bonus => [bonus]

/-- A token as it stands in a tensor of token ids. -/
def tokenId (token : Fin v) : Int := token.val

theorem tokenId_ne (token : Fin v) : tokenId token ≠ -1 := by
  unfold tokenId
  omega

/-- A row of the output: real tokens, then only `-1`. -/
def paddedRow (columns : Nat) (tokens : List (Fin v)) : List Int :=
  tokens.map tokenId ++ List.replicate (columns - tokens.length) (-1)

theorem createOutput_eq {accepted : List Bool} {substitutes drafts : List (Fin v)} (bonus : Fin v)
    (asMany : accepted.length = drafts.length) (perDraft : substitutes.length = drafts.length)
    (columns : drafts ≠ []) :
    createOutput accepted (substitutes.map tokenId) (drafts.map tokenId) (tokenId bonus) =
      paddedRow (drafts.length + 1) (emittedTokens accepted substitutes drafts bonus) := by
  induction drafts generalizing accepted substitutes with
  | nil => exact absurd rfl columns
  | cons draft drafts ih =>
    obtain ⟨first, accepted, rfl⟩ := List.exists_cons_of_length_eq_add_one asMany
    obtain ⟨substitute, substitutes, rfl⟩ := List.exists_cons_of_length_eq_add_one perDraft
    simp only [List.length_cons, Nat.add_right_cancel_iff] at asMany perDraft
    simp only [List.map_cons]
    cases first with
    | false =>
      rw [createOutput_rejected, List.length_map, perDraft]
      rfl
    | true =>
      cases drafts with
      | nil =>
        obtain rfl := List.length_eq_zero_iff.mp asMany
        obtain rfl := List.length_eq_zero_iff.mp perDraft
        exact createOutput_single _ _ (tokenId_ne draft)
      | cons next drafts =>
        have more : substitutes.map tokenId ≠ [] := by
          intro none
          simp [List.map_eq_nil_iff.mp none] at perDraft
        rw [createOutput_accepted _ _ _ _ _ more, ih asMany perDraft (List.cons_ne_nil _ _)]
        simp only [paddedRow, emittedTokens, List.map_cons, List.length_cons, List.cons_append,
          Nat.add_sub_add_right]

/-- A token id read back as a token of the vocabulary. -/
def tokenOf (id : Int) : Option (Fin v) :=
  if inside : id.toNat < v ∧ 0 ≤ id then some ⟨id.toNat, inside.1⟩ else none

theorem tokenOf_tokenId (token : Fin v) : tokenOf (tokenId token) = some token := by
  unfold tokenOf tokenId
  rw [dif_pos ⟨by simp, Int.natCast_nonneg _⟩]
  rfl

/-- The real tokens of a row: what stands before its first `-1`. -/
def realTokens (row : List Int) : List (Fin v) :=
  (row.takeWhile (· != -1)).filterMap tokenOf

@[simp] theorem realTokens_paddedRow (columns : Nat) (tokens : List (Fin v)) :
    realTokens (paddedRow columns tokens) = tokens := by
  have noPad : (List.replicate (columns - tokens.length) (-1 : Int)).takeWhile (· != -1) = [] := by
    cases columns - tokens.length <;> simp [List.replicate_succ]
  have real : ∀ id ∈ tokens.map tokenId, (id != -1) = true := by
    intro id member
    obtain ⟨token, _, rfl⟩ := List.mem_map.mp member
    simpa using tokenId_ne token
  unfold realTokens paddedRow
  rw [List.takeWhile_append_of_pos real, noPad, List.append_nil, List.filterMap_map]
  simp only [Function.comp_def, tokenOf_tokenId, List.filterMap_some]

end Tokens

end Vllm.SpecDecode
