import Mathlib.Probability.Distributions.Uniform
import VllmProofs.SpecDecode.RejectionSampler

namespace Vllm.SpecDecode
open Sampling

variable {v : Nat}

noncomputable section

/-- What the two models say of a sequence's next token, given those generated since the step began. -/
structure Speculation (v : Nat) where
  target : List (Fin v) → PMF (Fin v)
  draft : List (Fin v) → PMF (Fin v)

/-- The speculation that is left once a token is certain. -/
def Speculation.after (request : Speculation v) (token : Fin v) : Speculation v where
  target past := request.target (token :: past)
  draft past := request.draft (token :: past)

structure Proposal (v : Nat) where
  request : Speculation v
  tokenIds : List (Fin v)

/-- The draft model samples `k` tokens one after the other. -/
def propose (k : Nat) (request : Speculation v) : PMF (Proposal v) :=
  (run request.draft k).map fun tokenIds => { request, tokenIds }

/-- The sampler's input for drafts and a bonus token. -/
def samplerRow (request : Speculation v) (tokenIds : List (Fin v)) (bonusTokenId : Fin v) :
    SamplerRow v where
  targetWithBonusProbs :=
    (List.range (tokenIds.length + 1)).map fun i => request.target (tokenIds.take i)
  bonusTokenId
  draftProbs := (List.range tokenIds.length).map fun i => request.draft (tokenIds.take i)
  draftTokenIds := tokenIds

/-- The target scores every prefix of the drafts and samples the bonus token after all of them. -/
def score (proposal : Proposal v) : PMF (SamplerRow v) :=
  (proposal.request.target proposal.tokenIds).map (samplerRow proposal.request proposal.tokenIds)

/-- One speculative step of a batch. -/
def speculate (k : Nat) (batch : List (Speculation v)) : PMF (List (List Int)) :=
  ((each (batch.map (propose k))).bind fun proposals => each (proposals.map score)).bind forward

/-- The tokens of an output row, followed by samples from the target up to `count` tokens. -/
def continued (request : Speculation v) (count : Nat) (row : List Int) : PMF (List (Fin v)) :=
  let tokens := realTokens row
  (run (fun past => request.target (tokens ++ past)) (count - tokens.length)).map (tokens ++ ·)

-- One row

def emission (k : Nat) (request : Speculation v) : PMF (List (Fin v)) :=
  (run request.draft k).bind fun drafts => (request.target drafts).bind fun bonus =>
    (samplerRow request drafts bonus).getAccepted.bind fun accepted =>
      (samplerRow request drafts bonus).getRecovered.map fun recovered =>
        emittedTokens accepted recovered drafts bonus

section
variable (request : Speculation v)
include request

theorem samplerRow_targetProbs (drafts : List (Fin v)) (bonus : Fin v) :
    (samplerRow request drafts bonus).targetProbs =
      (List.range drafts.length).map fun i => request.target (drafts.take i) := by
  rw [SamplerRow.targetProbs, samplerRow, List.range_succ, List.map_append, List.map_singleton,
    List.dropLast_concat]

theorem getAccepted_cons (draft : Fin v) (drafts : List (Fin v)) (bonus : Fin v) :
    (samplerRow request (draft :: drafts) bonus).getAccepted =
      (accepts (cappedRatio (request.target []) (request.draft []) draft)).bind fun kept =>
        (samplerRow (request.after draft) drafts bonus).getAccepted.map (kept :: ·) := by
  simp only [SamplerRow.getAccepted, samplerRow_targetProbs]
  simp [samplerRow, List.range_succ_eq_map, List.zipWith3, each_cons, Function.comp_def,
    Speculation.after]

theorem getRecovered_cons (draft : Fin v) (drafts : List (Fin v)) (bonus : Fin v) :
    (samplerRow request (draft :: drafts) bonus).getRecovered =
      (getRecoveredProbs (request.target []) (request.draft [])).bind fun substitute =>
        (samplerRow (request.after draft) drafts bonus).getRecovered.map (substitute :: ·) := by
  simp only [SamplerRow.getRecovered, samplerRow_targetProbs]
  simp [samplerRow, List.range_succ_eq_map, each_cons, Function.comp_def, Speculation.after]

theorem emission_zero : emission 0 request = (request.target []).map ([·]) := by
  simp [emission, SamplerRow.getAccepted, SamplerRow.getRecovered, samplerRow_targetProbs,
    List.zipWith3, PMF.pure_bind, PMF.pure_map, emittedTokens]
  rfl

/-- The substitute of a position matters when its draft is rejected, everything after it when the
draft is kept. -/
theorem emission_rest (draft : Fin v) (drafts : List (Fin v)) (bonus : Fin v) (kept : Bool) :
    ((samplerRow (request.after draft) drafts bonus).getAccepted.bind fun accepted =>
        (samplerRow request (draft :: drafts) bonus).getRecovered.map fun recovered =>
          emittedTokens (kept :: accepted) recovered (draft :: drafts) bonus) =
      if kept then
        ((samplerRow (request.after draft) drafts bonus).getAccepted.bind fun accepted =>
          (samplerRow (request.after draft) drafts bonus).getRecovered.map fun recovered =>
            draft :: emittedTokens accepted recovered drafts bonus)
      else (getRecoveredProbs (request.target []) (request.draft [])).map ([·]) := by
  cases kept with
  | true =>
    simp only [getRecovered_cons, PMF.map_bind, PMF.map_comp, Function.comp_def, emittedTokens,
      PMF.bind_const, if_pos]
  | false =>
    have unused (substitute : Fin v) :
        (samplerRow (request.after draft) drafts bonus).getRecovered.map (fun _ => [substitute]) =
          PMF.pure [substitute] := PMF.map_const _ _
    simp only [getRecovered_cons, PMF.map_bind, PMF.map_comp, Function.comp_def, emittedTokens,
      PMF.bind_const, Bool.false_eq_true, if_false, unused]
    rfl

end

/-- The first position decides whether the rest of the step counts. -/
theorem emission_succ (k : Nat) (request : Speculation v) :
    emission (k + 1) request = (request.draft []).bind fun draft =>
      (accepts (cappedRatio (request.target []) (request.draft []) draft)).bind fun kept =>
        if kept then (emission k (request.after draft)).map (draft :: ·)
        else (getRecoveredProbs (request.target []) (request.draft [])).map ([·]) := by
  unfold emission
  rw [run_succ, PMF.bind_bind]
  congr 1
  funext draft
  rw [PMF.bind_map]
  simp only [Function.comp_def, getAccepted_cons, PMF.bind_bind, PMF.bind_map]
  -- The coin of the first position is moved before the draws of the later ones.
  calc
    _ = (run (request.after draft).draft k).bind (fun drafts =>
          (accepts (cappedRatio (request.target []) (request.draft []) draft)).bind fun kept =>
            ((request.after draft).target drafts).bind fun bonus =>
              (samplerRow (request.after draft) drafts bonus).getAccepted.bind fun accepted =>
                (samplerRow request (draft :: drafts) bonus).getRecovered.map fun recovered =>
                  emittedTokens (kept :: accepted) recovered (draft :: drafts) bonus) := by
      congr 1
      funext drafts
      exact PMF.bind_comm _ _ _
    _ = (accepts (cappedRatio (request.target []) (request.draft []) draft)).bind (fun kept =>
          (run (request.after draft).draft k).bind fun drafts =>
            ((request.after draft).target drafts).bind fun bonus =>
              (samplerRow (request.after draft) drafts bonus).getAccepted.bind fun accepted =>
                (samplerRow request (draft :: drafts) bonus).getRecovered.map fun recovered =>
                  emittedTokens (kept :: accepted) recovered (draft :: drafts) bonus) :=
      PMF.bind_comm _ _ _
    _ = _ := by
      congr 1
      funext kept
      simp only [emission_rest]
      cases kept with
      | true => simp only [if_true, PMF.map_bind, PMF.map_comp, Function.comp_def]
      | false => simp only [Bool.false_eq_true, if_false, PMF.bind_const]

theorem keep_probability (request : Speculation v) (draft : Fin v) :
    accepts (cappedRatio (request.target []) (request.draft []) draft) true =
      min (request.target [] draft / request.draft [] draft) 1 :=
  accepts_true (min_le_right _ _)

/-- The tokens `tokens`, then samples from the target up to `count` tokens. -/
def extended (request : Speculation v) (count : Nat) (tokens : List (Fin v)) : PMF (List (Fin v)) :=
  (run (fun past => request.target (tokens ++ past)) (count - tokens.length)).map (tokens ++ ·)

theorem extended_cons (request : Speculation v) (count : Nat) (token : Fin v)
    (tokens : List (Fin v)) :
    extended request (count + 1) (token :: tokens) =
      (extended (request.after token) count tokens).map (token :: ·) := by
  rw [extended, extended, PMF.map_comp, List.length_cons, Nat.add_sub_add_right]
  rfl

theorem extended_nil (request : Speculation v) (count : Nat) :
    extended request count [] = run request.target count := by
  simp only [extended, List.nil_append, List.length_nil, Nat.sub_zero]
  exact PMF.map_id _

theorem extended_single (request : Speculation v) (count : Nat) (token : Fin v) :
    extended request (count + 1) [token] =
      (run (request.after token).target count).map (token :: ·) := by
  rw [extended_cons, extended_nil]

/-- What a step emits, continued by the target, is what the target alone generates. -/
theorem emission_law (k : Nat) (request : Speculation v) :
    (emission k request).bind (extended request (k + 1)) = run request.target (k + 1) := by
  induction k generalizing request with
  | zero =>
    rw [emission_zero, PMF.bind_map, run_succ]
    simp only [Function.comp_def, extended_single]
    rfl
  | succ k ih =>
    let rest (token : Fin v) := (run (request.after token).target (k + 1)).map (token :: ·)
    have keptRest (draft : Fin v) : ((emission k (request.after draft)).map (draft :: ·)).bind
        (extended request (k + 1 + 1)) = rest draft := by
      rw [PMF.bind_map]
      change _ = (run (request.after draft).target (k + 1)).map (draft :: ·)
      rw [← ih, PMF.map_bind]
      congr 1
      funext tokens
      exact extended_cons request (k + 1) draft tokens
    have replacedRest : ((getRecoveredProbs (request.target []) (request.draft [])).map ([·])).bind
        (extended request (k + 1 + 1)) =
          (getRecoveredProbs (request.target []) (request.draft [])).bind rest := by
      rw [PMF.bind_map]
      simp only [Function.comp_def, extended_single, rest]
    have first := replaced_law (keep_probability request) getRecoveredProbs_residual
    rw [run_succ, ← first, emission_succ]
    simp only [PMF.bind_bind]
    congr 1
    funext draft
    congr 1
    funext kept
    cases kept with
    | true => simp only [if_true, keptRest, PMF.pure_bind]; rfl
    | false => simp only [Bool.false_eq_true, if_false, replacedRest]; rfl

-- The rows of a batch

theorem length_zipWith3 {α β γ δ : Type} (f : α → β → γ → δ) (xs : List α) (ys : List β)
    (zs : List γ) :
    (List.zipWith3 f xs ys zs).length = min (min xs.length ys.length) zs.length := by
  induction xs generalizing ys zs with
  | nil => simp [List.zipWith3]
  | cons x xs ih =>
    cases ys with
    | nil => simp [List.zipWith3]
    | cons y ys =>
      cases zs with
      | nil => simp [List.zipWith3]
      | cons z zs => simp only [List.zipWith3, List.length_cons, ih, Nat.add_min_add_right]

theorem samplerRow_lengths {request : Speculation v} {drafts : List (Fin v)} {bonus : Fin v}
    {accepted : List Bool} {recovered : List (Fin v)}
    (coins : accepted ∈ (samplerRow request drafts bonus).getAccepted.support)
    (substitutes : recovered ∈ (samplerRow request drafts bonus).getRecovered.support) :
    accepted.length = drafts.length ∧ recovered.length = drafts.length := by
  have perCoin := length_of_each coins
  have perSubstitute := length_of_each substitutes
  rw [samplerRow_targetProbs] at perCoin perSubstitute
  constructor
  · rw [perCoin]
    simp [length_zipWith3, samplerRow]
  · rw [perSubstitute]
    simp [samplerRow]

/-- A step emits at least one token and at most one more than was drafted. -/
theorem length_of_emission {k : Nat} {request : Speculation v} {tokens : List (Fin v)}
    (emitted : tokens ∈ (emission k request).support) : tokens ≠ [] ∧ tokens.length ≤ k + 1 := by
  induction k generalizing request tokens with
  | zero =>
    rw [emission_zero] at emitted
    obtain ⟨token, _, rfl⟩ := (PMF.mem_support_map_iff ..).mp emitted
    simp
  | succ k ih =>
    rw [emission_succ, PMF.mem_support_bind_iff] at emitted
    obtain ⟨draft, _, emitted⟩ := emitted
    obtain ⟨kept, _, emitted⟩ := (PMF.mem_support_bind_iff ..).mp emitted
    cases kept with
    | true =>
      obtain ⟨rest, member, rfl⟩ := (PMF.mem_support_map_iff ..).mp emitted
      have shorter := (ih member).2
      exact ⟨List.cons_ne_nil _ _, by simpa using shorter⟩
    | false =>
      obtain ⟨token, _, rfl⟩ := (PMF.mem_support_map_iff ..).mp emitted
      simp

/-- Every output row is made of the tokens the step emits and then only `-1`. -/
theorem rowLaw {k : Nat} (drafts : 0 < k) (request : Speculation v) :
    ((propose k request).bind score).bind forwardRow =
      (emission k request).map (paddedRow (k + 1)) := by
  unfold emission
  simp only [propose, PMF.bind_map, PMF.map_bind, Function.comp_def, score, PMF.bind_bind]
  apply bind_congr_support
  intro tokenIds drawn
  have length := run_length drawn
  congr 1
  funext bonus
  apply bind_congr_support
  intro accepted coins
  rw [PMF.map_comp]
  apply bind_congr_support
  intro recovered substitutes
  have ⟨asMany, perDraft⟩ := samplerRow_lengths coins substitutes
  have columns : tokenIds ≠ [] := by
    intro none
    rw [none, List.length_nil] at length
    omega
  have row := createOutput_eq bonus asMany perDraft columns
  rw [length] at row
  exact congrArg PMF.pure row

theorem speculate_eq {k : Nat} (drafts : 0 < k) (batch : List (Speculation v)) : speculate k batch =
      each (batch.map fun request => (emission k request).map (paddedRow (k + 1))) := by
  have stages : forward = fun rows : List (SamplerRow v) => each (rows.map forwardRow) :=
    funext forward_eq
  rw [speculate, each_bind_each, stages, each_bind_each]
  simp only [rowLaw drafts]

theorem continued_paddedRow (request : Speculation v) (count columns : Nat)
    (tokens : List (Fin v)) :
    continued request count (paddedRow columns tokens) = extended request count tokens := by
  unfold continued extended
  rw [realTokens_paddedRow]

theorem mem_of_each {α β : Type} {f : α → PMF β} {xs : List α} {ys : List β}
    (drawn : ys ∈ (each (xs.map f)).support) {y : β} (member : y ∈ ys) :
    ∃ x ∈ xs, y ∈ (f x).support := by
  induction xs generalizing ys with
  | nil =>
    rw [List.map_nil, each_nil, PMF.mem_support_pure_iff] at drawn
    exact absurd member (by simp [drawn])
  | cons x xs ih =>
    rw [List.map_cons, each_cons, PMF.mem_support_bind_iff] at drawn
    obtain ⟨first, fromFirst, drawn⟩ := drawn
    obtain ⟨rest, fromRest, rfl⟩ := (PMF.mem_support_map_iff ..).mp drawn
    rcases List.mem_cons.mp member with same | later
    · exact ⟨x, List.mem_cons_self, same ▸ fromFirst⟩
    · obtain ⟨other, inside, supported⟩ := ih fromRest later
      exact ⟨other, List.mem_cons_of_mem x inside, supported⟩

/-- Speculative sampling is exact: every output row is a non-empty list of real tokens followed by
`-1` only, and the rows continued by the targets are independent samples of the targets. -/
theorem speculate_law {k : Nat} (drafts : 1 ≤ k) (batch : List (Speculation v)) :
    (∀ rows ∈ (speculate k batch).support, ∀ row ∈ rows, ∃ tokens : List (Fin v), tokens ≠ [] ∧
      tokens.length ≤ k + 1 ∧
      row = tokens.map tokenId ++ List.replicate (k + 1 - tokens.length) (-1)) ∧
    ((speculate k batch).bind fun rows =>
      each (List.zipWith (fun request row => continued request (k + 1) row) batch rows)) =
        each (batch.map fun request => run request.target (k + 1)) ∧
    ∀ (request : Speculation v) (xs : List (Fin v)), xs.length = k + 1 →
      run request.target (k + 1) xs = ∏ i : Fin xs.length, request.target (xs.take i) xs[i] := by
  refine ⟨?_, ?_, ?_⟩
  · intro rows drawn row member
    rw [speculate_eq drafts] at drawn
    obtain ⟨request, _, supported⟩ := mem_of_each drawn member
    obtain ⟨tokens, emitted, rfl⟩ := (PMF.mem_support_map_iff ..).mp supported
    have ⟨emits, bounded⟩ := length_of_emission emitted
    exact ⟨tokens, emits, bounded, rfl⟩
  · rw [speculate_eq drafts, each_bind_zipWith]
    simp only [PMF.bind_map, Function.comp_def, continued_paddedRow]
    congr 1
    apply List.map_congr_left
    intro request _
    exact emission_law k request
  · intro request xs length
    rw [← length]
    exact run_apply request.target xs

/-- A draft model that knows one token only, for a target that takes either. -/
def lopsided : Speculation 2 where
  target _ := PMF.uniformOfFintype (Fin 2)
  draft _ := PMF.pure 0

theorem speculate_lopsided : ((speculate 2 [lopsided, lopsided]).bind fun rows => each (List.zipWith
      (fun request row => continued request 3 row) [lopsided, lopsided] rows)) =
        each [run lopsided.target 3, run lopsided.target 3] :=
  (speculate_law (by decide) [lopsided, lopsided]).2.1

end

end Vllm.SpecDecode
