import VllmProofs.Data.FlatArrays
import VllmProofs.V1.Request

/-!
Speculative decoding with greedy sampling: which logits rows the model runner selects, how
`RejectionSampler.forward_native` compares them with the draft tokens, and which tokens `execute_model` returns.
These are right exactly when the draft lists are those of the batch in its own order.
-/

namespace Vllm.V1
open FlatArrays (cumsum cumsumFrom)

/-! ### NumPy and PyTorch -/

def npRepeat (xs : List ℤ) (counts : List ℕ) : List ℤ :=
  (List.zipWith (fun x n => List.replicate n x) xs counts).flatten

def npSub (xs ns : List ℕ) : List ℤ := List.zipWith (fun (x n : ℕ) => (x : ℤ) - (n : ℤ)) xs ns

def split {α : Type} (xs : List α) : List ℕ → List (List α)
  | [] => []
  | n :: rest => xs.take n :: split (xs.drop n) rest

def invalidTokenId : TokenId := -1

/-- `pad_sequence(rows, batch_first=True, padding_value=INVALID_TOKEN_ID)` -/
def padSequence (rows : List (List TokenId)) : List (List TokenId) :=
  let width := (rows.map List.length).foldr max 0
  rows.map fun row => row ++ List.replicate (width - row.length) invalidTokenId

/-- `mask.cumprod`, where all before are `acc`. -/
def cumprodFrom (acc : Bool) : List Bool → List Bool
  | [] => []
  | b :: rest => (acc && b) :: cumprodFrom (acc && b) rest

/-! ### The rejection sampler -/

def acceptMask (outputTokenIds draftTokenIds : List TokenId) : List Bool :=
  cumprodFrom true (List.zipWith (fun t d => t == d) outputTokenIds.dropLast draftTokenIds)

/-- One row of `generate_mask`, its first zero set. -/
def generateMask (outputTokenIds draftTokenIds : List TokenId) : List Bool :=
  let validMask := outputTokenIds.map fun t => t != invalidTokenId
  let mask := List.zipWith (fun a v => a && v) (acceptMask outputTokenIds draftTokenIds ++ [false]) validMask
  if false ∈ mask then mask.set (mask.idxOf false) true else mask

def sampleRow (outputTokenIds draftTokenIds : List TokenId) : List TokenId :=
  List.zipWith (fun t keep => if keep then t else invalidTokenId) outputTokenIds
    (generateMask outputTokenIds draftTokenIds)

/-- `forward_native`, given the argmax of each row of the target probabilities. -/
def forwardNative (draftTokenIds : List (List TokenId)) (targetTokenIds : List TokenId) :
    List (List TokenId) :=
  let sampleLens := draftTokenIds.map fun x => x.length + 1
  let draftTokenIdsTensor := padSequence draftTokenIds
  let outputTokenIds := padSequence (split targetTokenIds sampleLens)
  List.zipWith sampleRow outputTokenIds draftTokenIdsTensor

def validSampledTokenIds (sampledTokenIds : List (List TokenId)) : List (List TokenId) :=
  let maxGenLen := (sampledTokenIds.map List.length).foldr max 0
  if maxGenLen = 1 then sampledTokenIds
  else
    let genLens := sampledTokenIds.map fun row => row.countP fun t => t != invalidTokenId
    split (sampledTokenIds.flatten.filter fun t => t != invalidTokenId) genLens

/-! ### The batch of a step -/

/-- The requests of a step, as the scheduler's output and the runner's batch have them. -/
structure SpecBatch where
  numScheduledTokens : Dict RequestId ℕ
  scheduledSpecDecodeTokens : Dict RequestId (List TokenId)
  /-- `input_batch.req_ids` -/
  reqIds : List RequestId
  sameRequests : numScheduledTokens.keys.Perm reqIds
  /-- Draft tokens are scheduled behind a token of the request. -/
  draftsFit : ∀ id n, numScheduledTokens.get? id = some n →
    ((scheduledSpecDecodeTokens.get? id).getD []).length < n
  draftsAreTokens : ∀ id drafts, scheduledSpecDecodeTokens.get? id = some drafts → ∀ t ∈ drafts, 0 ≤ t

namespace SpecBatch

variable (b : SpecBatch)

def draftsOf (id : RequestId) : List TokenId := (b.scheduledSpecDecodeTokens.get? id).getD []

def numTokens : List ℕ := b.reqIds.map fun id => (b.numScheduledTokens.get? id).getD 0

def calcSpecDecodeMetadata (cuNumTokens : List ℕ) : List ℤ :=
  let numSpecDecodeTokens := b.reqIds.map fun id => (b.draftsOf id).length
  let numSampledTokens := numSpecDecodeTokens.map (· + 1)
  let logitsStartLoc := npRepeat (npSub cuNumTokens numSampledTokens) numSampledTokens
  let cuNumSampledTokens := cumsum numSampledTokens
  let cumsumsSampledOffsets := npRepeat (npSub cuNumSampledTokens numSampledTokens) numSampledTokens
  let sampledArange := List.zipWith (fun (i : ℕ) (offset : ℤ) => (i : ℤ) - offset)
    (List.range numSampledTokens.sum) cumsumsSampledOffsets
  List.zipWith (· + ·) logitsStartLoc sampledArange

def logitsIndices : List ℤ :=
  let cuNumTokens := cumsum b.numTokens
  if 0 < b.scheduledSpecDecodeTokens.size then b.calcSpecDecodeMetadata cuNumTokens
  else cuNumTokens.map fun (cu : ℕ) => (cu : ℤ) - 1

/-- The tokens `execute_model` returns; `argmax` is that of the target for a row of hidden states. -/
def sampledTokenIds (argmax : ℤ → ℕ) : List (List TokenId) :=
  let targetTokenIds := b.logitsIndices.map fun i => (argmax i : TokenId)
  let draftTokenIds := b.numScheduledTokens.keys.map b.draftsOf
  validSampledTokenIds (forwardNative draftTokenIds targetTokenIds)

end SpecBatch

/-! ### What is to be returned -/

/-- The draft tokens up to the first that the target disagrees with, and the target's token there. -/
def verify : List TokenId → List TokenId → List TokenId
  | d :: drafts, t :: target => if d = t then t :: verify drafts target else [t]
  | [], t :: _ => [t]
  | _, [] => []

/-- Consecutive rows of hidden states, `n` for each request. -/
def rowsFrom (first : ℕ) : List ℕ → List (List ℕ)
  | [] => []
  | n :: rest => List.range' first n :: rowsFrom (first + n) rest

/-- For each request of the batch, the rows of its last scheduled tokens, one more than it has drafts. -/
def SpecBatch.lastRows (b : SpecBatch) : List (List ℕ) :=
  List.zipWith (fun rows id => rows.drop (rows.length - ((b.draftsOf id).length + 1)))
    (rowsFrom 0 b.numTokens) b.reqIds

end Vllm.V1

namespace Vllm.V1
open FlatArrays (cumsum cumsumFrom)

/-! ### One row -/

variable {drafts target front back : List TokenId} {x : TokenId} {m k w : ℕ}

theorem cumprodFrom_false (mask : List Bool) : cumprodFrom false mask = List.replicate mask.length false := by
  induction mask with
  | nil => rfl
  | cons b rest ih => rw [cumprodFrom, Bool.false_and, ih, List.length_cons, List.replicate_succ]

theorem cumprodFrom_true {rest : List Bool} (stops : rest.head? ≠ some true) :
    cumprodFrom true (List.replicate m true ++ rest) =
      List.replicate m true ++ List.replicate rest.length false := by
  induction m with
  | zero =>
    cases rest with
    | nil => rfl
    | cons b rest =>
      cases b with
      | true => exact (stops rfl).elim
      | false =>
        rw [List.replicate_zero, List.nil_append, List.nil_append, cumprodFrom, Bool.true_and,
          cumprodFrom_false, List.length_cons, List.replicate_succ]
  | succ m ih =>
    rw [List.replicate_succ, List.cons_append, cumprodFrom, Bool.true_and, ih, List.cons_append]

theorem ne_invalid (valid : 0 ≤ x) : (x != invalidTokenId) = true := by
  apply bne_iff_ne.mpr
  rintro rfl
  exact absurd valid (by decide)

theorem zipWith_and_true (mask : List Bool) (row : List TokenId) (length : mask.length = row.length)
    (valid : ∀ y ∈ row, 0 ≤ y) :
    List.zipWith (fun a v => a && v) mask (row.map fun t => t != invalidTokenId) = mask := by
  induction row generalizing mask with
  | nil =>
    rw [List.length_eq_zero_iff.mp length]
    rfl
  | cons y rest ih =>
    cases mask with
    | nil => rfl
    | cons a mask =>
      rw [List.map_cons, List.zipWith_cons_cons, ne_invalid (valid y List.mem_cons_self), Bool.and_true,
        ih mask (Nat.succ.inj length) fun z member => valid z (List.mem_cons_of_mem y member)]

theorem zipWith_and_false (row : List TokenId) :
    List.zipWith (fun a v => a && v) (List.replicate row.length false)
      (row.map fun t => t != invalidTokenId) = List.replicate row.length false := by
  induction row with
  | nil => rfl
  | cons y rest ih =>
    rw [List.length_cons, List.replicate_succ, List.map_cons, List.zipWith_cons_cons, ih, Bool.false_and]

theorem generateMask_eq {draftRow : List TokenId} (valid : ∀ y ∈ front, 0 ≤ y)
    (accepted : acceptMask (front ++ x :: back) draftRow =
      List.replicate front.length true ++ List.replicate back.length false) :
    generateMask (front ++ x :: back) draftRow =
      List.replicate front.length true ++ true :: List.replicate back.length false := by
  have mask : List.zipWith (fun a v => a && v) (acceptMask (front ++ x :: back) draftRow ++ [false])
      ((front ++ x :: back).map fun t => t != invalidTokenId) =
      List.replicate front.length true ++ false :: List.replicate back.length false := by
    have behind := zipWith_and_false (x :: back)
    rw [accepted, List.append_assoc, ← List.replicate_succ', List.map_append, List.zipWith_append (by simp),
      zipWith_and_true _ _ (by simp) valid]
    rw [List.length_cons] at behind
    rw [behind, List.replicate_succ]
  have index : (List.replicate front.length true ++ false :: List.replicate back.length false).idxOf false =
      front.length := by
    rw [List.idxOf_append_of_notMem (by simp [List.mem_replicate]), List.length_replicate,
      List.idxOf_cons_self, Nat.add_zero]
  unfold generateMask
  dsimp only
  rw [mask, if_pos (by simp), index]
  rw [List.set_append_right _ _ (by simp)]
  simp

theorem zipWith_keep (mask : Bool) (row : List TokenId) :
    List.zipWith (fun t keep => if keep then t else invalidTokenId) row (List.replicate row.length mask) =
      if mask then row else List.replicate row.length invalidTokenId := by
  induction row with
  | nil => cases mask <;> rfl
  | cons y rest ih =>
    rw [List.length_cons, List.replicate_succ, List.zipWith_cons_cons, ih]
    cases mask <;> rfl

theorem sampleRow_eq {draftRow : List TokenId} (valid : ∀ y ∈ front, 0 ≤ y)
    (accepted : acceptMask (front ++ x :: back) draftRow =
      List.replicate front.length true ++ List.replicate back.length false) :
    sampleRow (front ++ x :: back) draftRow = front ++ x :: List.replicate back.length invalidTokenId := by
  unfold sampleRow
  rw [generateMask_eq valid accepted, List.zipWith_append (by simp), zipWith_keep,
    List.zipWith_cons_cons, zipWith_keep]
  rfl

/-- How far the target agrees with the draft tokens, padded as they are. -/
theorem agree_verify (valid : ∀ y ∈ target, 0 ≤ y) (length : target.length = drafts.length + 1)
    (le : drafts.length ≤ w) : ∃ front x back rest, target = front ++ x :: back ∧
      verify drafts target = front ++ [x] ∧
      List.zipWith (fun t d => t == d)
          (target ++ List.replicate (w - drafts.length) invalidTokenId).dropLast
          (drafts ++ List.replicate (w - drafts.length) invalidTokenId) =
        List.replicate front.length true ++ rest ∧ rest.head? ≠ some true := by
  induction drafts generalizing target w with
  | nil =>
    obtain ⟨x, rfl⟩ := List.length_eq_one_iff.mp length
    refine ⟨[], x, [], _, rfl, rfl, rfl, ?_⟩
    rw [List.length_nil, Nat.sub_zero, List.nil_append]
    cases w with
    | zero => nofun
    | succ w =>
      have different := ne_invalid (valid x List.mem_cons_self)
      rw [List.replicate_succ, List.singleton_append, List.dropLast_cons_cons, List.zipWith_cons_cons,
        List.head?_cons]
      intro same
      rw [Option.some.injEq, beq_iff_eq] at same
      rw [same] at different
      cases different
  | cons d drafts ih =>
    cases target with
    | nil => cases length
    | cons t target =>
      rw [List.length_cons, List.length_cons, Nat.add_right_cancel_iff] at length
      obtain ⟨v, rfl⟩ : ∃ v, w = v + 1 := ⟨w - 1, by
        rw [List.length_cons] at le
        omega⟩
      have le' : drafts.length ≤ v := by
        rw [List.length_cons] at le
        omega
      have width : v + 1 - (d :: drafts).length = v - drafts.length := by
        rw [List.length_cons]
        omega
      have some : target ++ List.replicate (v - drafts.length) invalidTokenId ≠ [] := by
        intro none
        rw [List.append_eq_nil_iff] at none
        rw [none.1] at length
        cases length
      rw [width, List.cons_append, List.dropLast_cons_of_ne_nil some, List.cons_append,
        List.zipWith_cons_cons]
      by_cases same : t = d
      · subst same
        obtain ⟨front, x, back, rest, rfl, verified, zipped, stops⟩ :=
          ih (fun y member => valid y (List.mem_cons_of_mem t member)) length le'
        refine ⟨t :: front, x, back, rest, rfl, ?_, ?_, stops⟩
        · rw [verify, if_pos rfl, verified, List.cons_append]
        · rw [zipped, beq_self_eq_true, List.length_cons, List.replicate_succ, List.cons_append]
      · refine ⟨[], t, target, _, rfl, ?_, rfl, ?_⟩
        · rw [verify, if_neg (Ne.symm same)]
          rfl
        · rw [List.head?_cons]
          intro agrees
          rw [Option.some.injEq, beq_iff_eq] at agrees
          exact same agrees

def pad (w : ℕ) (row : List TokenId) : List TokenId :=
  row ++ List.replicate (w - row.length) invalidTokenId

theorem length_pad (le : target.length ≤ w) : (pad w target).length = w := by
  unfold pad
  rw [List.length_append, List.length_replicate]
  omega

theorem filter_pad (valid : ∀ y ∈ target, 0 ≤ y) :
    (pad w target).filter (fun t => t != invalidTokenId) = target := by
  unfold pad
  rw [List.filter_append, List.filter_eq_self.mpr fun y member => ne_invalid (valid y member),
    List.filter_replicate]
  exact List.append_nil target

/-- Draft tokens, and the target's tokens at their places and behind them. -/
structure Fits (w : ℕ) (drafts target : List TokenId) : Prop where
  length : target.length = drafts.length + 1
  le : drafts.length ≤ w
  valid : ∀ y ∈ target, 0 ≤ y

theorem sampleRow_pad (fits : Fits w drafts target) :
    sampleRow (pad (w + 1) target) (pad w drafts) = pad (w + 1) (verify drafts target) ∧
      (verify drafts target).length ≤ w + 1 ∧ ∀ y ∈ verify drafts target, 0 ≤ y := by
  obtain ⟨front, x, back, rest, rfl, verified, zipped, stops⟩ := agree_verify fits.valid fits.length fits.le
  have length := fits.length
  have le := fits.le
  rw [List.length_append, List.length_cons] at length
  have validFront : ∀ y ∈ front, 0 ≤ y := fun y member => fits.valid y (List.mem_append_left _ member)
  have validHere : 0 ≤ x := fits.valid x (List.mem_append_right _ List.mem_cons_self)
  have width : w + 1 - (front ++ x :: back).length = w - drafts.length := by
    rw [List.length_append, List.length_cons]
    omega
  have accepted : acceptMask ((front ++ x :: back) ++ List.replicate (w - drafts.length) invalidTokenId)
      (drafts ++ List.replicate (w - drafts.length) invalidTokenId) =
      List.replicate front.length true ++
        List.replicate (back ++ List.replicate (w - drafts.length) invalidTokenId).length false := by
    have lengths := congrArg List.length zipped
    unfold acceptMask
    rw [zipped, cumprodFrom_true stops]
    congr 2
    simp only [List.length_zipWith, List.length_dropLast, List.length_append, List.length_cons,
      List.length_replicate] at lengths ⊢
    omega
  rw [verified]
  refine ⟨?_, ?_, ?_⟩
  · unfold pad
    rw [width]
    rw [List.append_assoc, List.cons_append] at accepted ⊢
    rw [sampleRow_eq validFront accepted, List.append_assoc, List.singleton_append]
    congr 3
    rw [List.length_append, List.length_append, List.length_replicate, List.length_singleton]
    omega
  · rw [List.length_append, List.length_singleton]
    omega
  · intro y member
    rcases List.mem_append.mp member with agreed | here
    · exact validFront y agreed
    · rw [List.mem_singleton.mp here]
      exact validHere

/-! ### All rows -/

variable {draftLists : List (List TokenId)} {targets rows : List (List TokenId)}

theorem le_width {row : List TokenId} (member : row ∈ rows) :
    row.length ≤ (rows.map List.length).foldr max 0 := by
  induction rows with
  | nil => cases member
  | cons first rest ih =>
    rw [List.map_cons, List.foldr_cons]
    rcases List.mem_cons.mp member with rfl | later
    · exact Nat.le_max_left _ _
    · exact (ih later).trans (Nat.le_max_right _ _)

theorem width_targets (fits : List.Forall₂ (fun d t => t.length = d.length + 1) draftLists targets)
    (some : draftLists ≠ []) : (targets.map List.length).foldr max 0 =
      (draftLists.map List.length).foldr max 0 + 1 := by
  induction fits with
  | nil => exact (some rfl).elim
  | @cons d t ds ts length rest ih =>
    rw [List.map_cons, List.map_cons, List.foldr_cons, List.foldr_cons, length]
    cases rest with
    | nil => simp
    | cons length' rest =>
      rw [ih (List.cons_ne_nil _ _)]
      omega

theorem split_flatten {α : Type} (xss : List (List α)) : split xss.flatten (xss.map List.length) = xss := by
  induction xss with
  | nil => rfl
  | cons xs rest ih =>
    rw [List.flatten_cons, List.map_cons, split, List.take_left, List.drop_left, ih]

theorem map_length_split {α : Type} {xs : List α} {lens : List ℕ} (enough : lens.sum ≤ xs.length) :
    (split xs lens).map List.length = lens := by
  induction lens generalizing xs with
  | nil => rfl
  | cons n rest ih =>
    rw [List.sum_cons] at enough
    rw [split, List.map_cons, List.length_take, ih (by rw [List.length_drop]; omega), Nat.min_eq_left (by omega)]

theorem mem_of_mem_split {α : Type} {xs piece : List α} {lens : List ℕ} {y : α}
    (isPiece : piece ∈ split xs lens) (member : y ∈ piece) : y ∈ xs := by
  induction lens generalizing xs with
  | nil => cases isPiece
  | cons n rest ih =>
    rw [split] at isPiece
    rcases List.mem_cons.mp isPiece with rfl | later
    · exact List.mem_of_mem_take member
    · exact List.mem_of_mem_drop (ih later)

theorem validSampledTokenIds_pad (le : ∀ row ∈ rows, row.length ≤ w + 1)
    (some : ∀ row ∈ rows, row ≠ []) (valid : ∀ row ∈ rows, ∀ y ∈ row, 0 ≤ y) :
    validSampledTokenIds (rows.map (pad (w + 1))) = rows := by
  have filtered : (rows.map (pad (w + 1))).map (List.filter fun t => t != invalidTokenId) = rows := by
    rw [List.map_map]
    exact (List.map_congr_left fun row member => filter_pad (valid row member)).trans (List.map_id rows)
  unfold validSampledTokenIds
  dsimp only
  split_ifs with one
  · apply (List.map_congr_left fun row member => ?_).trans (List.map_id rows)
    have length := le_width (List.mem_map_of_mem (f := pad (w + 1)) member)
    rw [one, length_pad (le row member)] at length
    have full : row.length = w + 1 := by
      have positive := List.length_pos_iff.mpr (some row member)
      have bounded := le row member
      omega
    unfold pad
    rw [full, Nat.sub_self]
    exact List.append_nil row
  · have counts : (rows.map (pad (w + 1))).map (fun row => row.countP fun t => t != invalidTokenId) =
        rows.map List.length := by
      rw [List.map_map]
      refine List.map_congr_left fun row member => ?_
      rw [Function.comp_apply, List.countP_eq_length_filter, filter_pad (valid row member)]
    rw [counts, List.filter_flatten, filtered, split_flatten]

theorem length_verify_pos (some : target ≠ []) : verify drafts target ≠ [] := by
  cases target with
  | nil => exact (some rfl).elim
  | cons t target =>
    cases drafts with
    | nil => nofun
    | cons d drafts =>
      rw [verify]
      split <;> nofun

variable {targetTokenIds : List TokenId}

theorem forall₂_split {draftLists : List (List TokenId)}
    (enough : (draftLists.map fun x => x.length + 1).sum ≤ targetTokenIds.length) :
    List.Forall₂ (fun d t => t.length = d.length + 1) draftLists
      (split targetTokenIds (draftLists.map fun x => x.length + 1)) := by
  have lengths := map_length_split enough
  rw [← List.forall₂_map_right_iff (f := List.length) (R := fun (d : List TokenId) n => n = d.length + 1), lengths,
    List.forall₂_map_right_iff]
  exact List.forall₂_same.mpr fun _ _ => rfl

theorem zipWith_sampleRow (fits : List.Forall₂ (Fits w) draftLists targets) :
    List.zipWith sampleRow (targets.map (pad (w + 1))) (draftLists.map (pad w)) =
        (List.zipWith verify draftLists targets).map (pad (w + 1)) ∧
      ∀ row ∈ List.zipWith verify draftLists targets,
        row.length ≤ w + 1 ∧ row ≠ [] ∧ ∀ y ∈ row, 0 ≤ y := by
  induction fits with
  | nil => exact ⟨rfl, nofun⟩
  | @cons d t ds ts here _ ih =>
    obtain ⟨padded, le, valid⟩ := sampleRow_pad here
    have some : t ≠ [] := by
      rintro rfl
      have length := here.length
      cases length
    constructor
    · rw [List.map_cons, List.map_cons, List.zipWith_cons_cons, List.zipWith_cons_cons, List.map_cons, padded,
        ih.1]
    · intro row member
      rw [List.zipWith_cons_cons] at member
      rcases List.mem_cons.mp member with rfl | later
      · exact ⟨le, length_verify_pos some, valid⟩
      · exact ih.2 row later

theorem verify_padded (fits : List.Forall₂ (fun d t => t.length = d.length + 1) draftLists targets)
    (valid : ∀ t ∈ targets, ∀ y ∈ t, 0 ≤ y) :
    validSampledTokenIds (List.zipWith sampleRow (padSequence targets) (padSequence draftLists)) =
      List.zipWith verify draftLists targets := by
  by_cases none : draftLists = []
  · subst none
    cases fits
    rfl
  · have width := width_targets fits none
    have each : List.Forall₂ (Fits ((draftLists.map List.length).foldr max 0)) draftLists targets := by
      have members := List.forall₂_iff_zip.mp fits
      refine List.forall₂_iff_zip.mpr ⟨members.1, fun {d t} pair => ?_⟩
      obtain ⟨inDrafts, inTargets⟩ := List.of_mem_zip pair
      exact ⟨members.2 pair, le_width inDrafts, valid t inTargets⟩
    obtain ⟨rows, all⟩ := zipWith_sampleRow each
    unfold padSequence
    dsimp only
    rw [width]
    exact (congrArg validSampledTokenIds rows).trans (validSampledTokenIds_pad (fun row member => (all row member).1)
      (fun row member => (all row member).2.1) fun row member => (all row member).2.2)

/-- The sampler compares each draft list with the rows behind those of the lists before it. -/
theorem forwardNative_verify
    (enough : (draftLists.map fun x => x.length + 1).sum ≤ targetTokenIds.length)
    (valid : ∀ y ∈ targetTokenIds, 0 ≤ y) :
    validSampledTokenIds (forwardNative draftLists targetTokenIds) =
      List.zipWith verify draftLists (split targetTokenIds (draftLists.map fun x => x.length + 1)) :=
  verify_padded (forall₂_split enough) fun _ isPiece _ member => valid _ (mem_of_mem_split isPiece member)

/-! ### The selected rows -/

variable {a o : ℕ} {counts sampled : List ℕ}

/-- The last rows of each request, as many as it is sampled for. -/
def lastOf (a : ℕ) (counts sampled : List ℕ) : List (List ℕ) :=
  List.zipWith (fun rows s => rows.drop (rows.length - s)) (rowsFrom a counts) sampled

theorem lastOf_cons {n s : ℕ} (le : s ≤ n) : lastOf a (n :: counts) (s :: sampled) =
    List.range' (a + n - s) s :: lastOf (a + n) counts sampled := by
  unfold lastOf
  rw [rowsFrom, List.zipWith_cons_cons, List.length_range', List.drop_range', Nat.mul_one]
  congr 2 <;> omega

/-- The index arithmetic of `_calc_spec_decode_metadata`, behind rows up to `a` and samples up to `o`. -/
theorem logitsIndices_from (le : List.Forall₂ (fun s n => s ≤ n) sampled counts) :
    List.zipWith (fun x y => x + y) (npRepeat (npSub (cumsumFrom a counts) sampled) sampled)
      (List.zipWith (fun (i : ℕ) (offset : ℤ) => (i : ℤ) - offset) (List.range' o sampled.sum)
        (npRepeat (npSub (cumsumFrom o sampled) sampled) sampled)) =
      (lastOf a counts sampled).flatten.map Int.ofNat := by
  induction le generalizing a o with
  | nil => rfl
  | @cons s n sampled counts here rest ih =>
    have first : List.zipWith (fun x y => x + y) (List.replicate s (((a + n : ℕ) : ℤ) - s))
        (List.zipWith (fun (i : ℕ) (offset : ℤ) => (i : ℤ) - offset) (List.range' o s)
          (List.replicate s (((o + s : ℕ) : ℤ) - s))) = (List.range' (a + n - s) s).map Int.ofNat := by
      apply List.ext_getElem
      · simp
      · intro i one two
        simp only [List.getElem_zipWith, List.getElem_replicate, List.getElem_range', List.getElem_map]
        push_cast
        simp only [Int.ofNat_eq_natCast]
        omega
    rw [cumsumFrom, cumsumFrom]
    unfold npRepeat npSub at ih ⊢
    rw [List.zipWith_cons_cons, List.zipWith_cons_cons, List.zipWith_cons_cons, List.zipWith_cons_cons,
      List.flatten_cons, List.flatten_cons, List.sum_cons, ← List.range'_append_1,
      List.zipWith_append (by simp), List.zipWith_append (by simp), ih, first, lastOf_cons here,
      List.flatten_cons, List.map_append]

theorem lastOf_one (some : ∀ n ∈ counts, 0 < n) :
    (cumsumFrom a counts).map (fun (cu : ℕ) => (cu : ℤ) - 1) =
      (lastOf a counts (counts.map fun _ => 1)).flatten.map Int.ofNat := by
  induction counts generalizing a with
  | nil => rfl
  | cons n counts ih =>
    have positive := some n List.mem_cons_self
    have last : ((a + n : ℕ) : ℤ) - 1 = ((a + n - 1 : ℕ) : ℤ) := by omega
    rw [cumsumFrom, List.map_cons, ih fun m member => some m (List.mem_cons_of_mem n member), List.map_cons,
      lastOf_cons positive, last]
    rfl

theorem length_lastOf (le : List.Forall₂ (fun s n => s ≤ n) sampled counts) :
    (lastOf a counts sampled).map List.length = sampled := by
  induction le generalizing a with
  | nil => rfl
  | cons here _ ih => rw [lastOf_cons here, List.map_cons, List.length_range', ih]

theorem lastOf_nodup (le : List.Forall₂ (fun s n => s ≤ n) sampled counts) :
    (lastOf a counts sampled).flatten.Nodup ∧ ∀ r ∈ (lastOf a counts sampled).flatten, a ≤ r := by
  induction le generalizing a with
  | nil => exact ⟨List.nodup_nil, nofun⟩
  | @cons s n sampled counts here rest ih =>
    obtain ⟨nodup, above⟩ := ih (a := a + n)
    rw [lastOf_cons here, List.flatten_cons]
    constructor
    · apply List.Nodup.append List.nodup_range' nodup
      intro r first later
      have bound := List.mem_range'_1.mp first
      have beyond := above r later
      omega
    · intro r member
      rcases List.mem_append.mp member with first | later
      · have bound := List.mem_range'_1.mp first
        omega
      · have beyond := above r later
        omega

/-! ### The batch -/

namespace SpecBatch

variable (b : SpecBatch)

def batchDrafts : List (List TokenId) := b.reqIds.map b.draftsOf

/-- The draft lists in the order of `num_scheduled_tokens`. -/
def schedulerDrafts : List (List TokenId) := b.numScheduledTokens.keys.map b.draftsOf

theorem drafts_perm : b.schedulerDrafts.Perm b.batchDrafts := b.sameRequests.map b.draftsOf

/-- What greedy verification is to return, for each request of the batch. -/
def expected (argmax : ℤ → ℕ) : List (List TokenId) :=
  List.zipWith (fun id rows => verify (b.draftsOf id) (rows.map fun (r : ℕ) => (argmax r : TokenId)))
    b.reqIds b.lastRows

theorem lastRows_eq : b.lastRows = lastOf 0 b.numTokens (b.batchDrafts.map fun x => x.length + 1) := by
  unfold lastRows lastOf batchDrafts
  rw [List.map_map, List.zipWith_map_right]
  rfl

theorem sampled_le : List.Forall₂ (fun s n => s ≤ n) (b.batchDrafts.map fun x => x.length + 1) b.numTokens := by
  unfold batchDrafts numTokens
  rw [List.map_map, List.forall₂_map_left_iff, List.forall₂_map_right_iff]
  apply List.forall₂_same.mpr
  intro id member
  obtain ⟨n, found⟩ := Dict.mem_keys_iff.mp (b.sameRequests.mem_iff.mpr member)
  rw [found]
  exact b.draftsFit id n found

theorem logitsIndices_eq : b.logitsIndices = b.lastRows.flatten.map Int.ofNat := by
  have le := b.sampled_le
  rw [lastRows_eq]
  unfold logitsIndices
  dsimp only
  split
  · unfold calcSpecDecodeMetadata cumsum
    dsimp only
    have sampled : (b.reqIds.map fun id => (b.draftsOf id).length).map (· + 1) =
        b.batchDrafts.map fun x => x.length + 1 := by
      unfold batchDrafts
      rw [List.map_map, List.map_map]
      rfl
    rw [sampled, List.range_eq_range']
    exact logitsIndices_from le
  · rename_i none
    have ones : (b.batchDrafts.map fun x => x.length + 1) = b.numTokens.map fun _ => 1 := by
      unfold batchDrafts numTokens
      rw [List.map_map, List.map_map]
      refine List.map_congr_left fun id _ => ?_
      have absent := Dict.size_eq_zero_iff.mp (Nat.eq_zero_of_not_pos none) id
      show ((b.scheduledSpecDecodeTokens.get? id).getD []).length + 1 = 1
      rw [absent]
      rfl
    rw [ones] at le ⊢
    apply lastOf_one
    intro n member
    exact (List.forall₂_map_left_iff.mp le |> List.forall₂_same.mp) n member

theorem split_targets (argmax : ℤ → ℕ) :
    split (b.logitsIndices.map fun i => (argmax i : TokenId)) (b.batchDrafts.map fun x => x.length + 1) =
      b.lastRows.map (List.map fun (r : ℕ) => (argmax r : TokenId)) := by
  have lengths := length_lastOf (a := 0) b.sampled_le
  rw [← b.lastRows_eq] at lengths
  have pieces := split_flatten (b.lastRows.map (List.map fun (r : ℕ) => (argmax r : TokenId)))
  rw [List.map_map, ← List.map_flatten] at pieces
  rw [b.logitsIndices_eq, List.map_map]
  have same : (b.lastRows.map (List.length ∘ List.map fun (r : ℕ) => (argmax r : TokenId))) =
      b.batchDrafts.map fun x => x.length + 1 := by
    rw [← lengths]
    exact List.map_congr_left fun rows _ => List.length_map _
  rw [same] at pieces
  exact pieces

theorem length_targets : b.logitsIndices.length = (b.batchDrafts.map fun x => x.length + 1).sum := by
  rw [b.logitsIndices_eq, List.length_map, List.length_flatten, lastRows_eq, length_lastOf b.sampled_le]

theorem sampledTokenIds_eq (argmax : ℤ → ℕ) : b.sampledTokenIds argmax =
    List.zipWith verify b.schedulerDrafts (split (b.logitsIndices.map fun i => (argmax i : TokenId))
      (b.schedulerDrafts.map fun x => x.length + 1)) := by
  apply forwardNative_verify
  · rw [List.length_map, b.length_targets]
    exact ((b.drafts_perm.map fun x => x.length + 1).sum_eq).le
  · intro y member
    obtain ⟨i, -, rfl⟩ := List.mem_map.mp member
    exact Int.natCast_nonneg _

theorem expected_eq (argmax : ℤ → ℕ) : b.expected argmax =
    List.zipWith verify b.batchDrafts (split (b.logitsIndices.map fun i => (argmax i : TokenId))
      (b.batchDrafts.map fun x => x.length + 1)) := by
  rw [b.split_targets]
  unfold expected batchDrafts
  rw [List.zipWith_map]

end SpecBatch

/-! ### Other orders -/

/-- Another draft list is not accepted up to the same point, for some tokens of the target. -/
theorem verify_ne {others : List TokenId} (different : drafts ≠ others) (long : others.length < target.length)
    (agrees : drafts ++ [others[drafts.length]?.getD 0] <+: target) :
    verify others (target.take (others.length + 1)) ≠ drafts ++ [others[drafts.length]?.getD 0] := by
  induction drafts generalizing others target with
  | nil =>
    cases others with
    | nil => exact (different rfl).elim
    | cons e others =>
      obtain ⟨more, rfl⟩ := agrees
      have some : more.take (others.length + 1) ≠ [] := by
        rintro none
        have lengths := congrArg List.length none
        simp only [List.length_nil, List.length_take, List.length_append, List.length_cons] at lengths long
        omega
      simp only [List.length_nil, List.getElem?_cons_zero, Option.getD_some, List.nil_append,
        List.singleton_append, List.length_cons, List.take_succ_cons, verify, ↓reduceIte]
      intro same
      exact length_verify_pos some (List.cons.inj same).2
  | cons d drafts ih =>
    obtain ⟨more, rfl⟩ := agrees
    cases others with
    | nil => simp [verify]
    | cons e others =>
      rw [List.cons_append, List.cons_append, List.length_cons, List.length_cons, List.take_succ_cons,
        List.getElem?_cons_succ, verify]
      split
      · rename_i same
        subst same
        intro equal
        refine ih (fun same => different (by rw [same])) ?_ (List.prefix_append _ more) (List.cons.inj equal).2
        simp only [List.length_append, List.length_cons] at long ⊢
        omega
      · simp

theorem verify_self : verify drafts (drafts ++ [x]) = drafts ++ [x] := by
  induction drafts with
  | nil => rfl
  | cons d drafts ih => rw [List.cons_append, verify, if_pos rfl, ih]

theorem map_ofNat_toNat (valid : ∀ y ∈ drafts, 0 ≤ y) :
    (drafts.map Int.toNat).map Int.ofNat = drafts := by
  rw [List.map_map]
  exact (List.map_congr_left fun y member => Int.toNat_of_nonneg (valid y member)).trans (List.map_id drafts)

/-- Lists in another order are misread, for some tokens of the target. -/
theorem exists_misread {mine others : List (List TokenId)} (lengths : mine.length = others.length)
    (same : (mine.map fun x => x.length + 1).sum = (others.map fun x => x.length + 1).sum)
    (validMine : ∀ m ∈ mine, ∀ y ∈ m, 0 ≤ y) (validOthers : ∀ o ∈ others, ∀ y ∈ o, 0 ≤ y)
    (different : mine ≠ others) : ∃ targetTokenIds : List ℕ,
      targetTokenIds.length = (mine.map fun x => x.length + 1).sum ∧
      List.zipWith verify others (split (targetTokenIds.map Int.ofNat) (others.map fun x => x.length + 1)) ≠
        List.zipWith verify mine (split (targetTokenIds.map Int.ofNat) (mine.map fun x => x.length + 1)) := by
  induction mine generalizing others with
  | nil =>
    rw [List.length_nil, eq_comm, List.length_eq_zero_iff] at lengths
    exact (different lengths.symm).elim
  | cons m mine ih =>
    cases others with
    | nil => cases lengths
    | cons o others =>
      rw [List.map_cons, List.map_cons, List.sum_cons, List.sum_cons] at same
      simp only [List.map_cons, split, List.zipWith_cons_cons, List.sum_cons]
      by_cases here : m = o
      · subst here
        obtain ⟨rest, length, misread⟩ := ih (Nat.succ.inj lengths) (by omega)
          (fun n member => validMine n (List.mem_cons_of_mem m member))
          (fun n member => validOthers n (List.mem_cons_of_mem m member)) fun equal => different (by rw [equal])
        refine ⟨List.replicate (m.length + 1) 0 ++ rest, by simp [length], ?_⟩
        intro equal
        rw [List.map_append, List.drop_left' (by simp)] at equal
        exact misread (List.cons.inj equal).2
      · have bonus : 0 ≤ o[m.length]?.getD 0 := by
          cases at_ : o[m.length]? with
          | none => exact le_rfl
          | some y => exact validOthers o List.mem_cons_self y (List.mem_of_getElem? at_)
        refine ⟨m.map Int.toNat ++ (o[m.length]?.getD 0).toNat ::
          List.replicate (mine.map fun x => x.length + 1).sum 0, ?_, ?_⟩
        · rw [List.length_append, List.length_map, List.length_cons, List.length_replicate]
          omega
        · intro equal
          have heads := (List.cons.inj equal).1
          rw [List.map_append, List.map_cons, map_ofNat_toNat (validMine m List.mem_cons_self),
            Int.ofNat_eq_natCast, Int.toNat_of_nonneg bonus] at heads
          have start : m ++ [o[m.length]?.getD 0] <+: m ++ o[m.length]?.getD 0 ::
              (List.replicate (mine.map fun x => x.length + 1).sum 0).map Int.ofNat :=
            ⟨_, by rw [List.append_assoc, List.singleton_append]⟩
          have whole := List.prefix_iff_eq_take.mp start
          rw [List.length_append, List.length_singleton] at whole
          rw [← whole, verify_self] at heads
          refine verify_ne here ?_ start heads
          rw [List.length_append, List.length_cons, List.length_map, List.length_replicate]
          omega

theorem SpecBatch.exists_argmax (b : SpecBatch) {targetTokenIds : List ℕ}
    (length : targetTokenIds.length = b.lastRows.flatten.length) :
    ∃ argmax : ℤ → ℕ, (b.logitsIndices.map fun i => (argmax i : TokenId)) = targetTokenIds.map Int.ofNat := by
  have nodup := (lastOf_nodup (a := 0) b.sampled_le).1
  rw [← b.lastRows_eq] at nodup
  refine ⟨fun i => (targetTokenIds[b.lastRows.flatten.idxOf i.toNat]?).getD 0, ?_⟩
  rw [b.logitsIndices_eq, List.map_map]
  apply List.ext_getElem
  · rw [List.length_map, List.length_map, length]
  · intro i one two
    rw [List.length_map] at one two
    simp only [List.getElem_map, Function.comp_apply, Int.ofNat_eq_natCast, Int.toNat_natCast,
      nodup.idxOf_getElem, List.getElem?_eq_getElem two, Option.getD_some]

/-- The selected rows are always those of the last scheduled tokens; the tokens returned are right, for
all that the target may compute, exactly when both orders give the same draft lists. -/
theorem SpecBatch.returned_iff (b : SpecBatch) :
    (b.logitsIndices = b.lastRows.flatten.map Int.ofNat ∧
      ∀ argmax, b.sampledTokenIds argmax = b.expected argmax) ↔ b.schedulerDrafts = b.batchDrafts := by
  have valid : ∀ drafts ∈ b.batchDrafts, ∀ y ∈ drafts, 0 ≤ y := by
    intro drafts member
    obtain ⟨id, -, rfl⟩ := List.mem_map.mp member
    unfold SpecBatch.draftsOf
    cases found : b.scheduledSpecDecodeTokens.get? id with
    | none => nofun
    | some drafts => exact b.draftsAreTokens id drafts found
  constructor
  · rintro ⟨-, returned⟩
    by_contra different
    obtain ⟨targetTokenIds, length, misread⟩ := exists_misread b.drafts_perm.length_eq.symm
      ((b.drafts_perm.map fun x => x.length + 1).sum_eq).symm valid
      (fun drafts member => valid drafts (b.drafts_perm.mem_iff.mp member)) (Ne.symm different)
    have rows : targetTokenIds.length = b.lastRows.flatten.length := by
      rw [length, ← b.length_targets, b.logitsIndices_eq, List.length_map]
    obtain ⟨argmax, tokens⟩ := b.exists_argmax rows
    apply misread
    have equal := returned argmax
    rw [b.sampledTokenIds_eq, b.expected_eq, tokens] at equal
    exact equal
  · intro same
    refine ⟨b.logitsIndices_eq, fun argmax => ?_⟩
    rw [b.sampledTokenIds_eq, b.expected_eq, same]

/-- The first two requests are in one order in the scheduler's output and in the other in the batch. -/
def swappedBatch : SpecBatch where
  numScheduledTokens := ((∅ : Dict RequestId ℕ).insert 0 1).insert 1 2
  scheduledSpecDecodeTokens := (∅ : Dict RequestId (List TokenId)).insert 1 [5]
  reqIds := [1, 0]
  sameRequests := by decide
  draftsFit id n found := by
    rw [Dict.get?_insert, Dict.get?_insert] at found
    rw [Dict.get?_insert]
    split_ifs at found ⊢
    · cases found
      decide
    · cases found
      exact Nat.zero_lt_one
    · cases found
  draftsAreTokens id drafts found := by
    rw [Dict.get?_insert] at found
    split at found
    · cases found
      decide
    · cases found

/-- The draft token, which the target agrees with, is held against the row behind it. -/
theorem swappedBatch_misread : swappedBatch.sampledTokenIds (fun i => if i = 0 then 5 else 7) ≠
    swappedBatch.expected fun i => if i = 0 then 5 else 7 := by
  decide +kernel

end Vllm.V1
