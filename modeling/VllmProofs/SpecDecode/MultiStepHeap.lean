import VllmProofs.SpecDecode.MultiStep

/-!
The heap of a call of `sampler_output`: the heap it was given, and the objects it made, each with an array and a list of
its own. What the call appends to lists of newly appended tokens is in the first part.
-/

namespace Vllm.SpecDecode.MultiStep

structure Cell where
  promptTokenIds : List TokenId
  outputTokenIds : List TokenId
  cachedAllTokenIds : List TokenId
  newAppendedTokens : ℕ
  cumulativeLogprob : ℚ
  numComputedTokens : ℤ
  stage : SequenceStage

namespace Cell

def data (c : Cell) (array cache : ℕ) : SequenceData where
  promptTokenIds := c.promptTokenIds
  outputTokenIds := array
  cachedAllTokenIds := cache
  newAppendedTokens := c.newAppendedTokens
  cumulativeLogprob := c.cumulativeLogprob
  numComputedTokens := c.numComputedTokens
  stage := c.stage

def view (c : Cell) : SeqView where
  promptTokenIds := c.promptTokenIds
  outputTokenIds := c.outputTokenIds
  cachedAllTokenIds := c.cachedAllTokenIds
  cumulativeLogprob := c.cumulativeLogprob
  numComputedTokens := c.numComputedTokens
  stage := c.stage

def len (c : Cell) : ℤ := c.outputTokenIds.length + c.promptTokenIds.length

def append (tokenId : TokenId) (logprob : ℚ) (c : Cell) : Cell :=
  { c with
    outputTokenIds := c.outputTokenIds ++ [tokenId]
    cachedAllTokenIds := c.cachedAllTokenIds ++ [tokenId]
    cumulativeLogprob := c.cumulativeLogprob + logprob }

def advance (n : ℤ) (c : Cell) : Cell :=
  { c with
    numComputedTokens := c.numComputedTokens + n
    stage := if c.len - (c.numComputedTokens + n) = 0 then .decode else c.stage }

end Cell

def Heap.extend (base : Heap) (cells : List Cell) : Heap where
  seqData := base.seqData ++ cells.mapIdx fun r c => c.data (base.arrays.length + r) (base.caches.length + r)
  arrays := base.arrays ++ cells.map (·.outputTokenIds)
  caches := base.caches ++ cells.map (·.cachedAllTokenIds)
  appended := base.appended

/-- The object and what it refers to. -/
structure Heap.Valid (h : Heap) (ref : SeqDataRef) : Prop where
  seqData : ref < h.seqData.length
  array : (h.obj ref).outputTokenIds < h.arrays.length
  cache : (h.obj ref).cachedAllTokenIds < h.caches.length
  appended : (h.obj ref).newAppendedTokens < h.appended.length

variable {base : Heap} {cells before after : List Cell} {c : Cell} {ref : SeqDataRef} {r : ℕ}

@[simp] theorem extend_nil (base : Heap) : base.extend [] = base := by
  cases base
  simp [Heap.extend]

theorem getD_append_left {α : Type} {xs : List α} {i : ℕ} (inside : i < xs.length) (ys : List α) (d : α) :
    (xs ++ ys).getD i d = xs.getD i d := by
  simp [List.getD_eq_getElem?_getD, List.getElem?_append_left inside]

theorem obj_extend_old (inside : ref < base.seqData.length) (cells : List Cell) :
    (base.extend cells).obj ref = base.obj ref :=
  getD_append_left inside _ _

theorem view_extend_old (valid : base.Valid ref) (cells : List Cell) :
    (base.extend cells).view ref = base.view ref := by
  have same := obj_extend_old valid.seqData cells
  unfold Heap.view Heap.outputTokenIds Heap.cachedAllTokenIds
  rw [same]
  congr 1
  · exact getD_append_left valid.array _ _
  · exact getD_append_left valid.cache _ _

theorem newAppendedTokens_extend_old (valid : base.Valid ref) (cells : List Cell) :
    (base.extend cells).newAppendedTokens ref = base.newAppendedTokens ref := by
  unfold Heap.newAppendedTokens
  rw [obj_extend_old valid.seqData cells]
  rfl

theorem obj_extend (base : Heap) (before after : List Cell) (c : Cell) :
    (base.extend (before ++ c :: after)).obj (base.seqData.length + before.length) =
      c.data (base.arrays.length + before.length) (base.caches.length + before.length) := by
  simp [Heap.obj, Heap.extend, List.getD_eq_getElem?_getD]

theorem outputTokenIds_extend (base : Heap) (before after : List Cell) (c : Cell) :
    (base.extend (before ++ c :: after)).outputTokenIds (base.seqData.length + before.length) =
      c.outputTokenIds := by
  unfold Heap.outputTokenIds
  rw [obj_extend]
  simp [Heap.extend, Cell.data, List.getD_eq_getElem?_getD]

theorem view_extend (base : Heap) (before after : List Cell) (c : Cell) :
    (base.extend (before ++ c :: after)).view (base.seqData.length + before.length) = c.view := by
  have cached : (base.extend (before ++ c :: after)).cachedAllTokenIds (base.seqData.length + before.length) =
      c.cachedAllTokenIds := by
    unfold Heap.cachedAllTokenIds
    rw [obj_extend]
    simp [Heap.extend, Cell.data, List.getD_eq_getElem?_getD]
  unfold Heap.view
  rw [outputTokenIds_extend, cached, obj_extend]
  rfl

theorem modify_seqData (base : Heap) (before after : List Cell) (c c' : Cell) (f : SequenceData → SequenceData)
    (changed : ∀ array cache, f (c.data array cache) = c'.data array cache)
    (outputs : c'.outputTokenIds = c.outputTokenIds) (caches : c'.cachedAllTokenIds = c.cachedAllTokenIds) :
    { base.extend (before ++ c :: after) with
      seqData := (base.extend (before ++ c :: after)).seqData.modify (base.seqData.length + before.length) f } =
      base.extend (before ++ c' :: after) := by
  have objects : (base.extend (before ++ c :: after)).seqData.modify (base.seqData.length + before.length) f =
      (base.extend (before ++ c' :: after)).seqData := by
    unfold Heap.extend
    dsimp only
    rw [List.mapIdx_append, List.mapIdx_cons, ← List.append_assoc, List.mapIdx_append, List.mapIdx_cons,
      ← List.append_assoc]
    have place : base.seqData.length + before.length = (base.seqData ++ before.mapIdx fun r c =>
        c.data (base.arrays.length + r) (base.caches.length + r)).length := by simp
    rw [place, Chunks.modify_append_cons, changed]
  rw [objects]
  simp [Heap.extend, outputs, caches]

theorem updateNumComputedTokens_extend (n : ℤ) (base : Heap) (before after : List Cell) {c : Cell}
    (within : c.numComputedTokens + n ≤ c.len) :
    updateNumComputedTokens (base.seqData.length + before.length) n (base.extend (before ++ c :: after)) =
      .ok () (base.extend (before ++ c.advance n :: after)) := by
  have first := modify_seqData base before after c { c with numComputedTokens := c.numComputedTokens + n }
    (fun data => { data with numComputedTokens := data.numComputedTokens + n }) (fun _ _ => rfl) rfl rfl
  have len : getLen (base.seqData.length + before.length)
      (base.extend (before ++ { c with numComputedTokens := c.numComputedTokens + n } :: after)) =
      .ok c.len (base.extend (before ++ { c with numComputedTokens := c.numComputedTokens + n } :: after)) := by
    unfold getLen
    simp only [bind, EStateM.bind, get, getThe, MonadStateOf.get, EStateM.get, pure, EStateM.pure,
      outputTokenIds_extend, obj_extend]
    rfl
  unfold updateNumComputedTokens
  simp only [bind, EStateM.bind, modify, modifyGet, MonadStateOf.modifyGet, EStateM.modifyGet, first, len, get, getThe,
    MonadStateOf.get, EStateM.get, obj_extend, assertThat]
  rw [if_pos (by exact within)]
  simp only [pure, EStateM.pure]
  by_cases all : c.len - (c.numComputedTokens + n) = 0
  · rw [if_pos (by exact all)]
    have second := modify_seqData base before after { c with numComputedTokens := c.numComputedTokens + n }
      (c.advance n) (fun data => { data with stage := .decode }) (fun _ _ => by simp [Cell.advance, all, Cell.data])
      rfl rfl
    exact congrArg (EStateM.Result.ok ()) second
  · rw [if_neg (by exact all)]
    have same : c.advance n = { c with numComputedTokens := c.numComputedTokens + n } := by simp [Cell.advance, all]
    rw [same]
    rfl

/-- What the call appends reaches the lists of newly appended tokens of the heap it was given. -/
def Heap.appendNew (base : Heap) (place : ℕ) (tokenId : TokenId) : Heap :=
  { base with appended := base.appended.modify place (· ++ [tokenId]) }

theorem appendTokenId_extend (tokenId : TokenId) (logprob : ℚ) (base : Heap) (before after : List Cell) (c : Cell) :
    appendTokenId (base.seqData.length + before.length) tokenId logprob (base.extend (before ++ c :: after)) =
      .ok () ((base.appendNew c.newAppendedTokens tokenId).extend (before ++ c.append tokenId logprob :: after)) := by
  have objects := modify_seqData base before after c { c with cumulativeLogprob := c.cumulativeLogprob + logprob }
    (fun data => { data with cumulativeLogprob := data.cumulativeLogprob + logprob }) (fun _ _ => rfl) rfl rfl
  have objects := congrArg Heap.seqData objects
  have arrays : (base.extend (before ++ c :: after)).arrays.modify (base.arrays.length + before.length)
      (· ++ [tokenId]) = (base.extend (before ++ c.append tokenId logprob :: after)).arrays := by
    unfold Heap.extend
    dsimp only
    rw [List.map_append, List.map_cons, ← List.append_assoc, List.map_append, List.map_cons, ← List.append_assoc]
    have place : base.arrays.length + before.length = (base.arrays ++ before.map (·.outputTokenIds)).length := by simp
    rw [place, Chunks.modify_append_cons]
    rfl
  have caches : (base.extend (before ++ c :: after)).caches.modify (base.caches.length + before.length)
      (· ++ [tokenId]) = (base.extend (before ++ c.append tokenId logprob :: after)).caches := by
    unfold Heap.extend
    dsimp only
    rw [List.map_append, List.map_cons, ← List.append_assoc, List.map_append, List.map_cons, ← List.append_assoc]
    have place : base.caches.length + before.length = (base.caches ++ before.map (·.cachedAllTokenIds)).length := by
      simp
    rw [place, Chunks.modify_append_cons]
    rfl
  unfold appendTokenId
  simp only [modify, modifyGet, MonadStateOf.modifyGet, EStateM.modifyGet, obj_extend, Cell.data, arrays, caches]
  dsimp only at objects
  rw [objects]
  congr 1
  simp [Heap.extend, Heap.appendNew, Cell.append, Cell.data, List.mapIdx_append]

/-- The object a copy starts as, with the output tokens it is given. -/
def Heap.copied (base : Heap) (ref : SeqDataRef) (ids : List TokenId) : Cell where
  promptTokenIds := (base.obj ref).promptTokenIds
  outputTokenIds := ids
  cachedAllTokenIds := (base.obj ref).promptTokenIds ++ ids
  newAppendedTokens := (base.obj ref).newAppendedTokens
  cumulativeLogprob := (base.obj ref).cumulativeLogprob
  numComputedTokens := (base.obj ref).numComputedTokens
  stage := (base.obj ref).stage

theorem modify_length_append {α : Type} (xs : List α) (x : α) (f : α → α) :
    (xs ++ [x]).modify xs.length f = xs ++ [f x] :=
  Chunks.modify_append_cons xs [] x f

theorem setOutputTokenIds_copy (ref : SeqDataRef) (ids : List TokenId) (base : Heap) (cells : List Cell) :
    setOutputTokenIds (base.seqData.length + cells.length) ids
        { base.extend cells with seqData := (base.extend cells).seqData ++ [base.obj ref] } =
      .ok () (base.extend (cells ++ [base.copied ref ids])) := by
  have objects : base.seqData.length + cells.length = (base.extend cells).seqData.length := by simp [Heap.extend]
  have arrays : (base.extend cells).arrays.length = base.arrays.length + cells.length := by simp [Heap.extend]
  have caches : (base.extend cells).caches.length = base.caches.length + cells.length := by simp [Heap.extend]
  unfold setOutputTokenIds
  simp only [bind, EStateM.bind, modify, modifyGet, MonadStateOf.modifyGet, EStateM.modifyGet, objects,
    modify_length_append]
  congr 1
  simp only [Heap.extend, Heap.obj, Heap.outputTokenIds, Heap.copied, List.getD_eq_getElem?_getD] at *
  simp [List.mapIdx_append, Cell.data]

theorem copyEntries_single (keep : List TokenId → List TokenId) (after : SeqDataRef → Method Heap Unit) (seqId : SeqId)
    (valid : base.Valid ref) (cells : List Cell) {h : Heap}
    (afterwards : after (base.seqData.length + cells.length)
      (base.extend (cells ++ [base.copied ref (keep (base.outputTokenIds ref))])) = .ok () h) :
    copyEntries keep after [(seqId, ref)] (base.extend cells) =
      .ok [(seqId, base.seqData.length + cells.length)] h := by
  have size : (base.extend cells).seqData.length = base.seqData.length + cells.length := by simp [Heap.extend]
  have object := obj_extend_old valid.seqData cells
  have outputs : Heap.outputTokenIds
      { base.extend cells with seqData := (base.extend cells).seqData ++ [base.obj ref] } ref =
        base.outputTokenIds ref := by
    have inside : ref < (base.extend cells).seqData.length := by
      rw [size]
      exact valid.seqData.trans_le (Nat.le_add_right _ _)
    have same : Heap.obj { base.extend cells with seqData := (base.extend cells).seqData ++ [base.obj ref] } ref =
        base.obj ref := (getD_append_left inside _ _).trans object
    unfold Heap.outputTokenIds
    rw [same]
    exact getD_append_left valid.array _ _
  have set := setOutputTokenIds_copy ref (keep (base.outputTokenIds ref)) base cells
  unfold copyEntries copySeqData
  simp only [bind, EStateM.bind, get, getThe, MonadStateOf.get, EStateM.get, MonadStateOf.set, EStateM.set, pure,
    EStateM.pure, object, size, outputs, set, afterwards, copyEntries]

end Vllm.SpecDecode.MultiStep
