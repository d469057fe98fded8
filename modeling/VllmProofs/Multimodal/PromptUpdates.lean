import Mathlib

/-!
Prompt updates of `vllm/multimodal/processing.py`: where their targets are found in a prompt, and how the content of
the items is put there. A prompt is a list of tokens or of characters; tokenizers are left out.
-/

namespace Vllm.Multimodal

inductive UpdateMode where
  | insert
  | replace
  deriving DecidableEq, Repr

/-- A target is a sequence, or a place that is looked up in the prompt (`PromptIndex`). -/
inductive PromptTarget (α : Type) where
  | seq (target : List α)
  | index (getMatchIndex : List α → Option ℕ)

namespace PromptIndexTargets
variable {α : Type}

def start : PromptTarget α := .index fun _ => some 0

def prefix_ [DecidableEq α] (seq : List α) : PromptTarget α :=
  .index fun prompt => if prompt.take seq.length = seq then some seq.length else none

def end_ : PromptTarget α := .index fun prompt => some prompt.length

end PromptIndexTargets

structure PromptContent (α : Type) where
  full : List α
  features : List α

/-- `BoundPromptUpdate`; the content may depend on the index of the item. -/
structure BoundPromptUpdate (κ α : Type) where
  modality : κ
  target : PromptTarget α
  mode : UpdateMode
  getContent : ℕ → PromptContent α

/-- `_PromptTargetMatch`: of an index when it starts where it ends. -/
structure PromptTargetMatch (κ α : Type) where
  origin : BoundPromptUpdate κ α
  startIdx : ℕ
  endIdx : ℕ

section
variable {κ α : Type}

def PromptTargetMatch.modality (m : PromptTargetMatch κ α) : κ := m.origin.modality

def slice (prompt : List α) (start stop : ℕ) : List α := (prompt.take stop).drop start

section
variable [DecidableEq α]

/-- The loop of `iter_token_matches`, from this index on; no round starts at an index twice. -/
def iterTokenMatchesFrom (tokenIds matchIds : List α) : ℕ → ℕ → List (ℕ × ℕ)
  | 0, _ => []
  | rounds + 1, startIdx =>
    if startIdx + matchIds.length ≤ tokenIds.length then
      if slice tokenIds startIdx (startIdx + matchIds.length) = matchIds then
        (startIdx, startIdx + matchIds.length) :: iterTokenMatchesFrom tokenIds matchIds rounds (startIdx + matchIds.length)
      else iterTokenMatchesFrom tokenIds matchIds rounds (startIdx + 1)
    else []

/-- The starts and ends of the occurrences that do not overlap. -/
def iterTokenMatches (tokenIds matchIds : List α) : List (ℕ × ℕ) :=
  if matchIds = [] then [] else iterTokenMatchesFrom tokenIds matchIds (tokenIds.length + 1) 0

def getMatches (prompt : List α) (update : BoundPromptUpdate κ α) : List (PromptTargetMatch κ α) :=
  match update.target with
  | .index getMatchIndex =>
    match getMatchIndex prompt with
    | none => []
    | some matchIdx => [⟨update, matchIdx, matchIdx⟩]
  | .seq target => (iterTokenMatches prompt target).map fun found => ⟨update, found.1, found.2⟩

def findTokenMatches (prompt : List α) (promptUpdates : List (BoundPromptUpdate κ α)) : List (PromptTargetMatch κ α) :=
  promptUpdates.flatMap (getMatches prompt)

end

inductive ResolveError (κ α : Type) where
  /-- "Found overlapping matches ({seen_matches[idx]} and {match}) at index={idx} of prompt={prompt}" -/
  | overlapping (seen found : PromptTargetMatch κ α) (idx : ℕ)
  | indexError

/-- `seen_matches[idx] = match`, for all of these indices -/
def markSeen (m : PromptTargetMatch κ α) : List ℕ → List (Option (PromptTargetMatch κ α)) →
    Except (ResolveError κ α) (List (Option (PromptTargetMatch κ α)))
  | [], seen => .ok seen
  | idx :: rest, seen =>
    match seen[idx]? with
    | none => .error .indexError
    | some (some other) => .error (.overlapping other m idx)
    | some none => markSeen m rest (seen.set idx (some m))

def markAll : List (PromptTargetMatch κ α) → List (Option (PromptTargetMatch κ α)) →
    Except (ResolveError κ α) (List (Option (PromptTargetMatch κ α)))
  | [], seen => .ok seen
  | m :: rest, seen => do
    let seen ← markSeen m (List.range' m.startIdx (m.endIdx - m.startIdx)) seen
    markAll rest seen

/-- `sorted(matches, key=lambda x: x.start_idx)` -/
def sortByStart (found : List (PromptTargetMatch κ α)) : List (PromptTargetMatch κ α) :=
  found.insertionSort fun m m' => m.startIdx ≤ m'.startIdx

def resolveMatches (promptLen : ℕ) (mmMatches : List (κ × List (PromptTargetMatch κ α))) :
    Except (ResolveError κ α) (List (PromptTargetMatch κ α)) := do
  let found := mmMatches.flatMap Prod.snd
  let _ ← markAll found (List.replicate promptLen none)
  return sortByStart found

variable [DecidableEq κ]

def applyLoop (prompt : List α) (mmItemCounts : κ → ℕ) : ℕ → (κ → ℕ) → List (PromptTargetMatch κ α) → List (List α)
  | prevEndIdx, _, [] => [prompt.drop prevEndIdx]
  | prevEndIdx, nextIdxByModality, m :: rest =>
    let itemStartIdx := nextIdxByModality m.modality
    let maxItemCount := mmItemCounts m.modality
    if maxItemCount ≤ itemStartIdx then applyLoop prompt mmItemCounts prevEndIdx nextIdxByModality rest
    else
      let (outSeq, numInserts) := match m.origin.mode with
        | .insert => (slice prompt prevEndIdx m.endIdx, maxItemCount)
        | .replace => (slice prompt prevEndIdx m.startIdx, if m.startIdx = m.endIdx then maxItemCount else 1)
      let itemEndIdx := min (itemStartIdx + numInserts) maxItemCount
      let inserted := (List.range' itemStartIdx (itemEndIdx - itemStartIdx)).map fun itemIdx =>
        (m.origin.getContent itemIdx).full
      outSeq :: inserted ++ applyLoop prompt mmItemCounts m.endIdx
        (Function.update nextIdxByModality m.modality (itemStartIdx + (itemEndIdx - itemStartIdx))) rest

def applyMatches (prompt : List α) (mmMatches : List (κ × List (PromptTargetMatch κ α))) (mmItemCounts : κ → ℕ) :
    Except (ResolveError κ α) (List (List α)) := do
  let found ← resolveMatches prompt.length mmMatches
  return applyLoop prompt mmItemCounts 0 (fun _ => 0) found

end
end Vllm.Multimodal
