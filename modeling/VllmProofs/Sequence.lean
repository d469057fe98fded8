import VllmProofs.Evictor.Basic

/-!
Sequences as the block manager and the scheduler see them: `vllm/sequence.py`, without log
probabilities, sampling parameters and texts.
-/

namespace Vllm
open Evictor

abbrev SeqId := ℕ

inductive SequenceStatus where
  | waiting | running | swapped
  | finishedStopped | finishedLengthCapped | finishedAborted | finishedIgnored
  deriving DecidableEq, Repr

/-- Anything after `SWAPPED` is a finished status. -/
def SequenceStatus.isFinished : SequenceStatus → Bool
  | waiting | running | swapped => false
  | finishedStopped | finishedLengthCapped | finishedAborted | finishedIgnored => true

inductive SequenceStage where
  | prefill | decode
  deriving DecidableEq, Repr

/-- A `Sequence` together with its `SequenceData`. -/
structure Sequence where
  seqId : SeqId
  promptTokenIds : List TokenId
  outputTokenIds : List TokenId := []
  numComputedTokens : ℕ := 0
  stage : SequenceStage := .prefill
  status : SequenceStatus := .waiting
  /-- What `extra_hash()` returns: it depends on the adapters of the request only. -/
  extraHash : Option ℤ := none
  cacheHint : Option CacheHint := none
  deriving DecidableEq, Repr

namespace Sequence

def getTokenIds (s : Sequence) : List TokenId := s.promptTokenIds ++ s.outputTokenIds

def getLen (s : Sequence) : ℕ := s.promptTokenIds.length + s.outputTokenIds.length

theorem length_getTokenIds (s : Sequence) : s.getTokenIds.length = s.getLen := List.length_append

def isPrefill (s : Sequence) : Bool := s.stage = .prefill

def isFinished (s : Sequence) : Bool := s.status.isFinished

def getNumUncomputedTokens (s : Sequence) : ℕ := s.getLen - s.numComputedTokens

def getNumNewTokens (s : Sequence) : ℕ :=
  if s.stage = .decode then 1 else s.getNumUncomputedTokens

def appendTokenId (tokenId : TokenId) (s : Sequence) : Sequence :=
  { s with outputTokenIds := s.outputTokenIds ++ [tokenId] }

def resetStateForRecompute (s : Sequence) : Sequence :=
  { s with numComputedTokens := 0, stage := .prefill }

/-- `update_num_computed_tokens`; the sequence starts to decode once everything is computed. -/
def updateNumComputedTokens (numNewComputedTokens : ℕ) : Method Sequence Unit := do
  let s ← get
  let numComputedTokens := s.numComputedTokens + numNewComputedTokens
  set { s with numComputedTokens }
  assertThat (numComputedTokens ≤ s.getLen)
  if s.getLen - numComputedTokens = 0 then modify fun s => { s with stage := .decode }

end Sequence

structure SequenceGroup where
  requestId : String
  firstSeq : Sequence
  otherSeqs : List Sequence := []
  arrivalTime : Time := 0
  priority : ℤ := 0
  /-- 0 without an adapter. -/
  loraIntId : ℕ := 0
  longLoraMaxLen : ℕ := 0
  deriving DecidableEq, Repr

namespace SequenceGroup

def seqs (s : SequenceGroup) : List Sequence := s.firstSeq :: s.otherSeqs

def getSeqs (s : SequenceGroup) (status : SequenceStatus) : List Sequence :=
  s.seqs.filter fun seq => seq.status = status

def numFinishedSeqs (s : SequenceGroup) : ℕ := (s.seqs.filter Sequence.isFinished).length

def getMaxNumRunningSeqs (s : SequenceGroup) : ℕ := s.seqs.length - s.numFinishedSeqs

def isFinished (s : SequenceGroup) : Bool := s.seqs.all Sequence.isFinished

def isPrefill (s : SequenceGroup) : Bool := s.firstSeq.isPrefill

def getNumUncomputedTokens (s : SequenceGroup) : ℕ :=
  ((s.seqs.filter fun seq => !seq.isFinished).map Sequence.getNumUncomputedTokens).sum

def mapSeqs (f : Sequence → Sequence) (s : SequenceGroup) : SequenceGroup :=
  { s with firstSeq := f s.firstSeq, otherSeqs := s.otherSeqs.map f }

/-- `seq.status = target` for every sequence of the group with the given status. -/
def setStatus (status target : SequenceStatus) : SequenceGroup → SequenceGroup :=
  mapSeqs fun seq => if seq.status = status then { seq with status := target } else seq

end SequenceGroup
end Vllm
