import VllmProofs.Data.Dict
import VllmProofs.Data.Runs

/-!
`RequestTracker` and `AsyncStream`, `vllm/engine/async_llm_engine.py`: requests and aborts wait in two queues
until the background loop polls.
-/

namespace Vllm.AsyncEngine

abbrev RequestId := ℕ
abbrev StreamRef := ℕ

inductive StreamItem where
  | output (finished : Bool)
  | exception
  | stopIteration
  deriving DecidableEq

structure AsyncStream where
  requestId : RequestId
  queue : List StreamItem := []
  finished : Bool := false
  deriving DecidableEq

namespace AsyncStream

def put (s : AsyncStream) (item : StreamItem) : AsyncStream :=
  if s.finished then s else { s with queue := s.queue ++ [item] }

/-- `raisable`: there is an exception to be raised. -/
def finish (s : AsyncStream) (raisable : Bool) : AsyncStream :=
  if s.finished then s
  else { s with finished := true, queue := s.queue ++ [if raisable then .exception else .stopIteration] }

@[simp] theorem requestId_put (s : AsyncStream) (item : StreamItem) : (s.put item).requestId = s.requestId := by
  unfold put
  split <;> rfl

@[simp] theorem finished_put (s : AsyncStream) (item : StreamItem) : (s.put item).finished = s.finished := by
  unfold put
  split <;> rfl

@[simp] theorem requestId_finish (s : AsyncStream) (raisable : Bool) : (s.finish raisable).requestId = s.requestId := by
  unfold finish
  split <;> rfl

@[simp] theorem finished_finish (s : AsyncStream) (raisable : Bool) : (s.finish raisable).finished = true := by
  unfold finish
  split
  · assumption
  · rfl

end AsyncStream

structure RequestTracker where
  /-- The `AsyncStream` objects; those there have been are the first `numStreams`. -/
  streams : StreamRef → AsyncStream := fun _ => { requestId := 0 }
  numStreams : ℕ := 0
  requestStreams : Dict RequestId StreamRef := ∅
  abortedRequests : List RequestId := []
  newRequests : List StreamRef := []

structure Poll where
  newRequests : List StreamRef := []
  /-- A set. -/
  finishedRequests : List RequestId
  cancelled : List StreamRef := []

namespace RequestTracker

def onStream (t : RequestTracker) (ref : StreamRef) (f : AsyncStream → AsyncStream) : RequestTracker :=
  { t with streams := Function.update t.streams ref (f (t.streams ref)) }

/-- `add_request`; it raises a `KeyError` when the id is registered. -/
def addRequest (t : RequestTracker) (requestId : RequestId) : Option RequestTracker :=
  if t.requestStreams.get? requestId = none then
    some { t with
      streams := Function.update t.streams t.numStreams { requestId }
      numStreams := t.numStreams + 1
      newRequests := t.newRequests ++ [t.numStreams] }
  else none

def abortRequest (t : RequestTracker) (requestId : RequestId) (raisable : Bool) : RequestTracker :=
  let queued := { t with
    abortedRequests := t.abortedRequests ++ [requestId]
    requestStreams := t.requestStreams.erase requestId }
  match t.requestStreams.get? requestId with
  | some ref => queued.onStream ref fun s => s.finish raisable
  | none => queued

def processRequestOutput (t : RequestTracker) (requestId : RequestId) (finished : Bool) : RequestTracker :=
  match t.requestStreams.get? requestId with
  | none => t
  | some ref =>
    if finished then
      { t with requestStreams := t.requestStreams.erase requestId }.onStream ref fun s =>
        (s.put (.output true)).finish false
    else t.onStream ref fun s => s.put (.output false)

/-- The loop of `get_new_and_aborted_requests` over the new requests. -/
def registerEach : List StreamRef → RequestTracker × Poll → RequestTracker × Poll
  | [], result => result
  | ref :: rest, (t, poll) =>
    let requestId := (t.streams ref).requestId
    if requestId ∈ poll.finishedRequests then
      registerEach rest (t.onStream ref fun s => s.finish true,
        { poll with
          finishedRequests := poll.finishedRequests.erase requestId
          cancelled := poll.cancelled ++ [ref] })
    else
      registerEach rest ({ t with requestStreams := t.requestStreams.insert requestId ref },
        { poll with newRequests := poll.newRequests ++ [ref] })

def getNewAndAbortedRequests (t : RequestTracker) : RequestTracker × Poll :=
  registerEach t.newRequests ({ t with abortedRequests := [], newRequests := [] },
    { finishedRequests := t.abortedRequests.dedup })

/-- A stream that its client can still wait for. -/
def Unfinished (t : RequestTracker) (ref : StreamRef) : Prop := ref < t.numStreams ∧ (t.streams ref).finished = false

end RequestTracker

inductive TrackerEvent where
  | add (requestId : RequestId)
  | abort (requestId : RequestId) (raisable : Bool)
  | output (requestId : RequestId) (finished : Bool)
  | poll

structure PollRecord where
  poll : Poll
  addedAt : StreamRef → ℕ
  lastAbort : RequestId → ℕ
  streams : StreamRef → AsyncStream
  owed : List RequestId

structure PollRecord.Fair (r : PollRecord) : Prop where
  cancels : ∀ ref ∈ r.poll.cancelled, r.addedAt ref < r.lastAbort (r.streams ref).requestId
  reports : ∀ requestId ∈ r.owed, requestId ∈ r.poll.finishedRequests

structure TrackedRequests where
  tracker : RequestTracker := {}
  /-- How many calls have been made. -/
  clock : ℕ := 0
  addedAt : StreamRef → ℕ := fun _ => 0
  lastAbort : RequestId → ℕ := fun _ => 0
  /-- The ids under which the engine had a request that has been aborted since the last poll. -/
  owed : List RequestId := []
  polls : List PollRecord := []

namespace TrackedRequests

def step (a : TrackedRequests) : TrackerEvent → Option TrackedRequests
  | .add requestId => do
    let tracker ← a.tracker.addRequest requestId
    return { a with
      tracker
      clock := a.clock + 1
      addedAt := Function.update a.addedAt a.tracker.numStreams a.clock }
  | .abort requestId raisable => some { a with
      tracker := a.tracker.abortRequest requestId raisable
      clock := a.clock + 1
      lastAbort := Function.update a.lastAbort requestId a.clock
      owed := if (a.tracker.requestStreams.get? requestId).isSome then requestId :: a.owed else a.owed }
  | .output requestId finished => some { a with
      tracker := a.tracker.processRequestOutput requestId finished
      clock := a.clock + 1 }
  | .poll =>
    let (tracker, poll) := a.tracker.getNewAndAbortedRequests
    some { a with
      tracker
      clock := a.clock + 1
      owed := []
      polls := ⟨poll, a.addedAt, a.lastAbort, a.tracker.streams, a.owed⟩ :: a.polls }

abbrev Reaches (history : List TrackerEvent) (a : TrackedRequests) : Prop :=
  Run (fun a event a' => a.step event = some a') {} history a

structure Orderly (a : TrackedRequests) : Prop where
  reachable : ∀ ref, a.tracker.Unfinished ref →
    a.tracker.requestStreams.get? (a.tracker.streams ref).requestId = some ref ∨ ref ∈ a.tracker.newRequests
  unique : ∀ ref ref', a.tracker.Unfinished ref → a.tracker.Unfinished ref' →
    (a.tracker.streams ref).requestId = (a.tracker.streams ref').requestId → ref = ref'
  fair : ∀ r ∈ a.polls, r.Fair

/-- A request is added only when no poll has yet to see another request, or an abort, of its id. -/
def Settled (a : TrackedRequests) : TrackerEvent → Prop
  | .add requestId => requestId ∉ a.tracker.abortedRequests ∧
      ∀ ref ∈ a.tracker.newRequests, (a.tracker.streams ref).requestId ≠ requestId
  | _ => True

instance (a : TrackedRequests) (event : TrackerEvent) : Decidable (a.Settled event) := by
  cases event <;> unfold Settled <;> infer_instance

end TrackedRequests
end Vllm.AsyncEngine
