import VllmProofs.Base
import VllmProofs.Data.Runs
import VllmProofs.Data.SortedDict

/-!
The dispatcher of `benchmarks/dispatcher.py`: a queue of requests for each server, the handlers that take
requests from it, and the moves between the queues. Which server `get_api_url` chooses, and what
`estimate_server_max_latency` returns, is left open: they use clocks and a learned model.
-/

namespace Vllm.Benchmarks

abbrev ServerId := ℕ
abbrev FutureRef := ℕ

structure RequestFuncInput where
  timestamp : Time
  promptLen : ℕ
  deriving DecidableEq

/-- What stands in a queue: a request and the future of its client. -/
abbrev Waiting := RequestFuncInput × FutureRef

abbrev Queue := SortedDict Time Waiting

structure Estimates where
  latency : ServerId → Queue → WithBot ℚ
  simulated : ServerId → Queue → WithBot ℚ
  actual : ServerId → Queue → WithBot ℚ

/-- The first of the indices below `n` that no other is better than. -/
def firstBest (better : ℕ → ℕ → Bool) (n : ℕ) : ℕ :=
  (List.range n).foldl (fun best i => if better i best then i else best) 0

/-- The request that a round would move, from where and to where. -/
structure Candidate where
  high : ServerId
  low : ServerId
  timestamp : Time
  value : Waiting
  queueHigh : Queue
  queueLow : Queue

/-- The first request of the queue with the highest latency, for the queue with the lowest one. -/
def candidate? (e : Estimates) (queues : List Queue) : Option Candidate :=
  let latency i := e.latency i (queues.getD i ∅)
  let high := firstBest (fun i best => latency best < latency i) queues.length
  let low := firstBest (fun i best => latency i < latency best) queues.length
  if high = low then none
  else
    match (queues.getD high ∅).popItem? with
    | none => none
    | some ((timestamp, value), queueHigh) =>
      let queueLow := (queues.getD low ∅).insert timestamp value
      if max (e.simulated high queueHigh) (e.simulated low queueLow) < latency high then
        some { high, low, timestamp, value, queueHigh, queueLow }
      else none

/-- The loop of `rebalance_queues`; there is no result when it goes on after the last of the estimates. -/
def rebalanceQueues : List Estimates → List Queue → Option (List Queue)
  | [], _ => none
  | e :: rest, queues =>
    match candidate? e queues with
    | none => some queues
    | some c =>
      let queues := (queues.set c.high c.queueHigh).set c.low c.queueLow
      if e.actual c.low c.queueLow < e.actual c.high c.queueHigh then rebalanceQueues rest queues else some queues

structure ServerStat where
  maxConcurrency : ℕ
  pp : ℕ
  count : ℕ := 0
  inFlightTokens : ℕ := 0
  inFlightPromptLens : List ℕ := []

inductive HandlerState (Result : Type) where
  | idle
  /-- A request has been taken from the queue. -/
  | taken (waiting : Waiting)
  /-- `request_func` runs for it. -/
  | sent (waiting : Waiting)
  /-- `request_func` has returned. -/
  | returned (waiting : Waiting) (result : Result)

structure Handler (Result : Type) where
  serverId : ServerId
  state : HandlerState Result

structure DispatcherConfig where
  lenBasedDispatching : ℕ
  servers : List ServerStat
  handlersPerServer : ℕ := 64

structure Dispatcher (Result : Type) where
  lenBasedDispatching : ℕ
  requestQueues : List Queue
  serverStats : List ServerStat
  handlers : List (Handler Result)
  numFutures : ℕ := 0
  futures : FutureRef → Option Result := fun _ => none
  /-- The futures that are completed. -/
  completed : List FutureRef := []
  /-- The calls of `request_func`. -/
  calls : List (FutureRef × ServerId) := []
  /-- What they have returned. -/
  results : List (FutureRef × Result) := []

/-- What happens between two awaits. -/
inductive DispatchEvent (Result : Type) where
  /-- `enqueue_request`, for the server that `get_api_url` has chosen. -/
  | enqueue (request : RequestFuncInput) (chosenServer : ServerId)
  /-- A handler looks for a request, after the queues have been rebalanced if need be. -/
  | take (handler : ℕ) (estimates : List Estimates)
  /-- A handler calls `request_func`. -/
  | send (handler : ℕ)
  /-- `request_func` returns. -/
  | result (handler : ℕ) (result : Result)
  /-- A handler completes the future. -/
  | complete (handler : ℕ)

section
variable {Result : Type}

namespace ServerStat

/-- The handlers of the server wait until some of its requests are done. -/
def overloaded (s : ServerStat) : Prop := s.maxConcurrency < s.inFlightTokens ∧ s.pp < s.inFlightPromptLens.length

instance (s : ServerStat) : Decidable s.overloaded := inferInstanceAs (Decidable (_ ∧ _))

def addInFlight (promptLen : ℕ) (s : ServerStat) : ServerStat :=
  { s with
    count := s.count + 1
    inFlightPromptLens := s.inFlightPromptLens ++ [promptLen]
    inFlightTokens := s.inFlightTokens + promptLen }

def removeInFlight (promptLen : ℕ) (s : ServerStat) : ServerStat :=
  { s with
    count := s.count - 1
    inFlightPromptLens := s.inFlightPromptLens.erase promptLen
    inFlightTokens := s.inFlightTokens - promptLen }

end ServerStat

namespace Dispatcher

def start (config : DispatcherConfig) : Dispatcher Result where
  lenBasedDispatching := config.lenBasedDispatching
  requestQueues := config.servers.map fun _ => ∅
  serverStats := config.servers
  handlers := (List.range config.servers.length).flatMap fun i => List.replicate config.handlersPerServer ⟨i, .idle⟩

def setHandler (d : Dispatcher Result) (handler : ℕ) (state : HandlerState Result) : Dispatcher Result :=
  { d with handlers := d.handlers.modify handler fun h => { h with state } }

def enqueueRequest (d : Dispatcher Result) (request : RequestFuncInput) (chosenServer : ServerId) :
    Option (Dispatcher Result) := do
  let queue ← d.requestQueues[chosenServer]?
  return { d with
    requestQueues := d.requestQueues.set chosenServer (queue.insert request.timestamp (request, d.numFutures))
    numFutures := d.numFutures + 1 }

def rebalanced (d : Dispatcher Result) (estimates : List Estimates) : Option (List Queue) :=
  if 3 ≤ d.lenBasedDispatching then rebalanceQueues estimates d.requestQueues else some d.requestQueues

/-- An idle handler takes the first request of its queue, if there still is one. -/
def take (d : Dispatcher Result) (handler : ℕ) (estimates : List Estimates) : Option (Dispatcher Result) := do
  let h ← d.handlers[handler]?
  let queue ← d.requestQueues[h.serverId]?
  let stat ← d.serverStats[h.serverId]?
  match h.state with
  | .idle =>
    if queue.values = [] ∨ stat.overloaded then none
    else do
      let queues ← d.rebalanced estimates
      let queue ← queues[h.serverId]?
      match queue.popItem? with
      | none => return { d with requestQueues := queues }
      | some ((_, waiting), queue) =>
        return { d with requestQueues := queues.set h.serverId queue }.setHandler handler (.taken waiting)
  | _ => none

def send (d : Dispatcher Result) (handler : ℕ) : Option (Dispatcher Result) := do
  let h ← d.handlers[handler]?
  match h.state with
  | .taken waiting =>
    return { d with
      serverStats := d.serverStats.modify h.serverId (.addInFlight waiting.1.promptLen)
      calls := d.calls ++ [(waiting.2, h.serverId)] }.setHandler handler (.sent waiting)
  | _ => none

def resultOf (d : Dispatcher Result) (handler : ℕ) (result : Result) : Option (Dispatcher Result) := do
  let h ← d.handlers[handler]?
  match h.state with
  | .sent waiting =>
    return { d with results := d.results ++ [(waiting.2, result)] }.setHandler handler (.returned waiting result)
  | _ => none

/-- `future.set_result` raises when the future is done. -/
def complete (d : Dispatcher Result) (handler : ℕ) : Option (Dispatcher Result) := do
  let h ← d.handlers[handler]?
  match h.state with
  | .returned waiting result =>
    if (d.futures waiting.2).isSome then none
    else
      return { d with
        serverStats := d.serverStats.modify h.serverId (.removeInFlight waiting.1.promptLen)
        futures := Function.update d.futures waiting.2 (some result)
        completed := d.completed ++ [waiting.2] }.setHandler handler .idle
  | _ => none

def step (d : Dispatcher Result) : DispatchEvent Result → Option (Dispatcher Result)
  | .enqueue request chosenServer => d.enqueueRequest request chosenServer
  | .take handler estimates => d.take handler estimates
  | .send handler => d.send handler
  | .result handler result => d.resultOf handler result
  | .complete handler => d.complete handler

abbrev Reaches (config : DispatcherConfig) (history : List (DispatchEvent Result)) (d : Dispatcher Result) : Prop :=
  Run (fun d event d' => d.step event = some d') (start config) history d

def waiting (queues : List Queue) : Multiset FutureRef :=
  (queues.map fun queue => (↑(queue.values.map Prod.snd) : Multiset FutureRef)).sum

end Dispatcher

def HandlerState.taken? : HandlerState Result → Multiset FutureRef
  | .taken waiting => {waiting.2}
  | _ => 0

def HandlerState.inService : HandlerState Result → Multiset FutureRef
  | .sent waiting => {waiting.2}
  | .returned waiting _ => {waiting.2}
  | _ => 0

namespace Dispatcher

/-- The futures of the requests that handlers have taken but not sent. -/
def taken (d : Dispatcher Result) : Multiset FutureRef := (d.handlers.map fun h => h.state.taken?).sum

/-- The futures of the requests that are sent but not completed. -/
def inService (d : Dispatcher Result) : Multiset FutureRef := (d.handlers.map fun h => h.state.inService).sum

/-- Every request that was enqueued is in one place, was sent at most once, and has its own result. -/
structure Served (d : Dispatcher Result) : Prop where
  conserved : waiting d.requestQueues + d.taken + d.inService + ↑d.completed = Multiset.range d.numFutures
  sentOnce : (d.calls.map Prod.fst).Nodup
  sent : (↑(d.calls.map Prod.fst) : Multiset FutureRef) = d.inService + ↑d.completed
  completed : ∀ future, future ∈ d.completed ↔ (d.futures future).isSome
  ownResult : ∀ future result, d.futures future = some result → (future, result) ∈ d.results

end Dispatcher

/-- No move of the loop is to a queue that has a request of the same time. -/
def RebalanceFresh : List Estimates → List Queue → Prop
  | [], _ => True
  | e :: rest, queues =>
    match candidate? e queues with
    | none => True
    | some c => (queues.getD c.low ∅).contains c.timestamp = false ∧
      (e.actual c.low c.queueLow < e.actual c.high c.queueHigh →
        RebalanceFresh rest ((queues.set c.high c.queueHigh).set c.low c.queueLow))

instance decideRebalanceFresh (estimates : List Estimates) (queues : List Queue) :
    Decidable (RebalanceFresh estimates queues) := by
  induction estimates generalizing queues with
  | nil => exact isTrue trivial
  | cons e rest ih =>
    unfold RebalanceFresh
    split
    · infer_instance
    · have := ih
      infer_instance

/-- A request is put only into a queue that has no request of the same time. -/
def Dispatcher.Fresh (d : Dispatcher Result) : DispatchEvent Result → Prop
  | .enqueue request chosenServer => (d.requestQueues.getD chosenServer ∅).contains request.timestamp = false
  | .take _ estimates => 3 ≤ d.lenBasedDispatching → RebalanceFresh estimates d.requestQueues
  | _ => True

instance (d : Dispatcher Result) (event : DispatchEvent Result) : Decidable (d.Fresh event) := by
  cases event <;> unfold Dispatcher.Fresh <;> infer_instance

end
end Vllm.Benchmarks
