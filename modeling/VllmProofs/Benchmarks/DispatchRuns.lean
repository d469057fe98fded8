import VllmProofs.Benchmarks.RequestQueues
import VllmProofs.Data.PairDescent

/-!
Runs of the dispatcher: where the requests are that have been enqueued.
-/

namespace Vllm.Benchmarks

variable {Result : Type}

namespace Dispatcher

variable {d d' : Dispatcher Result} {queues queues' : List Queue}

def futuresOf (queue : Queue) : Multiset FutureRef := ↑(queue.values.map Prod.snd)

theorem waiting_set {i : ℕ} {queue : Queue} (found : queues[i]? = some queue) (queue' : Queue) :
    waiting (queues.set i queue') + futuresOf queue = waiting queues + futuresOf queue' := by
  have here : (queues.map futuresOf)[i]? = some (futuresOf queue) := by
    rw [List.getElem?_map, found]
    rfl
  have both := sum_set_add here (futuresOf queue')
  rw [← List.map_set] at both
  exact both

theorem futuresOf_popItem? {queue rest : Queue} {x : Time × Waiting} (popped : queue.popItem? = some (x, rest)) :
    futuresOf queue = {x.2.2} + futuresOf rest := by
  unfold futuresOf
  rw [SortedDict.values_of_popItem? popped]
  rfl

/-- A request that is put into a queue takes the place of at most one, and of none if the key is new. -/
theorem futuresOf_insert (queue : Queue) (timestamp : Time) (value : Waiting) : ∃ lost : Multiset FutureRef,
    futuresOf (queue.insert timestamp value) + lost = futuresOf queue + {value.2} ∧
      (lost = 0 ↔ queue.contains timestamp = false) := by
  cases there : queue.contains timestamp with
  | false =>
    refine ⟨0, ?_, by simp⟩
    have perm := (SortedDict.values_insert_of_not_contains (v := value) there).map Prod.snd
    rw [add_zero, add_comm]
    exact Multiset.coe_eq_coe.mpr perm
  | true =>
    obtain ⟨w, perm⟩ := SortedDict.values_insert_of_contains (v := value) there
    refine ⟨{w.2}, ?_, by simp⟩
    rw [add_comm, add_comm (futuresOf queue)]
    exact Multiset.coe_eq_coe.mpr (perm.map Prod.snd)

/-! ### Moves between queues -/

theorem firstBest_lt {better : ℕ → ℕ → Bool} {n : ℕ} (positive : 0 < n) : firstBest better n < n := by
  unfold firstBest
  have all : ∀ (xs : List ℕ) (best : ℕ), (∀ i ∈ xs, i < n) → best < n →
      xs.foldl (fun best i => if better i best then i else best) best < n := by
    intro xs
    induction xs with
    | nil => exact fun _ _ less => less
    | cons i rest ih =>
      intro best inside less
      rw [List.foldl_cons]
      apply ih
      · exact fun j member => inside j (List.mem_cons_of_mem _ member)
      · split
        · exact inside i List.mem_cons_self
        · exact less
  exact all _ _ (fun i member => List.mem_range.mp member) positive

theorem candidate?_some {e : Estimates} {c : Candidate} (found : candidate? e queues = some c) :
    c.high ≠ c.low ∧ ∃ high low, queues[c.high]? = some high ∧ queues[c.low]? = some low ∧
      high.popItem? = some ((c.timestamp, c.value), c.queueHigh) ∧ c.queueLow = low.insert c.timestamp c.value := by
  unfold candidate? at found
  dsimp only at found
  split at found
  · cases found
  · rename_i different
    split at found
    · cases found
    · rename_i timestamp value queueHigh popped
      split at found
      · cases found
        dsimp only
        have positive : 0 < queues.length := by
          rcases Nat.eq_zero_or_pos queues.length with empty | positive
          · rw [List.eq_nil_of_length_eq_zero empty] at different
            exact absurd rfl different
          · exact positive
        have there : ∀ better, queues[firstBest better queues.length]? =
            some (queues.getD (firstBest better queues.length) ∅) := by
          intro better
          rw [List.getD_eq_getElem?_getD, List.getElem?_eq_getElem (firstBest_lt positive), Option.getD_some]
        exact ⟨different, _, _, there _, there _, popped, rfl⟩
      · cases found

theorem candidate_moves {e : Estimates} {c : Candidate} (found : candidate? e queues = some c) :
    ∃ lost : Multiset FutureRef,
      waiting ((queues.set c.high c.queueHigh).set c.low c.queueLow) + lost = waiting queues ∧
        (lost = 0 ↔ (queues.getD c.low ∅).contains c.timestamp = false) := by
  obtain ⟨different, high, low, atHigh, atLow, popped, inserted⟩ := candidate?_some found
  obtain ⟨lost, balance, none⟩ := futuresOf_insert low c.timestamp c.value
  rw [← inserted] at balance
  refine ⟨lost, ?_, ?_⟩
  · have first := waiting_set atHigh c.queueHigh
    have atLow' : (queues.set c.high c.queueHigh)[c.low]? = some low := by
      rw [List.getElem?_set_ne different]
      exact atLow
    have second := waiting_set atLow' c.queueLow
    rw [futuresOf_popItem? popped] at first
    -- what the one queue gets is what the other gives
    have total : waiting ((queues.set c.high c.queueHigh).set c.low c.queueLow) + lost +
        (futuresOf low + ({c.value.2} + futuresOf c.queueHigh)) =
        waiting queues + (futuresOf low + ({c.value.2} + futuresOf c.queueHigh)) := by
      calc waiting ((queues.set c.high c.queueHigh).set c.low c.queueLow) + lost +
            (futuresOf low + ({c.value.2} + futuresOf c.queueHigh))
          = (waiting ((queues.set c.high c.queueHigh).set c.low c.queueLow) + futuresOf low) + lost +
              ({c.value.2} + futuresOf c.queueHigh) := by abel
        _ = (waiting (queues.set c.high c.queueHigh) + ({c.value.2} + futuresOf c.queueHigh)) +
              (futuresOf c.queueLow + lost) := by rw [second]; abel
        _ = waiting queues + (futuresOf low + ({c.value.2} + futuresOf c.queueHigh)) := by
              rw [first, balance]; abel
    exact add_right_cancel total
  · rw [none, List.getD_eq_getElem?_getD, atLow, Option.getD_some]

variable {estimates : List Estimates}

/-- Rebalancing loses a request for each move to a queue that has one of the same time. -/
theorem rebalanceQueues_moves (result : rebalanceQueues estimates queues = some queues') :
    ∃ lost : Multiset FutureRef,
      waiting queues' + lost = waiting queues ∧ (lost = 0 ↔ RebalanceFresh estimates queues) := by
  induction estimates generalizing queues with
  | nil => cases result
  | cons e rest ih =>
    unfold rebalanceQueues at result
    unfold RebalanceFresh
    cases found : candidate? e queues with
    | none =>
      rw [found] at result
      cases result
      exact ⟨0, add_zero _, by simp⟩
    | some c =>
      rw [found] at result
      obtain ⟨lost, balance, fresh⟩ := candidate_moves found
      dsimp only at result ⊢
      split at result
      · rename_i goesOn
        obtain ⟨more, balance', fresh'⟩ := ih result
        refine ⟨more + lost, ?_, ?_⟩
        · rw [← add_assoc, balance', balance]
        · rw [add_eq_zero_iff_of_nonneg (Multiset.zero_le _) (Multiset.zero_le _), fresh, fresh']
          exact ⟨fun both => ⟨both.2, fun _ => both.1⟩, fun both => ⟨both.2 goesOn, both.1⟩⟩
      · rename_i stops
        cases result
        exact ⟨lost, balance, by rw [fresh]; exact ⟨fun here => ⟨here, fun goesOn => absurd goesOn stops⟩, And.left⟩⟩

/-! ### What each event does -/

/-- The cases of `step`. -/
inductive Stepped (d : Dispatcher Result) : DispatchEvent Result → Dispatcher Result → Prop
  | enqueue {request : RequestFuncInput} {server : ServerId} {queue : Queue}
      (found : d.requestQueues[server]? = some queue) :
    Stepped d (.enqueue request server) { d with
      requestQueues := d.requestQueues.set server (queue.insert request.timestamp (request, d.numFutures))
      numFutures := d.numFutures + 1 }
  | rebalance {i : ℕ} {estimates : List Estimates} {queues : List Queue} (moved : d.rebalanced estimates = some queues) :
    Stepped d (.take i estimates) { d with requestQueues := queues }
  | take {i : ℕ} {h : Handler Result} {estimates : List Estimates} {queues : List Queue} {queue rest : Queue}
      {timestamp : Time} {waiting : Waiting} (handler : d.handlers[i]? = some h) (idle : h.state = .idle) (moved : d.rebalanced estimates = some queues)
      (found : queues[h.serverId]? = some queue) (popped : queue.popItem? = some ((timestamp, waiting), rest)) :
    Stepped d (.take i estimates)
      ({ d with requestQueues := queues.set h.serverId rest }.setHandler i (.taken waiting))
  | send {i : ℕ} {h : Handler Result} {waiting : Waiting} (handler : d.handlers[i]? = some h) (taken : h.state = .taken waiting) :
    Stepped d (.send i) ({ d with
      serverStats := d.serverStats.modify h.serverId (.addInFlight waiting.1.promptLen)
      calls := d.calls ++ [(waiting.2, h.serverId)] }.setHandler i (.sent waiting))
  | result {i : ℕ} {h : Handler Result} {waiting : Waiting} {result : Result}
      (handler : d.handlers[i]? = some h) (sent : h.state = .sent waiting) :
    Stepped d (.result i result)
      ({ d with results := d.results ++ [(waiting.2, result)] }.setHandler i (.returned waiting result))
  | complete {i : ℕ} {h : Handler Result} {waiting : Waiting} {result : Result}
      (handler : d.handlers[i]? = some h) (returned : h.state = .returned waiting result) :
    Stepped d (.complete i) ({ d with
      serverStats := d.serverStats.modify h.serverId (.removeInFlight waiting.1.promptLen)
      futures := Function.update d.futures waiting.2 (some result)
      completed := d.completed ++ [waiting.2] }.setHandler i .idle)

variable {event : DispatchEvent Result}

theorem stepped_of_step (stepped : d.step event = some d') : Stepped d event d' := by
  cases event with
  | enqueue request server =>
    obtain ⟨queue, found, result⟩ := Option.bind_eq_some_iff.mp stepped
    cases result
    exact .enqueue found
  | take i estimates =>
    obtain ⟨h, handler, stepped⟩ := Option.bind_eq_some_iff.mp stepped
    obtain ⟨_, -, stepped⟩ := Option.bind_eq_some_iff.mp stepped
    obtain ⟨stat, -, stepped⟩ := Option.bind_eq_some_iff.mp stepped
    split at stepped
    · rename_i idle
      split at stepped
      · cases stepped
      · obtain ⟨queues, moved, stepped⟩ := Option.bind_eq_some_iff.mp stepped
        obtain ⟨queue, found, stepped⟩ := Option.bind_eq_some_iff.mp stepped
        split at stepped
        · cases stepped
          exact .rebalance moved
        · rename_i popped
          cases stepped
          exact .take handler idle moved found popped
    · cases stepped
  | send i =>
    obtain ⟨h, handler, stepped⟩ := Option.bind_eq_some_iff.mp stepped
    split at stepped
    · rename_i taken
      cases stepped
      exact .send handler taken
    · cases stepped
  | result i result =>
    obtain ⟨h, handler, stepped⟩ := Option.bind_eq_some_iff.mp stepped
    split at stepped
    · rename_i sent
      cases stepped
      exact .result handler sent
    · cases stepped
  | complete i =>
    obtain ⟨h, handler, stepped⟩ := Option.bind_eq_some_iff.mp stepped
    split at stepped
    · rename_i returned
      split at stepped
      · cases stepped
      · cases stepped
        exact .complete handler returned
    · cases stepped

variable {i : ℕ} {h : Handler Result}

theorem taken_setHandler (handler : d.handlers[i]? = some h) (state : HandlerState Result) :
    (d.setHandler i state).taken + h.state.taken? = d.taken + state.taken? :=
  sum_modify_add handler (fun h => { h with state }) fun h => h.state.taken?

theorem inService_setHandler (handler : d.handlers[i]? = some h) (state : HandlerState Result) :
    (d.setHandler i state).inService + h.state.inService = d.inService + state.inService :=
  sum_modify_add handler (fun h => { h with state }) fun h => h.state.inService

theorem rebalanced_moves (moved : d.rebalanced estimates = some queues) :
    ∃ lost : Multiset FutureRef, waiting queues + lost = waiting d.requestQueues ∧
      (lost = 0 ↔ d.Fresh (.take i estimates)) := by
  unfold rebalanced at moved
  unfold Fresh
  split at moved
  · rename_i rebalances
    obtain ⟨lost, balance, fresh⟩ := rebalanceQueues_moves moved
    exact ⟨lost, balance, fresh.trans ⟨fun fresh _ => fresh, fun fresh => fresh rebalances⟩⟩
  · rename_i skips
    cases moved
    exact ⟨0, add_zero _, fun _ rebalances => absurd rebalances skips, fun _ => rfl⟩

/-! ### Where the requests are -/

/-- The futures of the requests that can still be sent or completed, and of those that are. -/
def placed (d : Dispatcher Result) : Multiset FutureRef :=
  waiting d.requestQueues + d.taken + d.inService + ↑d.completed

def created (d : Dispatcher Result) : DispatchEvent Result → Multiset FutureRef
  | .enqueue _ _ => {d.numFutures}
  | _ => 0

/-- A handler that goes on with the same request, or has none before and after, or gives one away. -/
theorem placed_setHandler (handler : d.handlers[i]? = some h) (state : HandlerState Result) :
    (d.setHandler i state).placed + (h.state.taken? + h.state.inService) =
      d.placed + (state.taken? + state.inService) := by
  have taken := taken_setHandler handler state
  have inService := inService_setHandler handler state
  calc (d.setHandler i state).placed + (h.state.taken? + h.state.inService)
      = waiting d.requestQueues + ((d.setHandler i state).taken + h.state.taken?) +
          ((d.setHandler i state).inService + h.state.inService) + ↑d.completed := by
        show waiting d.requestQueues + (d.setHandler i state).taken + (d.setHandler i state).inService +
          ↑d.completed + _ = _
        abel
    _ = d.placed + (state.taken? + state.inService) := by
        rw [taken, inService]
        show _ = waiting d.requestQueues + d.taken + d.inService + ↑d.completed + _
        abel

/-- A step loses a request just when it is not fresh. -/
theorem Stepped.placed (stepped : d.Stepped event d') :
    ∃ lost : Multiset FutureRef, d'.placed + lost = d.placed + d.created event ∧ (lost = 0 ↔ d.Fresh event) := by
  cases stepped with
  | @enqueue request server queue found =>
    obtain ⟨lost, balance, fresh⟩ := futuresOf_insert queue request.timestamp (request, d.numFutures)
    refine ⟨lost, ?_, ?_⟩
    · have moved := waiting_set found (queue.insert request.timestamp (request, d.numFutures))
      have total : waiting (d.requestQueues.set server (queue.insert request.timestamp (request, d.numFutures))) + lost =
          waiting d.requestQueues + {d.numFutures} := by
        apply add_right_cancel (b := futuresOf queue)
        rw [add_right_comm, moved, add_assoc, balance]
        abel
      show waiting _ + d.taken + d.inService + ↑d.completed + lost =
        waiting d.requestQueues + d.taken + d.inService + ↑d.completed + {d.numFutures}
      rw [add_right_comm, add_right_comm (waiting _ + d.taken), add_right_comm (waiting _), total]
      abel
    · show lost = 0 ↔ (d.requestQueues.getD server ∅).contains request.timestamp = false
      rw [fresh, List.getD_eq_getElem?_getD, found, Option.getD_some]
  | rebalance moved =>
    obtain ⟨lost, balance, fresh⟩ := rebalanced_moves moved
    refine ⟨lost, ?_, fresh⟩
    show waiting _ + d.taken + d.inService + ↑d.completed + lost =
      waiting d.requestQueues + d.taken + d.inService + ↑d.completed + 0
    rw [← balance]
    abel
  | @take i h estimates queues queue rest timestamp value handler idle moved found popped =>
    obtain ⟨lost, balance, fresh⟩ := rebalanced_moves moved
    refine ⟨lost, ?_, fresh⟩
    have moved := waiting_set found rest
    rw [futuresOf_popItem? popped] at moved
    have total : waiting (queues.set h.serverId rest) + {value.2} = waiting queues := by
      apply add_right_cancel (b := futuresOf rest)
      rw [add_assoc]
      exact moved
    have taken := @placed_setHandler _ { d with requestQueues := queues.set h.serverId rest } i h handler (.taken value)
    rw [idle] at taken
    change _ + 0 = waiting (queues.set h.serverId rest) + d.taken + d.inService + ↑d.completed + ({value.2} + 0) at taken
    rw [add_zero] at taken
    rw [taken]
    show _ = waiting d.requestQueues + d.taken + d.inService + ↑d.completed + 0
    rw [← balance, ← total]
    abel
  | @send i h value handler taken =>
    have sent := placed_setHandler handler (.sent value)
    rw [taken] at sent
    change _ + ({value.2} + 0) = _ + (0 + {value.2}) at sent
    rw [add_zero, zero_add] at sent
    refine ⟨0, ?_, fun _ => trivial, fun _ => rfl⟩
    show (d.setHandler i (.sent value)).placed + 0 = d.placed + 0
    rw [add_zero, add_zero]
    exact add_right_cancel sent
  | @result i h value result handler sent =>
    have returned := placed_setHandler handler (.returned value result)
    rw [sent] at returned
    refine ⟨0, ?_, fun _ => trivial, fun _ => rfl⟩
    show (d.setHandler i (.returned value result)).placed + 0 = d.placed + 0
    rw [add_zero, add_zero]
    exact add_right_cancel returned
  | @complete i h value result handler returned =>
    have completed := placed_setHandler handler .idle
    rw [returned] at completed
    change _ + (0 + {value.2}) = _ + 0 at completed
    rw [add_zero, zero_add] at completed
    refine ⟨0, ?_, fun _ => trivial, fun _ => rfl⟩
    show waiting d.requestQueues + (d.setHandler i .idle).taken + (d.setHandler i .idle).inService +
      ↑(d.completed ++ [value.2]) + 0 = d.placed + 0
    rw [← Multiset.coe_add, Multiset.coe_singleton, ← add_assoc, ← completed]
    rfl

/-! ### Runs -/

structure Accounted (d : Dispatcher Result) (lost : Multiset FutureRef) : Prop where
  placed : d.placed + lost = Multiset.range d.numFutures
  sent : (↑(d.calls.map Prod.fst) : Multiset FutureRef) = d.inService + ↑d.completed
  completed : ∀ future, future ∈ d.completed ↔ (d.futures future).isSome
  ownResult : ∀ future result, d.futures future = some result → (future, result) ∈ d.results
  returned : ∀ h ∈ d.handlers, ∀ waiting result, h.state = .returned waiting result → (waiting.2, result) ∈ d.results

variable {state : HandlerState Result}

theorem mem_setHandler {g : Handler Result} (member : g ∈ (d.setHandler i state).handlers) :
    g ∈ d.handlers ∨ g.state = state := by
  obtain ⟨j, found⟩ := List.getElem?_of_mem member
  change (d.handlers.modify i _)[j]? = some g at found
  rw [List.getElem?_modify] at found
  obtain ⟨old, there, rfl⟩ := Option.map_eq_some_iff.mp found
  split
  · exact Or.inr rfl
  · exact Or.inl (List.mem_of_getElem? there)

theorem inService_of_state (handler : d.handlers[i]? = some h)
    (same : state.inService = h.state.inService) : (d.setHandler i state).inService = d.inService := by
  have both := inService_setHandler handler state
  rw [same] at both
  exact add_right_cancel both

theorem idle_start {config : DispatcherConfig} (member : h ∈ (start config : Dispatcher Result).handlers) :
    h.state = .idle := by
  obtain ⟨server, -, listed⟩ := List.mem_flatMap.mp member
  rw [(List.mem_replicate.mp listed).2]

theorem accounted_start (config : DispatcherConfig) : (start config : Dispatcher Result).Accounted 0 := by
  have queues : waiting (start config : Dispatcher Result).requestQueues = 0 := by
    apply List.sum_eq_zero
    intro x member
    obtain ⟨queue, listed, rfl⟩ := List.mem_map.mp member
    obtain ⟨_, -, rfl⟩ := List.mem_map.mp listed
    rfl
  have taken : (start config : Dispatcher Result).taken = 0 := by
    apply List.sum_eq_zero
    intro x member
    obtain ⟨h, listed, rfl⟩ := List.mem_map.mp member
    rw [idle_start listed]
    rfl
  have inService : (start config : Dispatcher Result).inService = 0 := by
    apply List.sum_eq_zero
    intro x member
    obtain ⟨h, listed, rfl⟩ := List.mem_map.mp member
    rw [idle_start listed]
    rfl
  constructor
  · show waiting _ + _ + _ + 0 + 0 = 0
    rw [queues, taken, inService]
    rfl
  · rw [inService]
    rfl
  · intro future
    exact ⟨nofun, nofun⟩
  · exact nofun
  · intro h member waiting result returned
    rw [idle_start member] at returned
    cases returned

theorem Stepped.numFutures (stepped : d.Stepped event d') :
    Multiset.range d'.numFutures = Multiset.range d.numFutures + d.created event := by
  cases stepped with
  | enqueue found =>
    show Multiset.range (d.numFutures + 1) = _
    rw [Multiset.range_succ, ← Multiset.singleton_add, add_comm]
    rfl
  | rebalance moved => exact (add_zero _).symm
  | take handler idle moved found popped => exact (add_zero _).symm
  | send handler taken => exact (add_zero _).symm
  | result handler sent => exact (add_zero _).symm
  | complete handler returned => exact (add_zero _).symm

theorem Stepped.accounted {lost : Multiset FutureRef} (stepped : d.Stepped event d')
    (accounted : d.Accounted lost) :
    ∃ more : Multiset FutureRef, d'.Accounted (lost + more) ∧ (more = 0 ↔ d.Fresh event) := by
  obtain ⟨more, balance, fresh⟩ := stepped.placed
  refine ⟨more, ?_, fresh⟩
  have placed : d'.placed + (lost + more) = Multiset.range d'.numFutures := by
    rw [add_left_comm, balance, stepped.numFutures, ← accounted.placed]
    abel
  cases stepped with
  | enqueue found =>
    exact ⟨placed, accounted.sent, accounted.completed, accounted.ownResult, accounted.returned⟩
  | rebalance moved =>
    exact ⟨placed, accounted.sent, accounted.completed, accounted.ownResult, accounted.returned⟩
  | @take i h estimates queues queue rest timestamp value handler idle moved found popped =>
    refine ⟨placed, ?_, accounted.completed, accounted.ownResult, ?_⟩
    · show _ = (d.setHandler i (.taken value)).inService + ↑d.completed
      rw [inService_of_state handler (by rw [idle]; rfl)]
      exact accounted.sent
    · intro g member waiting result returned
      rcases mem_setHandler member with before | now
      · exact accounted.returned g before waiting result returned
      · rw [now] at returned
        cases returned
  | @send i h value handler taken =>
    refine ⟨placed, ?_, accounted.completed, accounted.ownResult, ?_⟩
    · have inService := inService_setHandler handler (.sent value)
      rw [taken] at inService
      show (↑((d.calls ++ [(value.2, h.serverId)]).map Prod.fst) : Multiset FutureRef) =
        (d.setHandler i (.sent value)).inService + ↑d.completed
      change _ + 0 = _ + {value.2} at inService
      rw [List.map_append, ← Multiset.coe_add, accounted.sent, ← add_zero (d.setHandler i _).inService, inService,
        add_right_comm]
      rfl
    · intro g member waiting result returned
      rcases mem_setHandler member with before | now
      · exact accounted.returned g before waiting result returned
      · rw [now] at returned
        cases returned
  | @result i h value result handler sent =>
    refine ⟨placed, ?_, accounted.completed, ?_, ?_⟩
    · show _ = (d.setHandler i (.returned value result)).inService + ↑d.completed
      rw [inService_of_state handler (by rw [sent]; rfl)]
      exact accounted.sent
    · exact fun future r held => List.mem_append_left _ (accounted.ownResult future r held)
    · intro g member waiting r returned
      rcases mem_setHandler member with before | now
      · exact List.mem_append_left _ (accounted.returned g before waiting r returned)
      · rw [now] at returned
        cases returned
        exact List.mem_append_right _ List.mem_cons_self
  | @complete i h value result handler returned =>
    refine ⟨placed, ?_, ?_, ?_, ?_⟩
    · have inService := inService_setHandler handler .idle
      rw [returned] at inService
      change _ + {value.2} = _ + 0 at inService
      show _ = (d.setHandler i .idle).inService + ↑(d.completed ++ [value.2])
      rw [← Multiset.coe_add, Multiset.coe_singleton, add_comm (↑d.completed : Multiset FutureRef), ← add_assoc,
        inService, add_zero]
      exact accounted.sent
    · intro future
      show future ∈ d.completed ++ [value.2] ↔ (Function.update d.futures value.2 (some result) future).isSome
      rw [List.mem_append, List.mem_singleton, Function.update_apply, accounted.completed]
      split
      · rename_i own
        exact ⟨fun _ => rfl, fun _ => Or.inr own⟩
      · rename_i other
        exact ⟨fun either => either.resolve_right other, Or.inl⟩
    · intro future r held
      change Function.update d.futures value.2 (some result) future = some r at held
      rw [Function.update_apply] at held
      split at held
      · rename_i own
        cases held
        rw [own]
        exact accounted.returned h (List.mem_of_getElem? handler) value result returned
      · exact accounted.ownResult future r held
    · intro g member waiting r held
      rcases mem_setHandler member with before | now
      · exact accounted.returned g before waiting r held
      · rw [now] at held
        cases held

variable {config : DispatcherConfig} {history : List (DispatchEvent Result)}

theorem accounted_of_reaches (reached : Reaches config history d) : ∃ lost : Multiset FutureRef,
    d.Accounted lost ∧ (lost = 0 ↔ GuardedRun Fresh step (start config) history d) := by
  induction reached with
  | start => exact ⟨0, accounted_start config, fun _ => .start, fun _ => rfl⟩
  | call before stepped ih =>
    obtain ⟨lost, accounted, fresh⟩ := ih
    obtain ⟨more, accounted', fresh'⟩ := (stepped_of_step stepped).accounted accounted
    refine ⟨lost + more, accounted', ?_⟩
    rw [GuardedRun.call_iff before stepped, ← fresh, ← fresh']
    exact add_eq_zero_iff_of_nonneg (Multiset.zero_le _) (Multiset.zero_le _)

/-- Every request is kept, sent once and answered, just when each is put in a place of its own. -/
theorem served_iff_fresh (reached : Reaches config history d) :
    d.Served ↔ GuardedRun Fresh step (start config) history d := by
  obtain ⟨lost, accounted, fresh⟩ := accounted_of_reaches reached
  rw [← fresh]
  constructor
  · intro served
    have kept := accounted.placed
    rw [← served.conserved] at kept
    exact add_eq_left.mp kept
  · rintro rfl
    have placed := accounted.placed
    rw [add_zero] at placed
    refine ⟨placed, ?_, accounted.sent, accounted.completed, accounted.ownResult⟩
    -- what was sent is part of what was made
    have part : (↑(d.calls.map Prod.fst) : Multiset FutureRef) ≤ Multiset.range d.numFutures := by
      rw [accounted.sent, ← placed]
      unfold Dispatcher.placed
      rw [add_assoc]
      exact Multiset.le_add_left _ _
    exact Multiset.coe_nodup.mp (Multiset.nodup_of_le part (Multiset.nodup_range _))

def twoServers : DispatcherConfig where
  lenBasedDispatching := 3
  servers := [{ maxConcurrency := 100, pp := 1 }, { maxConcurrency := 100, pp := 1 }]
  handlersPerServer := 1

/-- A server is taken to be as slow as its queue is long. -/
def byLength : Estimates where
  latency _ queue := ((queue.values.length : ℚ) : WithBot ℚ)
  simulated _ queue := ((queue.values.length : ℚ) : WithBot ℚ)
  actual _ queue := ((queue.values.length : ℚ) : WithBot ℚ)

/-- Two requests for one server, of which one is moved to the other. -/
def moved : List (DispatchEvent ℕ) :=
  [.complete 1, .complete 0, .result 0 20, .result 1 10, .send 1, .send 0, .take 1 [byLength], .take 0 [byLength],
    .enqueue ⟨2, 7⟩ 0, .enqueue ⟨1, 5⟩ 0]

theorem served_iff_fresh_moved : ∃ d, Reaches twoServers moved d ∧
    d.calls = [(1, 0), (0, 1)] ∧ d.completed = [1, 0] ∧ (d.futures 0, d.futures 1) = (some 10, some 20) ∧
      (d.Served ↔ GuardedRun Fresh step (start twoServers) moved d) := by
  have ran : ∃ d, Reaches twoServers moved d ∧
      d.calls = [(1, 0), (0, 1)] ∧ d.completed = [1, 0] ∧ (d.futures 0, d.futures 1) = (some 10, some 20) := by
    apply Run.exists_of_execute
    decide
  obtain ⟨d, reached, calls, completed, results⟩ := ran
  exact ⟨d, reached, calls, completed, results, served_iff_fresh reached⟩

/-- Of two requests that come at the same time to the same server only the second is ever sent. -/
theorem sameTime_drops : ∃ d : Dispatcher ℕ, Reaches twoServers
    [.complete 0, .result 0 20, .send 0, .take 0 [byLength], .enqueue ⟨1, 7⟩ 0, .enqueue ⟨1, 5⟩ 0] d ∧
      d.numFutures = 2 ∧ waiting d.requestQueues + d.taken + d.inService = 0 ∧ d.calls = [(1, 0)] ∧
        d.futures 0 = none ∧ ¬d.Served := by
  have ran : ∃ d : Dispatcher ℕ, Reaches twoServers
      [.complete 0, .result 0 20, .send 0, .take 0 [byLength], .enqueue ⟨1, 7⟩ 0, .enqueue ⟨1, 5⟩ 0] d ∧
        (d.numFutures = 2 ∧ waiting d.requestQueues + d.taken + d.inService = 0 ∧ d.calls = [(1, 0)] ∧
          d.futures 0 = none) := by
    apply Run.exists_of_execute
    decide
  obtain ⟨d, reached, made, nowhere, calls, waits⟩ := ran
  refine ⟨d, reached, made, nowhere, calls, waits, fun served => ?_⟩
  have kept := served.conserved
  rw [nowhere, made, zero_add] at kept
  have answered : 0 ∈ d.completed := by
    rw [← Multiset.mem_coe, kept]
    decide
  have done := (served.completed 0).mp answered
  rw [waits] at done
  cases done

end Dispatcher
end Vllm.Benchmarks
