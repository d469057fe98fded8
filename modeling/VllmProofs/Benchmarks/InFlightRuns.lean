import VllmProofs.Benchmarks.DispatchRuns
import VllmProofs.Data.ParallelLists

/-!
What a server keeps about the requests in flight there: their tokens and their number, always counted
rightly, and two lists that stand for the requests as long as no completion shifts different entries past each
other.
-/

namespace Vllm.Benchmarks

variable {Result : Type}

/-- The dispatcher with the dispatch times. -/
structure TimedDispatcher (Result : Type) extends Dispatcher Result where
  /-- `dispatch_timestamp` of the request that a handler has -/
  dispatchTimestamp : ℕ → Time := fun _ => 0
  promptDispatchTimestamps : ServerId → List Time := fun _ => []

def ServerStat.init (maxConcurrency pp : ℕ) : ServerStat := { maxConcurrency, pp }

namespace ServerStat

variable (stat : ServerStat) (promptDispatchTimestamps : List Time) (now : Time)

/-- The sum in `estimate_request_latency` and in `RequestStats.add` -/
def summedAges : ℚ := ((stat.inFlightPromptLens.zip promptDispatchTimestamps).map fun p => (now - p.2) * p.1).sum

/-- The feature that `estimate_request_latency` gives to the model -/
def progress : ℚ :=
  if 0 < stat.inFlightTokens then stat.summedAges promptDispatchTimestamps now / stat.inFlightTokens else 0

/-- The one that `RequestStats.add` records -/
def recordedProgress : ℚ :=
  if 0 < stat.inFlightTokens then stat.summedAges promptDispatchTimestamps now / stat.inFlightTokens
  else stat.summedAges promptDispatchTimestamps now

end ServerStat

namespace TimedDispatcher

def start (config : DispatcherConfig) : TimedDispatcher Result where
  toDispatcher := .start { config with servers := config.servers.map fun server => .init server.maxConcurrency server.pp }

/-- An event, with the rounded time at which it happens. -/
def step (d : TimedDispatcher Result) : Time × DispatchEvent Result → Option (TimedDispatcher Result)
  | (now, event) => do
    let next ← d.toDispatcher.step event
    match event with
    | .take handler _ =>
      return { d with
        toDispatcher := next
        dispatchTimestamp := Function.update d.dispatchTimestamp handler now }
    | .send handler => do
      let h ← d.handlers[handler]?
      let timestamps := d.promptDispatchTimestamps h.serverId
      return { d with
        toDispatcher := next
        promptDispatchTimestamps := Function.update d.promptDispatchTimestamps h.serverId
          (timestamps ++ [d.dispatchTimestamp handler]) }
    | .complete handler => do
      let h ← d.handlers[handler]?
      let timestamps := d.promptDispatchTimestamps h.serverId
      return { d with
        toDispatcher := next
        promptDispatchTimestamps := Function.update d.promptDispatchTimestamps h.serverId
          (timestamps.erase (d.dispatchTimestamp handler)) }
    | _ => return { d with toDispatcher := next }

end TimedDispatcher

/-- The prompt length and the dispatch time of a request that is in flight. -/
def HandlerState.inFlight (dispatchTimestamp : Time) : HandlerState Result → Multiset (ℕ × Time)
  | .sent waiting => {(waiting.1.promptLen, dispatchTimestamp)}
  | .returned waiting _ => {(waiting.1.promptLen, dispatchTimestamp)}
  | _ => 0

def tokenWeightedAge (now : Time) (requests : Multiset (ℕ × Time)) : ℚ :=
  (requests.map fun p => (now - p.2) * p.1).sum / ((requests.map Prod.fst).sum : ℕ)

namespace TimedDispatcher

variable (d : TimedDispatcher Result)

def inFlight (server : ServerId) : Multiset (ℕ × Time) :=
  (d.handlers.mapIdx fun i h => if h.serverId = server then h.state.inFlight (d.dispatchTimestamp i) else 0).sum

/-- What a server keeps is what is in flight there. -/
def Tracked : Prop := ∀ server stat, d.serverStats[server]? = some stat →
  stat.inFlightTokens = ((d.inFlight server).map Prod.fst).sum ∧ stat.count = (d.inFlight server).card ∧
    ↑(stat.inFlightPromptLens.zip (d.promptDispatchTimestamps server)) = d.inFlight server

/-- Where the two lists are shifted past each other by a request that completes, the entries are the same. -/
def Separates (d : TimedDispatcher Result) : Time × DispatchEvent Result → Prop
  | (_, .complete handler) =>
    match d.handlers[handler]? with
    | some ⟨server, .returned waiting _⟩ =>
      match d.serverStats[server]? with
      | some stat => Separable waiting.1.promptLen (d.dispatchTimestamp handler)
          (stat.inFlightPromptLens.zip (d.promptDispatchTimestamps server))
      | none => True
    | _ => True
  | _ => True

instance decideSeparates (event : Time × DispatchEvent Result) : Decidable (d.Separates event) := by
  unfold Separates
  split
  · split
    · split <;> infer_instance
    · infer_instance
  · infer_instance

end TimedDispatcher
end Vllm.Benchmarks

namespace Vllm.Benchmarks

variable {Result : Type}

namespace TimedDispatcher

variable {d d' : TimedDispatcher Result} {i : ℕ} {h : Handler Result} {server : ServerId} {now : Time}

/-! ### What is in flight -/

/-- The requests in flight at a server, of these handlers and these dispatch times. -/
def inFlightOf (handlers : List (Handler Result)) (dispatchTimestamp : ℕ → Time) (server : ServerId) : Multiset (ℕ × Time) :=
  (handlers.mapIdx fun i h => if h.serverId = server then h.state.inFlight (dispatchTimestamp i) else 0).sum

variable {handlers : List (Handler Result)} {dispatchTimestamp : ℕ → Time}

theorem inFlightOf_update (handler : handlers[i]? = some h) (idle : h.state = .idle) :
    inFlightOf handlers (Function.update dispatchTimestamp i now) server = inFlightOf handlers dispatchTimestamp server := by
  unfold inFlightOf
  congr 1
  apply List.ext_getElem?
  intro j
  rw [List.getElem?_mapIdx, List.getElem?_mapIdx]
  by_cases same : j = i
  · subst same
    rw [handler, Option.map_some, Option.map_some, idle]
    rfl
  · rw [Function.update_of_ne same]

theorem inFlightOf_modify
    (handler : handlers[i]? = some h) (state : HandlerState Result) (server : ServerId) :
    inFlightOf (handlers.modify i fun h => { h with state }) dispatchTimestamp server +
        (if h.serverId = server then h.state.inFlight (dispatchTimestamp i) else 0) =
      inFlightOf handlers dispatchTimestamp server +
        if h.serverId = server then state.inFlight (dispatchTimestamp i) else 0 :=
  sum_mapIdx_modify handler (fun h => { h with state }) fun i h =>
    if h.serverId = server then h.state.inFlight (dispatchTimestamp i) else 0

theorem inFlightOf_same {state : HandlerState Result}
    (handler : handlers[i]? = some h) (same : state.inFlight (dispatchTimestamp i) = h.state.inFlight (dispatchTimestamp i)) :
    inFlightOf (handlers.modify i fun h => { h with state }) dispatchTimestamp server =
      inFlightOf handlers dispatchTimestamp server := by
  have both := @inFlightOf_modify _ _ _ _ dispatchTimestamp handler state server
  rw [same] at both
  exact add_right_cancel both

/-! ### What a server keeps -/

structure Kept (stat : ServerStat) (timestamps : List Time) (pairs : List (ℕ × Time)) : Prop where
  lens : stat.inFlightPromptLens = pairs.map Prod.fst
  timestamps : timestamps = pairs.map Prod.snd
  tokens : stat.inFlightTokens = (pairs.map Prod.fst).sum
  count : stat.count = pairs.length

variable {stat : ServerStat} {timestamps : List Time} {pairs : List (ℕ × Time)} {len : ℕ} {timestamp : Time}

theorem Kept.addInFlight (kept : Kept stat timestamps pairs) (len : ℕ) (timestamp : Time) :
    Kept (stat.addInFlight len) (timestamps ++ [timestamp]) (pairs ++ [(len, timestamp)]) := by
  constructor
  · rw [List.map_append, ← kept.lens]
    rfl
  · rw [List.map_append, ← kept.timestamps]
    rfl
  · rw [List.map_append, List.sum_append, ← kept.tokens]
    rfl
  · rw [List.length_append, ← kept.count]
    rfl

theorem Kept.removeInFlight (kept : Kept stat timestamps pairs) (there : (len, timestamp) ∈ pairs) :
    Kept (stat.removeInFlight len) (timestamps.erase timestamp)
      (((pairs.map Prod.fst).erase len).zip ((pairs.map Prod.snd).erase timestamp)) := by
  have first : len ∈ pairs.map Prod.fst := List.mem_map_of_mem (f := Prod.fst) there
  have second : timestamp ∈ pairs.map Prod.snd := List.mem_map_of_mem (f := Prod.snd) there
  have lengths : ((pairs.map Prod.fst).erase len).length = ((pairs.map Prod.snd).erase timestamp).length := by
    rw [List.length_erase_of_mem first, List.length_erase_of_mem second, List.length_map, List.length_map]
  have fst := List.map_fst_zip lengths.le
  constructor
  · rw [fst, ← kept.lens]
    rfl
  · rw [List.map_snd_zip lengths.ge, kept.timestamps]
  · rw [fst]
    have sum := List.sum_erase first
    show stat.inFlightTokens - len = _
    rw [kept.tokens]
    omega
  · rw [List.length_zip, lengths, min_self, List.length_erase_of_mem second, List.length_map, ← kept.count]
    rfl

/-- Each server keeps the requests that are in flight there. -/
def Keeps (d : TimedDispatcher Result) : Prop := ∀ server stat, d.serverStats[server]? = some stat →
  ∃ pairs, Kept stat (d.promptDispatchTimestamps server) pairs ∧ ↑pairs = d.inFlight server

theorem Keeps.tracked (keeps : d.Keeps) : d.Tracked := by
  intro server stat found
  obtain ⟨pairs, kept, same⟩ := keeps server stat found
  refine ⟨?_, ?_, ?_⟩
  · rw [kept.tokens, ← same, Multiset.map_coe, Multiset.sum_coe]
  · rw [kept.count, ← same, Multiset.coe_card]
  · rw [kept.lens, kept.timestamps, zip_fst_snd, same]

theorem Keeps.of_same (keeps : d.Keeps) (stats : d'.serverStats = d.serverStats)
    (timestamps : d'.promptDispatchTimestamps = d.promptDispatchTimestamps)
    (inFlight : ∀ server, d'.inFlight server = d.inFlight server) : d'.Keeps := by
  intro server stat found
  rw [stats] at found
  rw [timestamps, inFlight]
  exact keeps server stat found

theorem Keeps.modify (keeps : d.Keeps) {f : ServerStat → ServerStat} {timestamps : List Time}
    (stats : d'.serverStats = d.serverStats.modify server f)
    (dispatched : d'.promptDispatchTimestamps = Function.update d.promptDispatchTimestamps server timestamps)
    (others : ∀ other, other ≠ server → d'.inFlight other = d.inFlight other)
    (here : ∀ stat pairs, d.serverStats[server]? = some stat → Kept stat (d.promptDispatchTimestamps server) pairs →
      ↑pairs = d.inFlight server → ∃ pairs', Kept (f stat) timestamps pairs' ∧ ↑pairs' = d'.inFlight server) : d'.Keeps := by
  intro other stat found
  rw [stats, List.getElem?_modify] at found
  rw [dispatched]
  by_cases same : server = other
  · subst same
    rw [Function.update_self]
    cases before : d.serverStats[server]? with
    | none =>
      rw [before] at found
      cases found
    | some stat₀ =>
      rw [before, Option.map_eq_map, Option.map_some, if_pos rfl] at found
      cases found
      obtain ⟨pairs, kept, counted⟩ := keeps server stat₀ before
      exact here stat₀ pairs before kept counted
  · rw [Function.update_of_ne (Ne.symm same), others other (Ne.symm same)]
    apply keeps other stat
    simpa [same] using found

theorem idle_of_take {estimates : List Estimates} {next : Dispatcher Result} (stepped : d.toDispatcher.take i estimates = some next) :
    ∃ h, d.handlers[i]? = some h ∧ h.state = .idle := by
  obtain ⟨h, handler, stepped⟩ := Option.bind_eq_some_iff.mp stepped
  obtain ⟨_, -, stepped⟩ := Option.bind_eq_some_iff.mp stepped
  obtain ⟨stat, -, stepped⟩ := Option.bind_eq_some_iff.mp stepped
  split at stepped
  · rename_i idle
    exact ⟨h, handler, idle⟩
  · cases stepped

theorem keeps_start (config : DispatcherConfig) : (start config : TimedDispatcher Result).Keeps := by
  intro server stat found
  have listed := List.mem_of_getElem? found
  obtain ⟨init, -, rfl⟩ := List.mem_map.mp listed
  refine ⟨[], ⟨rfl, rfl, rfl, rfl⟩, ?_⟩
  refine (List.sum_eq_zero fun x member => ?_).symm
  obtain ⟨i, inside, rfl⟩ := List.mem_mapIdx.mp member
  rw [Dispatcher.idle_start (List.getElem_mem inside)]
  split <;> rfl

/-- One event, and the lists still stand for what is in flight. -/
theorem Keeps.step {event : Time × DispatchEvent Result} (keeps : d.Keeps) (separates : d.Separates event)
    (stepped : d.step event = some d') : d'.Keeps := by
  obtain ⟨now, event⟩ := event
  obtain ⟨next, inner, stepped⟩ := Option.bind_eq_some_iff.mp stepped
  have cases_ := Dispatcher.stepped_of_step inner
  cases event with
  | enqueue request chosenServer =>
    cases stepped
    cases cases_ with
    | enqueue found => exact keeps.of_same rfl rfl fun _ => rfl
  | take handler estimates =>
    cases stepped
    obtain ⟨h, there, idle⟩ := idle_of_take inner
    have updated : ∀ server, inFlightOf d.handlers (Function.update d.dispatchTimestamp handler now) server =
        d.inFlight server := fun server => inFlightOf_update there idle
    cases cases_ with
    | rebalance moved => exact keeps.of_same rfl rfl updated
    | @take _ h' _ _ _ _ _ waiting handler_ idle_ moved found popped =>
      refine keeps.of_same rfl rfl fun server => ?_
      refine (inFlightOf_same there ?_).trans (updated server)
      rw [idle]
      rfl
  | send handler =>
    obtain ⟨h, there, stepped⟩ := Option.bind_eq_some_iff.mp stepped
    cases stepped
    cases cases_ with
    | @send _ h' waiting handler_ taken =>
      rw [there] at handler_
      cases handler_
      have moved := @inFlightOf_modify _ _ _ _ d.dispatchTimestamp there (.sent waiting)
      rw [taken] at moved
      refine @Keeps.modify _ _ _ h.serverId keeps _ _ rfl rfl (fun other different => ?_)
        fun stat pairs found kept counted => ?_
      · have same := moved other
        rw [if_neg (Ne.symm different), if_neg (Ne.symm different), add_zero, add_zero] at same
        exact same
      · refine ⟨_, kept.addInFlight waiting.1.promptLen (d.dispatchTimestamp handler), ?_⟩
        have same := moved h.serverId
        rw [if_pos rfl, if_pos rfl] at same
        rw [← Multiset.coe_add, counted]
        exact same.symm.trans (add_zero _)
  | result handler result =>
    cases stepped
    cases cases_ with
    | @result _ h waiting _ there sent =>
      refine keeps.of_same rfl rfl fun server => inFlightOf_same there ?_
      rw [sent]
      rfl
  | complete handler =>
    obtain ⟨h, there, stepped⟩ := Option.bind_eq_some_iff.mp stepped
    cases stepped
    cases cases_ with
    | @complete _ h' waiting result handler_ returned =>
      rw [there] at handler_
      cases handler_
      have moved := @inFlightOf_modify _ _ _ _ d.dispatchTimestamp there .idle
      rw [returned] at moved
      refine @Keeps.modify _ _ _ h.serverId keeps _ _ rfl rfl (fun other different => ?_)
        fun stat pairs found kept counted => ?_
      · have same := moved other
        rw [if_neg (Ne.symm different), if_neg (Ne.symm different), add_zero, add_zero] at same
        exact same
      · have same := moved h.serverId
        rw [if_pos rfl, if_pos rfl] at same
        have same : _ + {(waiting.1.promptLen, d.dispatchTimestamp handler)} = d.inFlight h.serverId :=
          same.trans (add_zero _)
        have member : (waiting.1.promptLen, d.dispatchTimestamp handler) ∈ pairs := by
          rw [← Multiset.mem_coe, counted, ← same]
          exact Multiset.mem_add.mpr (Or.inr (Multiset.mem_singleton_self _))
        have separable : Separable waiting.1.promptLen (d.dispatchTimestamp handler) pairs := by
          obtain ⟨server, state⟩ := h
          cases returned
          unfold Separates at separates
          simp only [there, found] at separates
          rw [kept.lens, kept.timestamps, zip_fst_snd] at separates
          exact separates
        refine ⟨_, kept.removeInFlight member, ?_⟩
        have left := Multiset.coe_eq_coe.mpr (separable_perm separable member)
        rw [counted, ← same, ← Multiset.cons_coe, ← Multiset.singleton_add, add_comm] at left
        exact add_right_cancel left

/-- As long as completions do not shift different entries past each other, every server keeps the requests in flight
there, and the progress is their age weighted by tokens. -/
theorem tracked_of_separates {config : DispatcherConfig} {history : List (Time × DispatchEvent Result)}
    (reached : GuardedRun Separates step (start config) history d) : d.Tracked ∧
      ∀ server stat, d.serverStats[server]? = some stat → ∀ now,
        stat.progress (d.promptDispatchTimestamps server) now = tokenWeightedAge now (d.inFlight server) ∧
          stat.recordedProgress (d.promptDispatchTimestamps server) now = tokenWeightedAge now (d.inFlight server) := by
  have keeps : d.Keeps := by
    induction reached with
    | start => exact keeps_start config
    | call _ stepped ih => exact ih.step stepped.1 stepped.2
  refine ⟨keeps.tracked, fun server stat found now => ?_⟩
  obtain ⟨tokens, -, entries⟩ := keeps.tracked server stat found
  have ages : stat.summedAges (d.promptDispatchTimestamps server) now =
      ((d.inFlight server).map fun p => (now - p.2) * p.1).sum := by
    unfold ServerStat.summedAges
    rw [← entries, Multiset.map_coe, Multiset.sum_coe]
  unfold ServerStat.progress ServerStat.recordedProgress tokenWeightedAge
  rw [← tokens, ages]
  by_cases some_ : 0 < stat.inFlightTokens
  · rw [if_pos some_, if_pos some_]
    exact ⟨rfl, rfl⟩
  · -- only empty prompts are in flight
    have none : stat.inFlightTokens = 0 := Nat.eq_zero_of_not_pos some_
    have nothing : ((d.inFlight server).map fun p => (now - p.2) * p.1).sum = 0 := by
      refine Multiset.sum_eq_zero fun x member => ?_
      obtain ⟨p, listed, rfl⟩ := Multiset.mem_map.mp member
      rw [none] at tokens
      have empty : p.1 = 0 := Multiset.sum_eq_zero_iff.mp tokens.symm p.1 (Multiset.mem_map_of_mem Prod.fst listed)
      rw [empty, Nat.cast_zero, mul_zero]
    rw [if_neg some_, if_neg some_, none, nothing, Nat.cast_zero, div_zero]
    exact ⟨rfl, rfl⟩

/-- With clocks that do not go back, a completion that shifts different entries past each other mixes them up. -/
theorem tracked_complete_iff (keeps : d.Keeps) (ordered : ∀ server, (d.promptDispatchTimestamps server).Pairwise (· ≤ ·))
    (stepped : d.step (now, .complete i) = some d') : d'.Tracked ↔ d.Separates (now, .complete i) := by
  refine ⟨fun tracked => ?_, fun separates => (keeps.step separates stepped).tracked⟩
  obtain ⟨next, inner, last⟩ := Option.bind_eq_some_iff.mp stepped
  have cases_ := Dispatcher.stepped_of_step inner
  obtain ⟨h, there, last⟩ := Option.bind_eq_some_iff.mp last
  cases last
  cases cases_ with
  | @complete _ h' waiting result handler_ returned =>
    rw [there] at handler_
    cases handler_
    have moved := @inFlightOf_modify _ _ _ _ d.dispatchTimestamp there .idle h.serverId
    rw [returned, if_pos rfl, if_pos rfl] at moved
    have moved : _ + {(waiting.1.promptLen, d.dispatchTimestamp i)} = d.inFlight h.serverId := moved.trans (add_zero _)
    obtain ⟨server, state⟩ := h
    cases returned
    unfold Separates
    simp only [there]
    cases found : d.serverStats[server]? with
    | none => trivial
    | some stat =>
      dsimp only
      obtain ⟨pairs, kept, counted⟩ := keeps server stat found
      have member : (waiting.1.promptLen, d.dispatchTimestamp i) ∈ pairs := by
        rw [← Multiset.mem_coe, counted, ← moved]
        exact Multiset.mem_add.mpr (Or.inr (Multiset.mem_singleton_self _))
      rw [kept.lens, kept.timestamps, zip_fst_snd, separable_iff (kept.timestamps ▸ ordered server) member]
      have after : (d.serverStats.modify server (ServerStat.removeInFlight waiting.1.promptLen))[server]? =
          some (stat.removeInFlight waiting.1.promptLen) := by
        rw [List.getElem?_modify, found]
        exact congrArg some (if_pos rfl)
      have lens : (stat.removeInFlight waiting.1.promptLen).inFlightPromptLens = (pairs.map Prod.fst).erase waiting.1.promptLen := by
        rw [← kept.lens]
        rfl
      have entries := (tracked server _ after).2.2
      dsimp only at entries
      rw [Function.update_self, lens, kept.timestamps] at entries
      rw [← Multiset.coe_eq_coe, ← Multiset.cons_coe, entries, counted, ← moved, ← Multiset.singleton_add, add_comm]
      rfl

def oneServer : DispatcherConfig where
  lenBasedDispatching := 0
  servers := [{ maxConcurrency := 100, pp := 4 }]
  handlersPerServer := 3

/-- Three requests are sent, of which the first and the last are of the same length. -/
def threeSent : List (Time × DispatchEvent ℕ) :=
  [(3, .send 2), (3, .take 2 []), (2, .send 1), (2, .take 1 []), (1, .send 0), (1, .take 0 []),
    (0, .enqueue ⟨3, 5⟩ 0), (0, .enqueue ⟨2, 7⟩ 0), (0, .enqueue ⟨1, 5⟩ 0)]

theorem tracked_of_separates_example : ∃ d : TimedDispatcher ℕ,
    GuardedRun Separates step (start oneServer) ((5, .complete 0) :: (4, .result 0 10) :: threeSent) d ∧
      d.promptDispatchTimestamps 0 = [2, 3] ∧ d.Tracked := by
  have ran : ∃ d : TimedDispatcher ℕ,
      GuardedRun Separates step (start oneServer) ((5, .complete 0) :: (4, .result 0 10) :: threeSent) d ∧
        d.promptDispatchTimestamps 0 = [2, 3] := by
    apply GuardedRun.exists_of_execute
    decide +kernel
  obtain ⟨d, reached, timestamps⟩ := ran
  exact ⟨d, reached, timestamps, (tracked_of_separates reached).1⟩

/-- When the last of the three completes, the first one is taken for it in one of the lists. -/
theorem equal_lengths_mix : ∃ d : TimedDispatcher ℕ,
    Run (fun d event d' => d.step event = some d') (start oneServer) ((5, .complete 2) :: (4, .result 2 10) :: threeSent) d ∧
      d.serverStats.map ServerStat.inFlightPromptLens = [[7, 5]] ∧ d.promptDispatchTimestamps 0 = [1, 2] ∧
      d.inFlight 0 = {(5, 1), (7, 2)} ∧ ¬d.Tracked := by
  have ran : ∃ d : TimedDispatcher ℕ,
      Run (fun d event d' => d.step event = some d') (start oneServer) ((5, .complete 2) :: (4, .result 2 10) :: threeSent) d ∧
        d.serverStats.map ServerStat.inFlightPromptLens = [[7, 5]] ∧ d.promptDispatchTimestamps 0 = [1, 2] ∧
        d.inFlight 0 = {(5, 1), (7, 2)} := by
    apply Run.exists_of_execute
    decide +kernel
  obtain ⟨d, reached, lens, timestamps, inFlight⟩ := ran
  refine ⟨d, reached, lens, timestamps, inFlight, fun tracked => ?_⟩
  obtain ⟨stat, found, listed⟩ : ∃ stat, d.serverStats[0]? = some stat ∧ stat.inFlightPromptLens = [7, 5] := by
    cases stats : d.serverStats with
    | nil =>
      rw [stats] at lens
      cases lens
    | cons stat rest =>
      rw [stats, List.map_cons, List.cons.injEq] at lens
      exact ⟨stat, rfl, lens.1⟩
  have entries := (tracked 0 stat found).2.2
  rw [listed, timestamps, inFlight] at entries
  revert entries
  decide +kernel

end TimedDispatcher
end Vllm.Benchmarks
