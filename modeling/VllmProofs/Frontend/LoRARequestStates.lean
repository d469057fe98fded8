import VllmProofs.Frontend.RequestState

/-!
`LoRARequestStates` of `vllm/v1/metrics/stats.py`, and how `IterationStats` moves requests by the events of the
engine core. Latencies and token counts are left out. An abstract view tells where each request stands, and
each method is an update of it.
-/

namespace Vllm.Frontend
open Exec

abbrev LoRAName := String

inductive EngineCoreEventType where
  | queued | scheduled | preempted
  deriving DecidableEq, Repr

structure LoRAStats where
  waitingRequests : Finset RequestId := ∅
  runningRequests : Finset RequestId := ∅

abbrev LoRARequestStates := Dict LoRAName LoRAStats

structure IterationStats where
  numPreemptedReqs : ℕ := 0
  waitingLoraAdapters : Dict LoRAName ℕ := ∅
  runningLoraAdapters : Dict LoRAName ℕ := ∅

namespace LoRARequestStates

/-- The statistics of the request's adapter, by its name. -/
def getStats : Option LoRAName → Method LoRARequestStates (Option LoRAName)
  | none => return none
  | some name => do
    let s ← get
    if !s.contains name then set (s.insert name {})
    return some name

/-- What is done to the statistics of an adapter; `set.remove` raises a `KeyError`. -/
def onStats (name : LoRAName) (f : LoRAStats → Option LoRAStats) : Method LoRARequestStates Unit := do
  let s ← get
  match s.get? name with
  | none => throw .keyError
  | some stats =>
    match f stats with
    | none => throw .keyError
    | some stats => set (s.insert name stats)

/-- `lora_stats.waiting_requests.add(request_id)`, when there are statistics. -/
def addWaiting (requestId : RequestId) : Option LoRAName → Method LoRARequestStates Unit
  | none => pure ()
  | some name => onStats name fun stats =>
    some { stats with waitingRequests := insert requestId stats.waitingRequests }

def addRequest (requestId : RequestId) (loraName : Option LoRAName) : Method LoRARequestStates Unit := do
  addWaiting requestId (← getStats loraName)

def finishRequest (requestId : RequestId) : Option LoRAName → Method LoRARequestStates Unit
  | none => pure ()
  | some name => onStats name fun stats =>
    if requestId ∈ stats.runningRequests then
      some { stats with runningRequests := stats.runningRequests.erase requestId }
    else none

def abortRequest (requestId : RequestId) : Option LoRAName → Method LoRARequestStates Unit
  | none => pure ()
  | some name => onStats name fun stats =>
    some { waitingRequests := stats.waitingRequests.erase requestId
           runningRequests := stats.runningRequests.erase requestId }

def scheduledRequest (requestId : RequestId) : Option LoRAName → Method LoRARequestStates Unit
  | none => pure ()
  | some name => onStats name fun stats =>
    if requestId ∈ stats.waitingRequests then
      some { waitingRequests := stats.waitingRequests.erase requestId
             runningRequests := insert requestId stats.runningRequests }
    else none

def preemptedRequest (requestId : RequestId) : Option LoRAName → Method LoRARequestStates Unit
  | none => pure ()
  | some name => onStats name fun stats =>
    if requestId ∈ stats.runningRequests then
      some { waitingRequests := insert requestId stats.waitingRequests
             runningRequests := stats.runningRequests.erase requestId }
    else none

def updateFromEvents (requestId : RequestId) (loraStats : Option LoRAName) :
    List EngineCoreEventType → IterationStats → Method LoRARequestStates IterationStats
  | [], iterationStats => return iterationStats
  | .queued :: rest, iterationStats => do
    addWaiting requestId loraStats
    updateFromEvents requestId loraStats rest iterationStats
  | .scheduled :: rest, iterationStats => do
    scheduledRequest requestId loraStats
    updateFromEvents requestId loraStats rest iterationStats
  | .preempted :: rest, iterationStats => do
    preemptedRequest requestId loraStats
    updateFromEvents requestId loraStats rest
      { iterationStats with numPreemptedReqs := iterationStats.numPreemptedReqs + 1 }

def countAdapter (iterationStats : IterationStats) (adapter : LoRAName × LoRAStats) : IterationStats :=
  { iterationStats with
    waitingLoraAdapters := if adapter.2.waitingRequests = ∅ then iterationStats.waitingLoraAdapters
      else iterationStats.waitingLoraAdapters.insert adapter.1 adapter.2.waitingRequests.card
    runningLoraAdapters := if adapter.2.runningRequests = ∅ then iterationStats.runningLoraAdapters
      else iterationStats.runningLoraAdapters.insert adapter.1 adapter.2.runningRequests.card }

def updateIterationStats (s : LoRARequestStates) (iterationStats : Option IterationStats) : Option IterationStats :=
  iterationStats.map fun iterationStats => s.items.foldl countAdapter iterationStats

def waiting (s : LoRARequestStates) (name : LoRAName) : Finset RequestId :=
  ((s.get? name).map LoRAStats.waitingRequests).getD ∅

def running (s : LoRARequestStates) (name : LoRAName) : Finset RequestId :=
  ((s.get? name).map LoRAStats.runningRequests).getD ∅

end LoRARequestStates

/-! ### Where a request stands -/

inductive Standing where
  | waiting | running
  deriving DecidableEq, Repr

namespace Standing

/-- Where an event leads; some do not fit where the request stands. -/
def next : Standing → EngineCoreEventType → Option Standing
  | .waiting, .queued => some .waiting
  | .waiting, .scheduled => some .running
  | .running, .preempted => some .waiting
  | _, _ => none

variable {a b : Standing}

theorem next_queued : a.next .queued = some b ↔ a = .waiting ∧ b = .waiting := by
  cases a <;> cases b <;> decide

theorem next_scheduled : a.next .scheduled = some b ↔ a = .waiting ∧ b = .running := by
  cases a <;> cases b <;> decide

theorem next_preempted : a.next .preempted = some b ↔ a = .running ∧ b = .waiting := by
  cases a <;> cases b <;> decide

def follow (standing : Standing) (events : List EngineCoreEventType) : Option Standing :=
  events.foldlM next standing

end Standing

/-- The requests with an adapter: which, and where they stand. -/
abbrev Live := RequestId → Option (LoRAName × Standing)

structure Places (s : LoRARequestStates) (live : Live) : Prop where
  waiting : ∀ name id, id ∈ s.waiting name ↔ live id = some (name, .waiting)
  running : ∀ name id, id ∈ s.running name ↔ live id = some (name, .running)

namespace LoRARequestStates

variable {s t : LoRARequestStates} {live : Live} {id : RequestId} {name : LoRAName}

theorem waiting_insert (s : LoRARequestStates) (name other : LoRAName) (stats : LoRAStats) :
    waiting (s.insert name stats) other = if other = name then stats.waitingRequests else s.waiting other := by
  unfold waiting
  rw [Dict.get?_insert]
  split <;> rfl

theorem running_insert (s : LoRARequestStates) (name other : LoRAName) (stats : LoRAStats) :
    running (s.insert name stats) other = if other = name then stats.runningRequests else s.running other := by
  unfold running
  rw [Dict.get?_insert]
  split <;> rfl

variable {stats : LoRAStats}

theorem waiting_of_get? (found : s.get? name = some stats) :
    s.waiting name = stats.waitingRequests := by simp [waiting, found]

theorem running_of_get? (found : s.get? name = some stats) :
    s.running name = stats.runningRequests := by simp [running, found]

theorem known_of_live {standing : Standing} (places : Places s live) (stands : live id = some (name, standing)) :
    ∃ stats, s.get? name = some stats := by
  cases found : s.get? name with
  | some stats => exact ⟨stats, rfl⟩
  | none =>
    cases standing with
    | waiting => simpa [waiting, found] using (places.waiting name id).mpr stands
    | running => simpa [running, found] using (places.running name id).mpr stands

/-- Statistics whose sets differ in one request stand for a view that differs in it. -/
theorem places_insert {changed : LoRAStats} (place : Option Standing) (places : Places s live)
    (found : s.get? name = some stats) (here : ∀ other ∈ live id, other.1 = name)
    (waits : ∀ i, i ∈ changed.waitingRequests ↔ if i = id then place = some .waiting else i ∈ stats.waitingRequests)
    (runs : ∀ i, i ∈ changed.runningRequests ↔ if i = id then place = some .running else i ∈ stats.runningRequests) :
    Places (s.insert name changed) (Function.update live id (place.map (name, ·))) := by
  have each : ∀ (standing : Standing) (other : LoRAName) (i : RequestId),
      (if other = name then (if i = id then place = some standing else live i = some (name, standing))
        else live i = some (other, standing)) ↔
      Function.update live id (place.map (name, ·)) i = some (other, standing) := by
    intro standing other i
    by_cases same : i = id
    · subst same
      by_cases elsewhere : other = name
      · simp [elsewhere]
      · simp only [elsewhere, ↓reduceIte, Function.update_self]
        refine iff_of_false (fun stands => elsewhere (here _ stands)) ?_
        cases place with
        | none => simp
        | some _ =>
          simp only [Option.map_some, Option.some.injEq, Prod.mk.injEq, not_and]
          exact fun named => absurd named.symm elsewhere
    · by_cases elsewhere : other = name
      · simp [elsewhere, same]
      · simp [elsewhere, same]
  constructor
  · intro other i
    rw [waiting_insert, ← each]
    split
    · rw [waits, ← waiting_of_get? found, places.waiting]
    · exact places.waiting other i
  · intro other i
    rw [running_insert, ← each]
    split
    · rw [runs, ← running_of_get? found, places.running]
    · exact places.running other i

/-! ### The methods, by the view -/

section
variable {stats : LoRAStats} (found : s.get? name = some stats)
include found

theorem addWaiting_eq : addWaiting id (some name) s =
    .ok () (s.insert name { stats with waitingRequests := insert id stats.waitingRequests }) := by
  simp [addWaiting, onStats, found]

theorem abortRequest_eq : abortRequest id (some name) s = .ok () (s.insert name
    { waitingRequests := stats.waitingRequests.erase id, runningRequests := stats.runningRequests.erase id }) := by
  simp [abortRequest, onStats, found]

theorem finishRequest_eq (runs : id ∈ stats.runningRequests) : finishRequest id (some name) s =
    .ok () (s.insert name { stats with runningRequests := stats.runningRequests.erase id }) := by
  simp [finishRequest, onStats, found, runs]

theorem scheduledRequest_eq (waits : id ∈ stats.waitingRequests) : scheduledRequest id (some name) s =
    .ok () (s.insert name { waitingRequests := stats.waitingRequests.erase id
                            runningRequests := insert id stats.runningRequests }) := by
  simp [scheduledRequest, onStats, found, waits]

theorem preemptedRequest_eq (runs : id ∈ stats.runningRequests) : preemptedRequest id (some name) s =
    .ok () (s.insert name { waitingRequests := insert id stats.waitingRequests
                            runningRequests := stats.runningRequests.erase id }) := by
  simp [preemptedRequest, onStats, found, runs]

end

theorem getStats_places (places : Places s live) (loraName : Option LoRAName) :
    ∃ t, getStats loraName s = .ok loraName t ∧ Places t live ∧ ∀ name ∈ loraName, ∃ stats, t.get? name = some stats := by
  cases loraName with
  | none => exact ⟨s, rfl, places, fun _ member => nomatch member⟩
  | some name =>
    cases known : s.contains name with
    | true =>
      refine ⟨s, by simp [getStats, known], places, fun other same => ?_⟩
      cases same
      exact Dict.contains_iff.mp known
    | false =>
      have unknown := Dict.not_contains_iff.mp known
      refine ⟨s.insert name {}, by simp [getStats, known], ⟨fun other i => ?_, fun other i => ?_⟩, fun other same => ?_⟩
      · rw [waiting_insert, ← places.waiting]
        split
        · rename_i same
          simp [same, waiting, unknown]
        · rfl
      · rw [running_insert, ← places.running]
        split
        · rename_i same
          simp [same, running, unknown]
        · rfl
      · cases same
        exact ⟨_, Dict.get?_insert_self _ _ _⟩

theorem addRequest_places (places : Places s live) (new : live id = none) (loraName : Option LoRAName) :
    ∃ t, addRequest id loraName s = .ok () t ∧
      Places t (Function.update live id (loraName.map (·, .waiting))) := by
  obtain ⟨u, got, kept, known⟩ := getStats_places places loraName
  rw [addRequest, bind_of_ok got]
  cases loraName with
  | none =>
    refine ⟨u, rfl, ?_⟩
    rw [Option.map_none, ← new, Function.update_eq_self]
    exact kept
  | some name =>
    obtain ⟨stats, found⟩ := known name rfl
    refine ⟨_, addWaiting_eq found, ?_⟩
    have absent : id ∉ stats.runningRequests := by
      rw [← running_of_get? found, kept.running, new]
      simp
    refine places_insert (some .waiting) kept found (by simp [new]) (fun i => ?_) fun i => ?_
    · rw [Finset.mem_insert]
      split <;> simp [*]
    · split
      · simp [*]
      · rfl

variable {loraName : Option LoRAName}

theorem abortRequest_places (places : Places s live) (adapter : (live id).map Prod.fst = loraName) :
    ∃ t, abortRequest id loraName s = .ok () t ∧ Places t (Function.update live id none) := by
  cases stands : live id with
  | none =>
    rw [stands] at adapter
    subst adapter
    refine ⟨s, rfl, ?_⟩
    rw [← stands, Function.update_eq_self]
    exact places
  | some place =>
    rw [stands] at adapter
    subst adapter
    obtain ⟨stats, found⟩ := known_of_live places stands
    refine ⟨_, abortRequest_eq found, ?_⟩
    refine places_insert none places found (by simp [stands]) (fun i => ?_) fun i => ?_
    · rw [Finset.mem_erase]
      split <;> simp [*]
    · rw [Finset.mem_erase]
      split <;> simp [*]

theorem finishRequest_places (places : Places s live) (stands : live id = some (name, .running)) :
    ∃ t, finishRequest id (some name) s = .ok () t ∧ Places t (Function.update live id none) := by
  obtain ⟨stats, found⟩ := known_of_live places stands
  have member : id ∈ stats.runningRequests := by rw [← running_of_get? found, places.running, stands]
  have absent : id ∉ stats.waitingRequests := by
    rw [← waiting_of_get? found, places.waiting, stands]
    simp
  refine ⟨_, finishRequest_eq found member, ?_⟩
  refine places_insert none places found (by simp [stands]) (fun i => ?_) fun i => ?_
  · split <;> simp [*]
  · rw [Finset.mem_erase]
    split <;> simp [*]

/-- Events that fit move the request to where they lead. -/
theorem updateFromEvents_places {standing final : Standing} {events : List EngineCoreEventType}
    (iterationStats : IterationStats) (places : Places s live) (stands : live id = some (name, standing))
    (fits : standing.follow events = some final) :
    ∃ counted t, updateFromEvents id (some name) events iterationStats s = .ok counted t ∧
      Places t (Function.update live id (some (name, final))) := by
  induction events generalizing s live standing iterationStats with
  | nil =>
    cases fits
    refine ⟨iterationStats, s, rfl, ?_⟩
    rw [← stands, Function.update_eq_self]
    exact places
  | cons event rest ih =>
    obtain ⟨middle, first, later⟩ := Option.bind_eq_some_iff.mp fits
    obtain ⟨stats, found⟩ := known_of_live places stands
    have here : ∀ other ∈ live id, other.1 = name := by simp [stands]
    have waits : id ∈ stats.waitingRequests ↔ standing = .waiting := by
      rw [← waiting_of_get? found, places.waiting, stands]
      simp
    have runs : id ∈ stats.runningRequests ↔ standing = .running := by
      rw [← running_of_get? found, places.running, stands]
      simp
    -- the rest of the events, from where the first one leads
    have onward : ∀ (counted : IterationStats) (changed : LoRAStats),
        Places (s.insert name changed) (Function.update live id (some (name, middle))) →
        ∃ again t, updateFromEvents id (some name) rest counted (s.insert name changed) = .ok again t ∧
          Places t (Function.update live id (some (name, final))) := by
      intro counted changed moved
      obtain ⟨again, t, call, placed⟩ := ih counted moved (Function.update_self _ _ _) later
      exact ⟨again, t, call, by rwa [Function.update_idem] at placed⟩
    cases event with
    | queued =>
      obtain ⟨rfl, rfl⟩ := Standing.next_queued.mp first
      rw [updateFromEvents, bind_of_ok (addWaiting_eq found)]
      refine onward _ _ (places_insert (some .waiting) places found here (fun i => ?_) fun i => ?_)
      · rw [Finset.mem_insert]
        split <;> simp [*]
      · split <;> simp [*]
    | scheduled =>
      obtain ⟨rfl, rfl⟩ := Standing.next_scheduled.mp first
      rw [updateFromEvents, bind_of_ok (scheduledRequest_eq found (waits.mpr rfl))]
      refine onward _ _ (places_insert (some .running) places found here (fun i => ?_) fun i => ?_)
      · rw [Finset.mem_erase]
        split <;> simp [*]
      · rw [Finset.mem_insert]
        split <;> simp [*]
    | preempted =>
      obtain ⟨rfl, rfl⟩ := Standing.next_preempted.mp first
      rw [updateFromEvents, bind_of_ok (preemptedRequest_eq found (runs.mpr rfl))]
      refine onward _ _ (places_insert (some .waiting) places found here (fun i => ?_) fun i => ?_)
      · rw [Finset.mem_insert]
        split <;> simp [*]
      · rw [Finset.mem_erase]
        split <;> simp [*]

theorem updateFromEvents_none (id : RequestId) (events : List EngineCoreEventType) (iterationStats : IterationStats)
    (s : LoRARequestStates) : ∃ counted, updateFromEvents id none events iterationStats s = .ok counted s := by
  induction events generalizing iterationStats with
  | nil => exact ⟨iterationStats, rfl⟩
  | cons event rest ih =>
    cases event with
    | queued => exact ih iterationStats
    | scheduled => exact ih iterationStats
    | preempted => exact ih _

end LoRARequestStates
end Vllm.Frontend
