import VllmProofs.Data.Runs
import VllmProofs.V1.Request

/-!
The cache of multi-modal inputs, `vllm/v1/engine/mm_input_cache.py`: a client that sends each input once,
and a server that remembers it. Statistics are left out.
-/

namespace Vllm.V1
open Exec

structure LRUCache (K V : Type) where
  capacity : ℕ
  cache : Dict K V := ∅
  pinnedItems : List K := []

namespace LRUCache

variable {K V : Type} [DecidableEq K]

def touch (s : LRUCache K V) (key : K) : LRUCache K V :=
  match s.cache.get? key with
  | some value => { s with cache := (s.cache.erase key).insert key value }
  | none => s

def get (s : LRUCache K V) (key : K) : Option V × LRUCache K V :=
  match s.cache.get? key with
  | some value => (some value, s.touch key)
  | none => (none, s)

def pop (s : LRUCache K V) (key : K) : LRUCache K V :=
  { s with
    cache := s.cache.erase key
    pinnedItems := s.pinnedItems.erase key }

def removeOldest (s : LRUCache K V) : Except Raised (LRUCache K V) :=
  if s.cache.size = 0 then .ok s
  else
    match s.cache.keys.find? (· ∉ s.pinnedItems) with
    | some key => .ok (s.pop key)
    | none => .error (.runtimeError "All items are pinned, cannot remove oldest from the cache.")

def removeOldIfNeeded : ℕ → LRUCache K V → Except Raised (LRUCache K V)
  | 0, s => .ok s
  | fuel + 1, s =>
    if s.capacity < s.cache.size then do
      let s ← s.removeOldest
      s.removeOldIfNeeded fuel
    else .ok s

def put (s : LRUCache K V) (key : K) (value : V) : Except Raised (LRUCache K V) :=
  let s : LRUCache K V := { s with cache := s.cache.insert key value }
  (s.touch key).removeOldIfNeeded s.cache.size

end LRUCache

structure MMInputCache where
  useCache : Bool
  mmCache : LRUCache MmHash MmInput

def raise {σ α : Type} : Except Raised α → Call σ α
  | .ok a => pure a
  | .error e => throw e

section
-- what is made of the item with a hash: its precomputed input, or what the input mapper returns or raises
variable (mapped : MmHash → Except Raised MmInput)

namespace MMInputCacheClient

def processInput (mmHash : MmHash) : Call MMInputCache (Option MmInput) := do
  let s ← get
  if s.useCache then
    match s.mmCache.get mmHash with
    | (some _, mmCache) => do
      set { s with mmCache }
      return none
    | (none, mmCache) => do
      let mmInput ← raise (mapped mmHash)
      let mmCache ← raise (mmCache.put mmHash mmInput)
      set { s with mmCache }
      return some mmInput
  else some <$> raise (mapped mmHash)

def processInputs : List MmHash → Call MMInputCache (List (Option MmInput))
  | [] => return []
  | mmHash :: rest => do
    let mmInput ← processInput mapped mmHash
    let others ← processInputs rest
    return mmInput :: others

end MMInputCacheClient
end

namespace MMInputCacheServer

def getAndUpdateInput (mmInput : Option MmInput) (mmHash : MmHash) : Call MMInputCache MmInput := do
  let s ← get
  match mmInput with
  | none =>
    match s.mmCache.get mmHash with
    | (some mmInput, mmCache) => do
      set { s with mmCache }
      return mmInput
    | (none, _) => throw (.assertionError .mmInputIsCached)
  | some mmInput => do
    let mmCache ← raise (s.mmCache.put mmHash mmInput)
    set { s with mmCache }
    return mmInput

def getAndUpdateEach : List (Option MmInput × MmHash) → Call MMInputCache (List MmInput)
  | [] => return []
  | (mmInput, mmHash) :: rest => do
    let mmInput ← getAndUpdateInput mmInput mmHash
    let others ← getAndUpdateEach rest
    return mmInput :: others

def getAndUpdate (mmInputs : List (Option MmInput)) (mmHashes : List MmHash) :
    Call MMInputCache (List (Option MmInput)) := do
  check .mmInputsHaveHashes (mmInputs.length = mmHashes.length)
  let s ← get
  if s.useCache then do
    let fullMmInputs ← getAndUpdateEach (mmInputs.zip mmHashes)
    return fullMmInputs.map some
  else return mmInputs

end MMInputCacheServer

/-! ### The cache keeps what it is given -/

namespace LRUCache

variable {K V : Type} [DecidableEq K] {s t : LRUCache K V} {key k : K} {value v : V}

theorem get_eq (s : LRUCache K V) (key : K) : s.get key = (s.cache.get? key, s.touch key) := by
  unfold get touch
  cases s.cache.get? key <;> rfl

@[simp] theorem get?_touch : (s.touch key).cache.get? k = s.cache.get? k := by
  unfold touch
  cases found : s.cache.get? key with
  | none => rfl
  | some value =>
    dsimp only
    rw [Dict.get?_insert, Dict.get?_erase]
    split
    · rename_i same
      rw [same, found]
    · rfl

theorem touch_pinnedItems : (s.touch key).pinnedItems = s.pinnedItems := by
  unfold touch
  cases s.cache.get? key <;> rfl

structure Shrinks (s t : LRUCache K V) : Prop where
  entries : ∀ k v, t.cache.get? k = some v → s.cache.get? k = some v
  pinnedItems : s.pinnedItems = [] → t.pinnedItems = []

theorem Shrinks.refl (s : LRUCache K V) : Shrinks s s := ⟨fun _ _ found => found, fun none => none⟩

theorem Shrinks.trans {u : LRUCache K V} (first : Shrinks s t) (second : Shrinks t u) : Shrinks s u :=
  ⟨fun k v found => first.entries k v (second.entries k v found), fun none => second.pinnedItems (first.pinnedItems none)⟩

theorem shrinks_pop : Shrinks s (s.pop key) := by
  constructor
  · intro k v found
    have erased : (s.cache.erase key).get? k = some v := found
    rw [Dict.get?_erase] at erased
    split at erased
    · cases erased
    · exact erased
  · intro none
    show s.pinnedItems.erase key = []
    rw [none]
    rfl

theorem removeOldest_ok (unpinned : s.pinnedItems = []) : ∃ t, s.removeOldest = .ok t ∧ Shrinks s t := by
  unfold removeOldest
  split
  · exact ⟨s, rfl, Shrinks.refl s⟩
  · rename_i some_
    rw [unpinned]
    cases found : s.cache.keys.find? (· ∉ ([] : List K)) with
    | none =>
      obtain ⟨key, member⟩ := List.exists_mem_of_length_pos (l := s.cache.keys) (by
        unfold Dict.keys
        rw [List.length_map]
        exact Nat.pos_of_ne_zero some_)
      have pinned := List.find?_eq_none.mp found key member
      simp at pinned
    | some key => exact ⟨s.pop key, rfl, shrinks_pop⟩

theorem removeOldIfNeeded_ok (fuel : ℕ) (unpinned : s.pinnedItems = []) :
    ∃ t, s.removeOldIfNeeded fuel = .ok t ∧ Shrinks s t := by
  induction fuel generalizing s with
  | zero => exact ⟨s, rfl, Shrinks.refl s⟩
  | succ fuel ih =>
    unfold removeOldIfNeeded
    split
    · obtain ⟨t, removed, shrinks⟩ := removeOldest_ok unpinned
      obtain ⟨u, rest, shrinks'⟩ := ih (shrinks.pinnedItems unpinned)
      rw [removed]
      exact ⟨u, rest, shrinks.trans shrinks'⟩
    · exact ⟨s, rfl, Shrinks.refl s⟩

theorem put_ok (key : K) (value : V) (unpinned : s.pinnedItems = []) : ∃ t, s.put key value = .ok t ∧ t.pinnedItems = [] ∧
    ∀ k v, t.cache.get? k = some v → k = key ∧ v = value ∨ s.cache.get? k = some v := by
  unfold put
  have same := @touch_pinnedItems _ _ _ { s with cache := s.cache.insert key value } key
  obtain ⟨t, removed, shrinks⟩ := removeOldIfNeeded_ok (s.cache.insert key value).size
    (s := ({ s with cache := s.cache.insert key value } : LRUCache K V).touch key) (same.trans unpinned)
  refine ⟨t, removed, shrinks.pinnedItems (same.trans unpinned), fun k v found => ?_⟩
  have inserted := shrinks.entries k v found
  rw [get?_touch] at inserted
  change (s.cache.insert key value).get? k = some v at inserted
  rw [Dict.get?_insert] at inserted
  split at inserted
  · rename_i mine
    cases inserted
    exact .inl ⟨mine, rfl⟩
  · exact .inr inserted

end LRUCache

/-! ### Two caches -/

section
variable {mapped : MmHash → Except Raised MmInput} {s t : MMInputCache} {mmHash : MmHash} {mmHashes : List MmHash}

/-- Nothing is pinned, and what is cached is what is made of its item. -/
structure MMInputCache.Sound (mapped : MmHash → Except Raised MmInput) (s : MMInputCache) : Prop where
  unpinned : s.mmCache.pinnedItems = []
  cached : ∀ mmHash mmInput, s.mmCache.cache.get? mmHash = some mmInput → mapped mmHash = .ok mmInput

theorem raise_ok {σ α : Type} {x : Except Raised α} {a : α} {s t : σ} (call : raise x s = .ok a t) : x = .ok a ∧ s = t := by
  cases x with
  | ok b =>
    cases call
    exact ⟨rfl, rfl⟩
  | error e => cases call

/-- What the client does with an item, the server does with what it sends. -/
theorem processInput_served {mmInput : Option MmInput} (cached : s.useCache = true) (sound : s.Sound mapped)
    (call : MMInputCacheClient.processInput mapped mmHash s = .ok mmInput t) : t.useCache = true ∧ t.Sound mapped ∧
      ∃ full, mapped mmHash = .ok full ∧ MMInputCacheServer.getAndUpdateInput mmInput mmHash s = .ok full t := by
  obtain ⟨unpinned, content⟩ := sound
  unfold MMInputCacheClient.processInput at call
  rw [get_bind, if_pos cached, LRUCache.get_eq] at call
  unfold MMInputCacheServer.getAndUpdateInput
  rw [get_bind]
  cases found : s.mmCache.cache.get? mmHash with
  | some full =>
    rw [found] at call
    cases call
    dsimp only
    rw [LRUCache.get_eq, found]
    refine ⟨cached, ⟨LRUCache.touch_pinnedItems.trans unpinned, fun mmHash mmInput found => ?_⟩, full,
      content mmHash full found, rfl⟩
    rw [LRUCache.get?_touch] at found
    exact content mmHash mmInput found
  | none =>
    rw [found] at call
    obtain ⟨full, _, first, call⟩ := bind_ok call
    obtain ⟨made, rfl⟩ := raise_ok first
    obtain ⟨mmCache, _, second, call⟩ := bind_ok call
    obtain ⟨put, rfl⟩ := raise_ok second
    cases call
    have same : s.mmCache.touch mmHash = s.mmCache := by
      unfold LRUCache.touch
      rw [found]
    rw [same] at put
    obtain ⟨_, done, unpinned', entries⟩ := LRUCache.put_ok mmHash full unpinned
    rw [put] at done
    cases done
    refine ⟨cached, ⟨unpinned', fun k v found => ?_⟩, full, made, ?_⟩
    · rcases entries k v found with ⟨rfl, rfl⟩ | old
      · exact made
      · exact content k v old
    · show (raise (s.mmCache.put mmHash full) >>= _) s = _
      rw [put]
      rfl

variable {mmInputs : List (Option MmInput)}

theorem processInputs_served (cached : s.useCache = true) (sound : s.Sound mapped)
    (call : MMInputCacheClient.processInputs mapped mmHashes s = .ok mmInputs t) : t.useCache = true ∧ t.Sound mapped ∧
      mmInputs.length = mmHashes.length ∧ ∃ full : List MmInput, mmHashes.map mapped = full.map Except.ok ∧
        MMInputCacheServer.getAndUpdateEach (mmInputs.zip mmHashes) s = .ok full t := by
  induction mmHashes generalizing s mmInputs with
  | nil =>
    cases call
    exact ⟨cached, sound, rfl, [], rfl, rfl⟩
  | cons mmHash rest ih =>
    unfold MMInputCacheClient.processInputs at call
    obtain ⟨mmInput, u, first, call⟩ := bind_ok call
    obtain ⟨others, _, rest_, call⟩ := bind_ok call
    cases call
    obtain ⟨cached, sound, full, made, served⟩ := processInput_served cached sound first
    obtain ⟨cached, sound, lengths, fulls, mades, serveds⟩ := ih cached sound rest_
    refine ⟨cached, sound, congrArg Nat.succ lengths, full :: fulls, ?_, ?_⟩
    · rw [List.map_cons, List.map_cons, made, mades]
    · show MMInputCacheServer.getAndUpdateEach ((mmInput, mmHash) :: others.zip rest) s = _
      unfold MMInputCacheServer.getAndUpdateEach
      rw [bind_of_ok served, bind_of_ok serveds]
      rfl

theorem processInputs_uncached (uncached : s.useCache = false)
    (call : MMInputCacheClient.processInputs mapped mmHashes s = .ok mmInputs t) :
    s = t ∧ ∃ full : List MmInput, mmHashes.map mapped = full.map Except.ok ∧ mmInputs = full.map some := by
  induction mmHashes generalizing mmInputs with
  | nil =>
    cases call
    exact ⟨rfl, [], rfl, rfl⟩
  | cons mmHash rest ih =>
    unfold MMInputCacheClient.processInputs at call
    obtain ⟨mmInput, u, first, call⟩ := bind_ok call
    obtain ⟨others, v, rest_, call⟩ := bind_ok call
    cases call
    unfold MMInputCacheClient.processInput at first
    rw [get_bind, if_neg (by rw [uncached]; decide), map_apply] at first
    split at first
    · rename_i input _ returned
      obtain ⟨made, rfl⟩ := raise_ok returned
      cases first
      obtain ⟨rfl, full, mades, rfl⟩ := ih rest_
      refine ⟨rfl, input :: full, ?_, rfl⟩
      rw [List.map_cons, List.map_cons, made, mades]
    · cases first

theorem processInputs_understood (sound : s.Sound mapped)
    (call : MMInputCacheClient.processInputs mapped mmHashes s = .ok mmInputs t) : t.Sound mapped ∧
      ∃ full : List MmInput, mmHashes.map mapped = full.map Except.ok ∧
        MMInputCacheServer.getAndUpdate mmInputs mmHashes s = .ok (full.map some) t := by
  unfold MMInputCacheServer.getAndUpdate
  cases cached : s.useCache with
  | true =>
    obtain ⟨-, sound, lengths, full, made, served⟩ := processInputs_served cached sound call
    refine ⟨sound, full, made, ?_⟩
    unfold check
    rw [if_pos lengths, pure_bind, get_bind, if_pos cached, bind_of_ok served]
    rfl
  | false =>
    obtain ⟨rfl, full, made, rfl⟩ := processInputs_uncached cached call
    refine ⟨sound, full, made, ?_⟩
    have lengths := congrArg List.length made
    rw [List.length_map, List.length_map] at lengths
    unfold check
    rw [if_pos (by rw [List.length_map, lengths]), pure_bind, get_bind, if_neg (by rw [cached]; decide)]
    rfl

theorem after_uncached (uncached : s.useCache = false) : after (MMInputCacheClient.processInputs mapped mmHashes) s = s := by
  induction mmHashes with
  | nil => rfl
  | cons mmHash rest ih =>
    unfold after at ih ⊢
    unfold MMInputCacheClient.processInputs MMInputCacheClient.processInput
    rw [bind_apply, get_bind, if_neg (by rw [uncached]; decide), map_apply]
    cases mapped mmHash with
    | error e => rfl
    | ok input =>
      dsimp only [raise, pure_apply]
      rw [bind_apply]
      cases others : MMInputCacheClient.processInputs mapped rest s with
      | ok mmInputs t =>
        rw [others] at ih
        exact ih
      | error e t =>
        rw [others] at ih
        exact ih

theorem processInputs_returns (cached : s.useCache = true) (sound : s.Sound mapped)
    (all : ∀ mmHash ∈ mmHashes, (mapped mmHash).isOk = true) :
    ∃ mmInputs t, MMInputCacheClient.processInputs mapped mmHashes s = .ok mmInputs t := by
  induction mmHashes generalizing s with
  | nil => exact ⟨[], s, rfl⟩
  | cons mmHash rest ih =>
    have first : ∃ mmInput t, MMInputCacheClient.processInput mapped mmHash s = .ok mmInput t := by
      unfold MMInputCacheClient.processInput
      rw [get_bind, if_pos cached, LRUCache.get_eq]
      cases found : s.mmCache.cache.get? mmHash with
      | some full => exact ⟨_, _, rfl⟩
      | none =>
        cases made : mapped mmHash with
        | error e =>
          have isOk := all mmHash List.mem_cons_self
          rw [made] at isOk
          cases isOk
        | ok full =>
          obtain ⟨mmCache, put, -⟩ := LRUCache.put_ok mmHash full (s := s.mmCache.touch mmHash)
            (LRUCache.touch_pinnedItems.trans sound.unpinned)
          dsimp only [raise]
          rw [pure_bind, put]
          exact ⟨_, _, rfl⟩
    obtain ⟨mmInput, u, first⟩ := first
    obtain ⟨cached, sound, -⟩ := processInput_served cached sound first
    obtain ⟨others, t, call⟩ := ih cached sound fun mmHash member => all mmHash (List.mem_cons_of_mem _ member)
    unfold MMInputCacheClient.processInputs
    rw [bind_of_ok first, bind_of_ok call]
    exact ⟨_, _, rfl⟩

theorem processInputs_raises_first {e : Raised} (cached : s.useCache = true) (sound : s.Sound mapped)
    (raises : mapped mmHash = .error e) :
    MMInputCacheClient.processInputs mapped (mmHash :: mmHashes) s = .error e s := by
  have absent : s.mmCache.cache.get? mmHash = none := by
    by_contra there
    obtain ⟨full, found⟩ := Option.ne_none_iff_exists'.mp there
    have made := sound.cached mmHash full found
    rw [raises] at made
    cases made
  unfold MMInputCacheClient.processInputs MMInputCacheClient.processInput
  apply bind_of_error
  rw [get_bind, if_pos cached, LRUCache.get_eq, absent]
  dsimp only
  rw [raises]
  rfl

end

/-! ### The frontend and the engine core -/

structure MmMessage where
  mmInputs : List (Option MmInput)
  mmHashes : List MmHash
  deriving DecidableEq

structure MmEngine where
  client : MMInputCache
  server : MMInputCache
  /-- The requests that the `OutputProcessor` knows. -/
  requestStates : List RequestId := []
  /-- The messages on their way to the engine core, oldest first. -/
  sent : List MmMessage := []

inductive MmEvent where
  /-- `add_request`, of a request or of a child of one -/
  | submit (requestId : RequestId) (mmHashes : List MmHash)
  /-- A request has finished, or been aborted. -/
  | forget (requestId : RequestId)
  /-- The engine core takes the oldest message. -/
  | receive

namespace MmEngine

def start (useCache : Bool) (capacity : ℕ) : MmEngine where
  client := { useCache, mmCache := { capacity } }
  server := { useCache, mmCache := { capacity } }

section
variable (mapped : MmHash → Except Raised MmInput)

/-- `process_inputs`, `OutputProcessor.add_request` and `add_request_async`. When one of the first two raises,
nothing is sent. -/
def submit (requestId : RequestId) (mmHashes : List MmHash) (e : MmEngine) : MmEngine :=
  match MMInputCacheClient.processInputs mapped mmHashes e.client with
  | .error _ client => { e with client }
  | .ok mmInputs client =>
    if requestId ∈ e.requestStates then { e with client }
    else { e with
      client
      requestStates := requestId :: e.requestStates
      sent := e.sent ++ [⟨mmInputs, mmHashes⟩] }

/-- There is no next state when the engine core raises. -/
def step (e : MmEngine) : MmEvent → Option MmEngine
  | .submit requestId mmHashes => some (e.submit mapped requestId mmHashes)
  | .forget requestId => some { e with requestStates := e.requestStates.erase requestId }
  | .receive =>
    match e.sent with
    | [] => none
    | message :: sent => do
      let server ← next? (MMInputCacheServer.getAndUpdate message.mmInputs message.mmHashes) e.server
      return { e with server, sent }

/-- The oldest message is understood: the engine core gets the inputs that are made of its items. -/
def Mirrored (e : MmEngine) : Prop :=
  ∀ message ∈ e.sent.head?, ∃ (full : List MmInput) (server : MMInputCache), message.mmHashes.map mapped = full.map Except.ok ∧
    MMInputCacheServer.getAndUpdate message.mmInputs message.mmHashes e.server = .ok (full.map some) server

end
section
variable {mapped : MmHash → Except Raised MmInput} {e e' : MmEngine} {event : MmEvent}

/-- What the server makes of the messages that are on their way brings it where the client is. -/
inductive Replays (mapped : MmHash → Except Raised MmInput) : List MmMessage → MMInputCache → MMInputCache → Prop
  | done (s : MMInputCache) : Replays mapped [] s s
  | message {message : MmMessage} {rest : List MmMessage} {full : List MmInput} {s t u : MMInputCache}
      (made : message.mmHashes.map mapped = full.map Except.ok)
      (call : MMInputCacheServer.getAndUpdate message.mmInputs message.mmHashes s = .ok (full.map some) t) :
      Replays mapped rest t u → Replays mapped (message :: rest) s u

theorem Replays.send (message : MmMessage) {sent : List MmMessage} {full : List MmInput} {s t u : MMInputCache}
    (replays : Replays mapped sent s t) (made : message.mmHashes.map mapped = full.map Except.ok)
    (call : MMInputCacheServer.getAndUpdate message.mmInputs message.mmHashes t = .ok (full.map some) u) :
    Replays mapped (sent ++ [message]) s u := by
  induction replays with
  | done s => exact .message made call (.done u)
  | message made' call' _ ih => exact .message made' call' (ih call)

/-- A submission that changes the cache of the client does not raise: its id is not taken, and something can be
made of every item. -/
def Meets (mapped : MmHash → Except Raised MmInput) (e : MmEngine) : MmEvent → Prop
  | .submit requestId mmHashes => e.client.useCache = true → ∀ first ∈ mmHashes.head?, (mapped first).isOk = true →
      requestId ∉ e.requestStates ∧ ∀ mmHash ∈ mmHashes, (mapped mmHash).isOk = true
  | _ => True

/-- A run in which every submission meets the condition, latest event first. -/
abbrev ReachesDelivered (mapped : MmHash → Except Raised MmInput) (e : MmEngine) : List MmEvent → MmEngine → Prop :=
  Run (fun e event e' => e.Meets mapped event ∧ e.step mapped event = some e') e

structure InStep (mapped : MmHash → Except Raised MmInput) (e : MmEngine) : Prop where
  replays : Replays mapped e.sent e.server e.client
  sound : e.client.Sound mapped

/-- A submission is sent, or the cache of the client stays as it is. -/
theorem submit_cases {requestId : RequestId} {mmHashes : List MmHash} (sound : e.client.Sound mapped)
    (meets : e.Meets mapped (.submit requestId mmHashes)) :
    e.submit mapped requestId mmHashes = e ∨
      ∃ mmInputs client, MMInputCacheClient.processInputs mapped mmHashes e.client = .ok mmInputs client ∧
        e.submit mapped requestId mmHashes =
          { e with
            client
            requestStates := requestId :: e.requestStates
            sent := e.sent ++ [⟨mmInputs, mmHashes⟩] } := by
  have outcome : (∃ mmInputs client, MMInputCacheClient.processInputs mapped mmHashes e.client = .ok mmInputs client ∧
      requestId ∉ e.requestStates) ∨ after (MMInputCacheClient.processInputs mapped mmHashes) e.client = e.client := by
    cases cached : e.client.useCache with
    | false => exact .inr (after_uncached cached)
    | true =>
      cases mmHashes with
      | nil => exact .inr rfl
      | cons first rest =>
        cases made : mapped first with
        | error raised => exact .inr (after_error (processInputs_raises_first cached sound made))
        | ok full =>
          obtain ⟨unused, all⟩ := meets cached first rfl (by rw [made]; rfl)
          obtain ⟨mmInputs, client, call⟩ := processInputs_returns cached sound all
          exact .inl ⟨mmInputs, client, call, unused⟩
  unfold submit
  rcases outcome with ⟨mmInputs, client, call, unused⟩ | same
  · right
    refine ⟨mmInputs, client, call, ?_⟩
    rw [call]
    exact if_neg unused
  · unfold after at same
    cases call : MMInputCacheClient.processInputs mapped mmHashes e.client with
    | error raised client =>
      rw [call] at same
      dsimp only at same ⊢
      rw [same]
      exact .inl rfl
    | ok mmInputs client =>
      rw [call] at same
      dsimp only at same ⊢
      split
      · rw [same]
        exact .inl rfl
      · exact .inr ⟨mmInputs, client, rfl, rfl⟩

theorem InStep.step (inStep : InStep mapped e) (meets : e.Meets mapped event) (step : e.step mapped event = some e') :
    InStep mapped e' := by
  obtain ⟨replays, sound⟩ := inStep
  cases event with
  | submit requestId mmHashes =>
    cases step
    rcases submit_cases sound meets with same | ⟨mmInputs, client, call, same⟩
    · rw [same]
      exact ⟨replays, sound⟩
    · rw [same]
      obtain ⟨sound, full, made, served⟩ := processInputs_understood sound call
      exact ⟨replays.send ⟨mmInputs, mmHashes⟩ made served, sound⟩
  | forget requestId =>
    cases step
    exact ⟨replays, sound⟩
  | receive =>
    unfold MmEngine.step at step
    dsimp only at step
    generalize atServer : e.server = server at replays step
    generalize onTheWay : e.sent = sent at replays step
    cases replays with
    | done => cases step
    | message made call rest =>
      obtain ⟨t, next, done⟩ := Option.bind_eq_some_iff.mp step
      rw [next?_eq_some.mpr ⟨_, call⟩] at next
      cases next
      cases done
      exact ⟨rest, sound⟩

theorem inStep_start (useCache : Bool) (capacity : ℕ) : InStep mapped (start useCache capacity) := by
  refine ⟨.done _, rfl, ?_⟩
  intro mmHash mmInput found
  cases found

/-- When no submission raises after the cache of the client has changed, every message is understood. -/
theorem mirrored_of_delivered {useCache : Bool} {capacity : ℕ} {history : List MmEvent}
    (run : ReachesDelivered mapped (start useCache capacity) history e) : e.Mirrored mapped := by
  have inStep : InStep mapped e := by
    induction run with
    | start => exact inStep_start useCache capacity
    | call _ step ih => exact ih.step step.1 step.2
  intro message first
  obtain ⟨replays, -⟩ := inStep
  generalize e.server = server at replays ⊢
  generalize e.sent = sent at replays first
  cases replays with
  | done => cases first
  | message made call rest =>
    cases first
    exact ⟨_, _, made, call⟩

end

/-! ### A duplicate id -/

/-- Something can be made of every item. -/
def own (mmHash : MmHash) : Except Raised MmInput := .ok (mmHash + 1000)

theorem mirrored_repeated : ∃ e, ReachesDelivered own (start true 1) [.submit 1 [7, 8, 8], .receive, .submit 0 [7, 7]] e ∧
    e.sent = [⟨[none, some 1008, none], [7, 8, 8]⟩] ∧ e.Mirrored own := by
  have ran : ∃ e, Run (fun e event e' => e.step own event = some e') (start true 1)
      [.submit 1 [7, 8, 8], .receive, .submit 0 [7, 7]] e ∧
        e.sent = [⟨[none, some 1008, none], [7, 8, 8]⟩] := by
    apply Run.exists_of_execute
    decide +kernel
  obtain ⟨e, run, sent⟩ := ran
  have all : ∀ mmHash, (own mmHash).isOk = true := fun _ => rfl
  have delivered : ReachesDelivered own (start true 1) [.submit 1 [7, 8, 8], .receive, .submit 0 [7, 7]] e := by
    cases run with
    | call before last =>
      cases before with
      | call before second =>
        cases before with
        | call before first =>
          cases before
          refine .call (.call (.call .start ⟨fun _ _ _ _ => ⟨List.not_mem_nil, fun _ _ => all _⟩, first⟩) ⟨trivial, second⟩)
            ⟨fun _ _ _ _ => ⟨?_, fun _ _ => all _⟩, last⟩
          cases first
          cases second
          decide
  exact ⟨e, delivered, sent, mirrored_of_delivered delivered⟩

/-- The client remembers the item of a request that it has not sent. -/
theorem unsent_item : ∃ e, Run (fun e event e' => e.step own event = some e') (start true 4)
    [.submit 1 [7], .receive, .submit 0 [7], .submit 0 []] e ∧ ¬ e.Mirrored own := by
  have ran : ∃ e, Run (fun e event e' => e.step own event = some e') (start true 4)
      [.submit 1 [7], .receive, .submit 0 [7], .submit 0 []] e ∧ e.sent = [⟨[none], [7]⟩] ∧
        raised? (MMInputCacheServer.getAndUpdate [none] [7]) e.server = some (.assertionError .mmInputIsCached) := by
    apply Run.exists_of_execute
    decide +kernel
  obtain ⟨e, run, sent, raises⟩ := ran
  refine ⟨e, run, fun mirrored => ?_⟩
  obtain ⟨full, server, -, call⟩ := mirrored ⟨[none], [7]⟩ (by rw [sent]; rfl)
  obtain ⟨t, raised⟩ := raised?_eq_some.mp raises
  rw [raised] at call
  cases call

end MmEngine
end Vllm.V1
