import VllmProofs.Data.Dict
import VllmProofs.Data.Runs

/-!
`StatelessProcessGroup`, `vllm/distributed/utils.py`: ranks that exchange objects through the keys of one
store. Nothing expires, and an object is its pickle.
-/

namespace Vllm.Distributed

abbrev Rank := ℕ

def sendKey (dst : Rank) (n : ℕ) : String := s!"send_to/{dst}/{n}"

def broadcastKey (src : Rank) (n : ℕ) : String := s!"broadcast_from/{src}/{n}"

structure StatelessProcessGroup where
  rank : Rank
  worldSize : ℕ
  sendDstCounter : Rank → ℕ := fun _ => 0
  recvSrcCounter : Rank → ℕ := fun _ => 0
  broadcastSendCounter : ℕ := 0
  broadcastRecvSrcCounter : Rank → ℕ := fun _ => 0

/-- A call that uses the store once. -/
inductive StoreCall (Obj : Type) where
  | sendObj (obj : Obj) (dst : Rank)
  | recvObj (src : Rank)
  | broadcastObj (obj : Obj) (src : Rank)

inductive GroupCall (Obj : Type) where
  | sendObj (obj : Obj) (dst : Rank)
  | recvObj (src : Rank)
  | broadcastObj (obj : Obj) (src : Rank)
  | allGatherObj (obj : Obj)

/-- `all_gather_obj` is a broadcast from each rank, one after the other. -/
def GroupCall.storeCalls {Obj : Type} (worldSize : ℕ) : GroupCall Obj → List (StoreCall Obj)
  | .sendObj obj dst => [.sendObj obj dst]
  | .recvObj src => [.recvObj src]
  | .broadcastObj obj src => [.broadcastObj obj src]
  | .allGatherObj obj => (List.range worldSize).map (.broadcastObj obj)

section
variable {Obj : Type}

namespace StatelessProcessGroup

def sendObj (g : StatelessProcessGroup) (store : Dict String Obj) (obj : Obj) (dst : Rank) :
    Option (StatelessProcessGroup × Dict String Obj) :=
  if dst < g.worldSize then
    some ({ g with sendDstCounter := Function.update g.sendDstCounter dst (g.sendDstCounter dst + 1) },
      store.insert (sendKey dst (g.sendDstCounter dst)) obj)
  else none

/-- `store.get` waits until the key is there. -/
def recvObj (g : StatelessProcessGroup) (store : Dict String Obj) (src : Rank) : Option (StatelessProcessGroup × Obj) :=
  if src < g.worldSize then do
    let obj ← store.get? (sendKey g.rank (g.recvSrcCounter src))
    return ({ g with recvSrcCounter := Function.update g.recvSrcCounter src (g.recvSrcCounter src + 1) }, obj)
  else none

def broadcastSend (g : StatelessProcessGroup) (store : Dict String Obj) (obj : Obj) :
    StatelessProcessGroup × Dict String Obj :=
  ({ g with broadcastSendCounter := g.broadcastSendCounter + 1 },
    store.insert (broadcastKey g.rank g.broadcastSendCounter) obj)

def broadcastRecv (g : StatelessProcessGroup) (store : Dict String Obj) (src : Rank) :
    Option (StatelessProcessGroup × Obj) :=
  if src < g.worldSize then do
    let obj ← store.get? (broadcastKey src (g.broadcastRecvSrcCounter src))
    return ({ g with broadcastRecvSrcCounter :=
      Function.update g.broadcastRecvSrcCounter src (g.broadcastRecvSrcCounter src + 1) }, obj)
  else none

end StatelessProcessGroup

/-- The ranks and their store, and what they have sent and received, oldest first. -/
structure World (Obj : Type) where
  worldSize : ℕ
  groups : Rank → StatelessProcessGroup
  /-- What is left of the calls in progress. -/
  pending : Rank → List (StoreCall Obj) := fun _ => []
  store : Dict String Obj := ∅
  /-- By source and destination. -/
  sent : Rank → Rank → List Obj := fun _ _ => []
  /-- By destination and source. -/
  received : Rank → Rank → List Obj := fun _ _ => []
  broadcast : Rank → List Obj := fun _ => []
  /-- By receiver and source. -/
  broadcastReceived : Rank → Rank → List Obj := fun _ _ => []

/-- A rank calls a method, or makes the next use of the store. -/
inductive Event (Obj : Type) where
  | call (rank : Rank) (groupCall : GroupCall Obj)
  | proceed (rank : Rank)

/-- `log r r' ++ [obj]`, and the others as they were. -/
def record (log : Rank → Rank → List Obj) (r r' : Rank) (obj : Obj) : Rank → Rank → List Obj :=
  Function.update log r (Function.update (log r) r' (log r r' ++ [obj]))

namespace World

def start (worldSize : ℕ) : World Obj where
  worldSize
  groups rank := { rank, worldSize }

/-- There is no next state when a key is not there, or when there is no such rank. -/
def storeCall (w : World Obj) (rank : Rank) : StoreCall Obj → Option (World Obj)
  | .sendObj obj dst => do
    let (g, store) ← (w.groups rank).sendObj w.store obj dst
    return { w with groups := Function.update w.groups rank g, store, sent := record w.sent rank dst obj }
  | .recvObj src => do
    let (g, obj) ← (w.groups rank).recvObj w.store src
    return { w with groups := Function.update w.groups rank g, received := record w.received rank src obj }
  | .broadcastObj obj src =>
    if rank = src then
      let (g, store) := (w.groups rank).broadcastSend w.store obj
      some { w with
        groups := Function.update w.groups rank g
        store
        broadcast := Function.update w.broadcast rank (w.broadcast rank ++ [obj]) }
    else do
      let (g, obj) ← (w.groups rank).broadcastRecv w.store src
      return { w with
        groups := Function.update w.groups rank g
        broadcastReceived := record w.broadcastReceived rank src obj }

def step (w : World Obj) : Event Obj → Option (World Obj)
  | .call rank groupCall =>
    if rank < w.worldSize ∧ (w.pending rank).isEmpty then
      some { w with pending := Function.update w.pending rank (groupCall.storeCalls w.worldSize) }
    else none
  | .proceed rank =>
    match w.pending rank with
    | [] => none
    | next :: rest => do
      let w' ← w.storeCall rank next
      return { w' with pending := Function.update w'.pending rank rest }

abbrev Reaches (worldSize : ℕ) (history : List (Event Obj)) (w : World Obj) : Prop :=
  Run (fun w event w' => w.step event = some w') (start worldSize) history w

/-- What is received is what was sent, from the first object on, and all that was sent is in the store. -/
structure Delivers (w : World Obj) : Prop where
  received : ∀ dst src, w.received dst src <+: w.sent src dst
  broadcastReceived : ∀ dst src, w.broadcastReceived dst src <+: w.broadcast src
  kept : ∀ src dst n obj, (w.sent src dst)[n]? = some obj → w.store.get? (sendKey dst n) = some obj
  broadcastKept : ∀ src n obj, (w.broadcast src)[n]? = some obj → w.store.get? (broadcastKey src n) = some obj

/-- No other rank than `src` has sent anything to `dst`. -/
def OnlySource (w : World Obj) (src dst : Rank) : Prop :=
  ∀ r < w.worldSize, r ≠ src → (w.groups r).sendDstCounter dst = 0

instance (w : World Obj) (src dst : Rank) : Decidable (w.OnlySource src dst) :=
  inferInstanceAs (Decidable (∀ r < w.worldSize, _))

/-- The next use of the store is not of a key that two ranks use. -/
def Unshared (w : World Obj) : Event Obj → Prop
  | .call _ _ => True
  | .proceed rank =>
    match (w.pending rank).head? with
    | some (.sendObj _ dst) => w.OnlySource rank dst
    | some (.recvObj src) => w.OnlySource src rank
    | _ => True

instance (w : World Obj) (event : Event Obj) : Decidable (w.Unshared event) := by
  unfold Unshared
  split
  · infer_instance
  · split <;> infer_instance

end World
end
end Vllm.Distributed
