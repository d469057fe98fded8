import VllmProofs.Data.KeyOrder
import VllmProofs.V1.MmInputCache

/-!
The LoRA adapters of a worker: `LRUCacheWorkerLoRAManager` of `vllm/lora/worker_manager.py` over
`LRUCacheLoRAModelManager` of `vllm/lora/models.py`. Adapters are registered in one cache and active in a smaller
one; the slots of the active ones are kept beside. The buffers of the slots and the mapping of the tokens are left
out, and so is what `_load_adapter` raises.
-/

namespace Vllm.Lora
open Exec V1

abbrev LoraId := ℤ

structure LoRAConfig where
  maxLoras : ℕ
  maxCpuLoras : ℕ
  biasEnabled : Bool
  one_le_maxLoras : 1 ≤ maxLoras
  maxLoras_le_maxCpuLoras : maxLoras ≤ maxCpuLoras

/-- `__post_init__`: without a `max_cpu_loras` there are as many as fit in a batch. -/
def LoRAConfig.postInit (maxLoras : ℕ) (maxCpuLoras : Option ℕ) (biasEnabled : Bool) : Except Raised LoRAConfig :=
  if positive : maxLoras < 1 then .error (.valueError s!"max_loras ({maxLoras}) must be >= 1.")
  else
    match maxCpuLoras with
    | none => .ok ⟨maxLoras, maxLoras, biasEnabled, Nat.le_of_not_lt positive, le_refl _⟩
    | some maxCpuLoras =>
      if enough : maxCpuLoras < maxLoras then
        .error (.valueError s!"max_cpu_loras ({maxCpuLoras}) must be >= max_loras ({maxLoras})")
      else .ok ⟨maxLoras, maxCpuLoras, biasEnabled, Nat.le_of_not_lt positive, Nat.le_of_not_lt enough⟩

structure LoRALayerWeights where
  bias : Bool

structure Checkpoint where
  loras : Dict String LoRALayerWeights
  scalingFactor : Option ℕ

structure LoRAModel extends Checkpoint where
  id : LoraId

structure LoRARequest where
  loraName : String
  loraIntId : LoraId
  loraPath : String

structure AdapterLRUCache (σ V : Type) where
  cache : σ → LRUCache LoraId V
  setCache : LRUCache LoraId V → σ → σ
  deactivateFn : LoraId → σ → σ

namespace AdapterLRUCache

variable {σ V : Type} (c : AdapterLRUCache σ V)

def contains (key : LoraId) (s : σ) : Bool := (c.cache s).cache.contains key

def len (s : σ) : ℕ := (c.cache s).cache.size

def pop (key : LoraId) (s : σ) : σ :=
  let t := c.setCache ((c.cache s).pop key) s
  if c.contains key s then c.deactivateFn key t else t

def removeOldest (removePinned : Bool) : V1.Call σ Unit := do
  let s ← get
  if c.len s = 0 then return
  else
    match (c.cache s).cache.keys.find? fun key => removePinned || decide (key ∉ (c.cache s).pinnedItems) with
    | some key => set (c.pop key s)
    | none => throw (.runtimeError "All items are pinned, cannot remove oldest from the cache.")

def removeOldIfNeeded : ℕ → V1.Call σ Unit
  | 0 => return
  | fuel + 1 => do
    let s ← get
    if (c.cache s).capacity < c.len s then do
      c.removeOldest false
      removeOldIfNeeded fuel
    else return

def put (key : LoraId) (value : V) : V1.Call σ Unit := do
  modify fun s => c.setCache { c.cache s with cache := (c.cache s).cache.insert key value } s
  modify fun s => c.setCache ((c.cache s).touch key) s
  let s ← get
  c.removeOldIfNeeded (c.len s)

/-- `move_to_end` raises when there is no such key. -/
def touch (key : LoraId) : V1.Call σ Unit := do
  let s ← get
  if c.contains key s then set (c.setCache ((c.cache s).touch key) s)
  else throw .keyError

def item (key : LoraId) : V1.Call σ V := do
  let s ← get
  let value ← getItem .keyError ((c.cache s).cache.get? key)
  set (c.setCache ((c.cache s).touch key) s)
  return value

def get (key : LoraId) : V1.Call σ (Option V) := do
  let s ← MonadState.get
  let (value, cache) := (c.cache s).get key
  set (c.setCache cache s)
  return value

def pin (key : LoraId) : V1.Call σ Unit := do
  let s ← MonadState.get
  if c.contains key s then
    set (c.setCache { c.cache s with pinnedItems := (c.cache s).pinnedItems.insert key } s)
  else throw (.valueError s!"Cannot pin key: {key} not in cache.")

/-- The loop of `clear`: each round removes an entry, pinned or not. -/
def clearAll : ℕ → V1.Call σ Unit
  | 0 => return
  | fuel + 1 => do
    let s ← MonadState.get
    if 0 < c.len s then do
      c.removeOldest true
      clearAll fuel
    else return

def clear : V1.Call σ Unit := do
  let s ← MonadState.get
  c.clearAll (c.len s)
  modify fun s => c.setCache { c.cache s with cache := ∅ } s

end AdapterLRUCache

structure ManagerSetup where
  config : LoRAConfig
  /-- The names of `modules`. -/
  modules : List String
  /-- `scaling_factor_to_offset`, if there is a `long_lora_context`. -/
  scalingFactors : Option (List ℕ)

/-- The first module whose layer does not take a bias. -/
def ManagerSetup.refusesBias (setup : ManagerSetup) (lora : Checkpoint) : Option String :=
  setup.modules.find? fun name => (lora.loras.get? name).any (·.bias) && !setup.config.biasEnabled

structure LoRAModelManager extends ManagerSetup where
  registeredAdapters : LRUCache LoraId LoRAModel
  activeAdapters : LRUCache LoraId Unit
  loraIndexToId : List (Option LoraId)

namespace LoRAModelManager

def create (setup : ManagerSetup) : LoRAModelManager where
  toManagerSetup := setup
  registeredAdapters := { capacity := setup.config.maxCpuLoras }
  activeAdapters := { capacity := setup.config.maxLoras }
  loraIndexToId := List.replicate setup.config.maxLoras none

def loraSlots (m : LoRAModelManager) : ℕ := m.config.maxLoras

def capacity (m : LoRAModelManager) : ℕ := m.config.maxCpuLoras

def deactivateSlot (loraId : LoraId) (m : LoRAModelManager) : LoRAModelManager :=
  match m.loraIndexToId.idxOf? (some loraId) with
  | some index => { m with loraIndexToId := m.loraIndexToId.set index none }
  | none => m

def active : AdapterLRUCache LoRAModelManager Unit where
  cache := activeAdapters
  setCache := fun cache m => { m with activeAdapters := cache }
  deactivateFn := deactivateSlot

def deactivateAdapter (adapterId : LoraId) (m : LoRAModelManager) : Bool × LoRAModelManager :=
  if active.contains adapterId m then (true, active.pop adapterId (m.deactivateSlot adapterId))
  else (false, m)

def registered : AdapterLRUCache LoRAModelManager LoRAModel where
  cache := registeredAdapters
  setCache := fun cache m => { m with registeredAdapters := cache }
  deactivateFn := fun adapterId m => (m.deactivateAdapter adapterId).2

/-- The layers take the weights, until one refuses them: the bias is dropped before it does. -/
def setLoras (loraModel : LoRAModel) : V1.Call LoRAModelManager Unit := do
  let m ← get
  match m.refusesBias loraModel.toCheckpoint with
  | none => return
  | some name => do
    let dropped := { loraModel with loras := loraModel.loras.insert name { bias := false } }
    set { m with
      registeredAdapters := { m.registeredAdapters with
        cache := m.registeredAdapters.cache.insert dropped.id dropped } }
    throw (.valueError s!"Adapter bias cannot be used for {name} without --enable-lora-bias.")

def activateInSlot (loraId : LoraId) : V1.Call LoRAModelManager Bool := do
  let m ← get
  if active.contains loraId m then return false
  else
    match m.loraIndexToId.idxOf? none with
    | none => throw (.valueError "No free lora slots")
    | some index => do
      active.put loraId ()
      let loraModel ← registered.item loraId
      modify fun m => { m with loraIndexToId := m.loraIndexToId.set index (some loraModel.id) }
      setLoras loraModel
      return true

/-- An adapter that is to become active takes the place of the oldest one. -/
def makeRoom (loraId : LoraId) : V1.Call LoRAModelManager Unit := do
  let m ← get
  if active.contains loraId m = false ∧ m.loraSlots ≤ active.len m then active.removeOldest false
  else return

def activateAdapter (loraId : LoraId) : V1.Call LoRAModelManager Bool := do
  makeRoom loraId
  let result ← activateInSlot loraId
  active.touch loraId
  return result

def setLongLoraContext (lora : LoRAModel) : V1.Call LoRAModelManager Unit := do
  let m ← get
  match m.scalingFactors, lora.scalingFactor with
  | some known, some factor =>
    if factor ∈ known then return
    else throw (.valueError s!"Long LoRA scaling factor {factor}.0 has not been initialized.")
  | _, _ => return

/-- `LRUCacheLoRAModelManager.add_adapter` -/
def addAdapter (lora : LoRAModel) : V1.Call LoRAModelManager Bool := do
  let m ← get
  if registered.contains lora.id m then do
    registered.touch lora.id
    return false
  else do
    registered.put lora.id lora
    setLongLoraContext lora
    return true

def removeOldestAdapter : V1.Call LoRAModelManager Bool := do
  let m ← get
  if 0 < registered.len m then do
    registered.removeOldest false
    return true
  else return false

def pinLoraInCpuCache (loraId : LoraId) : V1.Call LoRAModelManager Unit := do
  let m ← get
  if registered.contains loraId m then registered.pin loraId
  else throw (.valueError s!"Pinning failed. LoRA {loraId} is not registered.")

def pinLoraInGpuCache (loraId : LoraId) : V1.Call LoRAModelManager Unit := do
  let m ← get
  if active.contains loraId m then active.pin loraId
  else do
    let _ ← activateAdapter loraId
    active.pin loraId

def pinAdapter (loraId : LoraId) : V1.Call LoRAModelManager Bool := do
  pinLoraInCpuCache loraId
  pinLoraInGpuCache loraId
  return true

def removeAdapter (adapterId : LoraId) : V1.Call LoRAModelManager Bool := do
  modify fun m => (m.deactivateAdapter adapterId).2
  let m ← get
  set (registered.pop adapterId m)
  return registered.contains adapterId m

def removeAllAdapters : V1.Call LoRAModelManager Unit := do
  registered.clear
  modify fun m => { m with loraIndexToId := List.replicate m.loraSlots none }
  active.clear

end LoRAModelManager

namespace LRUCacheWorkerLoRAManager

section
-- what is at each path at the time of the call
variable (checkpoint : String → Checkpoint)

def loadAdapter (loraRequest : LoRARequest) : LoRAModel :=
  { checkpoint loraRequest.loraPath with id := loraRequest.loraIntId }

/-- The oldest adapter leaves when there are too many. -/
def evictIfFull : V1.Call LoRAModelManager Unit := do
  let m ← get
  if m.capacity < LoRAModelManager.registered.len m + 1 then do
    let _ ← LoRAModelManager.removeOldestAdapter
    return
  else return

/-- The first half of `add_adapter`: an adapter that is loaded already is only touched. -/
def register (loraRequest : LoRARequest) : V1.Call LoRAModelManager Bool := do
  let m ← get
  if LoRAModelManager.registered.contains loraRequest.loraIntId m then do
    let lora ← LoRAModelManager.registered.get loraRequest.loraIntId
    return lora.isSome
  else do
    let lora := loadAdapter checkpoint loraRequest
    evictIfFull
    LoRAModelManager.addAdapter lora

def addAdapter (loraRequest : LoRARequest) : V1.Call LoRAModelManager Bool := do
  let loaded ← register checkpoint loraRequest
  let _ ← LoRAModelManager.activateAdapter loraRequest.loraIntId
  return loaded

def lorasMap (loraRequests : List LoRARequest) : Dict LoraId LoRARequest :=
  loraRequests.foldl (fun map loraRequest => map.insert loraRequest.loraIntId loraRequest) ∅

def addAdapters : List LoRARequest → V1.Call LoRAModelManager Unit
  | [] => return
  | loraRequest :: rest => do
    let _ ← addAdapter checkpoint loraRequest
    addAdapters rest

/-- `_apply_adapters`: the requests of the set, in the order the set gives them. -/
def applyAdapters (loraRequests : List LoRARequest) : V1.Call LoRAModelManager Unit := do
  let m ← get
  let numLoras := (lorasMap loraRequests).size
  let numSlots := m.loraSlots
  if numSlots < numLoras then
    throw (.runtimeError
      s!"Number of requested LoRAs ({numLoras}) is greater than the number of GPU LoRA slots ({numSlots}).")
  else addAdapters checkpoint (lorasMap loraRequests).values

def setActiveAdapters (loraRequests : List LoRARequest) : V1.Call LoRAModelManager Unit :=
  applyAdapters checkpoint loraRequests

end

inductive AdapterCall where
  | addAdapter (checkpoint : String → Checkpoint) (loraRequest : LoRARequest)
  | setActiveAdapters (checkpoint : String → Checkpoint) (loraRequests : List LoRARequest)
  | removeAdapter (adapterId : LoraId)
  | pinAdapter (adapterId : LoraId)
  | removeAllAdapters

/-- What an operation leaves behind, returned from or not. -/
def step (m : LoRAModelManager) : AdapterCall → LoRAModelManager
  | .addAdapter checkpoint loraRequest => after (addAdapter checkpoint loraRequest) m
  | .setActiveAdapters checkpoint loraRequests => after (setActiveAdapters checkpoint loraRequests) m
  | .removeAdapter adapterId => after (LoRAModelManager.removeAdapter adapterId) m
  | .pinAdapter adapterId => after (LoRAModelManager.pinAdapter adapterId) m
  | .removeAllAdapters => after LoRAModelManager.removeAllAdapters m

end LRUCacheWorkerLoRAManager
end Vllm.Lora
