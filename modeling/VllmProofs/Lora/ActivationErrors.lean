import VllmProofs.Lora.ActiveAdapters

/-!
What `activate_adapter` leaves when it raises an error. The adapter counts as active before it is looked up and
before the layers take its weights.
-/

namespace Vllm.Lora
open Exec V1

/-! ### Without a cache -/

/-- `LoRAModelManager`, with plain dictionaries. -/
structure DictLoRAModelManager extends ManagerSetup where
  registeredAdapters : Dict LoraId LoRAModel := ∅
  activeAdapters : Dict LoraId Unit := ∅
  loraIndexToId : List (Option LoraId)

namespace DictLoRAModelManager

variable {m : DictLoRAModelManager} {id : LoraId}

/-- The layers take the weights, until one refuses them: the bias is dropped before it does. -/
def setLoras (loraModel : LoRAModel) : V1.Call DictLoRAModelManager Unit := do
  let m ← get
  match m.refusesBias loraModel.toCheckpoint with
  | none => return
  | some name => do
    let dropped := { loraModel with loras := loraModel.loras.insert name { bias := false } }
    set { m with registeredAdapters := m.registeredAdapters.insert dropped.id dropped }
    throw (.valueError s!"Adapter bias cannot be used for {name} without --enable-lora-bias.")

def activateAdapter (loraId : LoraId) : V1.Call DictLoRAModelManager Bool := do
  let m ← get
  if m.activeAdapters.contains loraId then return false
  else
    match m.loraIndexToId.idxOf? none with
    | none => throw (.valueError "No free lora slots")
    | some index => do
      set { m with activeAdapters := m.activeAdapters.insert loraId () }
      let loraModel ← getItem .keyError (m.registeredAdapters.get? loraId)
      modify fun m => { m with loraIndexToId := m.loraIndexToId.set index (some loraModel.id) }
      setLoras loraModel
      return true

/-- The slots are those of the active adapters. -/
def Corresponds (m : DictLoRAModelManager) : Prop := m.loraIndexToId.reduceOption.Perm m.activeAdapters.keys

/-- After an error the adapter is neither active nor in a slot. -/
def FailsCleanly (m : DictLoRAModelManager) (id : LoraId) : Prop :=
  ∀ e t, activateAdapter id m = .error e t → id ∉ t.activeAdapters.keys ∧ some id ∉ t.loraIndexToId ∧ t.Corresponds

/-- The adapter is registered, and its weights are taken. -/
def Accepted (m : DictLoRAModelManager) (id : LoraId) : Prop :=
  ∃ lora, m.registeredAdapters.get? id = some lora ∧ m.refusesBias lora.toCheckpoint = none

theorem activateAdapter_active (active : id ∈ m.activeAdapters.keys) : activateAdapter id m = .ok false m := by
  unfold activateAdapter
  rw [get_bind, if_pos (Dict.contains_iff_mem_keys.mpr active)]
  rfl

theorem activateAdapter_full (fresh : id ∉ m.activeAdapters.keys) (full : none ∉ m.loraIndexToId) :
    activateAdapter id m = .error (.valueError "No free lora slots") m := by
  unfold activateAdapter
  rw [get_bind, if_neg fun active => fresh (Dict.contains_iff_mem_keys.mp active), List.idxOf?_eq_none_iff.mpr full]
  rfl

theorem activateAdapter_free (fresh : id ∉ m.activeAdapters.keys) (free : none ∈ m.loraIndexToId) :
    (m.Accepted id → ∃ t, activateAdapter id m = .ok true t) ∧
      (¬m.Accepted id → ∃ e t, activateAdapter id m = .error e t ∧ id ∈ t.activeAdapters.keys) := by
  have inserted : id ∈ (m.activeAdapters.insert id ()).keys := Dict.mem_keys_iff.mpr ⟨(), Dict.get?_insert_self _ _ _⟩
  unfold activateAdapter
  rw [get_bind, if_neg fun active => fresh (Dict.contains_iff_mem_keys.mp active)]
  cases slot : m.loraIndexToId.idxOf? none with
  | none => exact absurd free (List.idxOf?_eq_none_iff.mp slot)
  | some index =>
    dsimp only
    rw [set_bind]
    unfold Accepted
    cases found : m.registeredAdapters.get? id with
    | none =>
      exact ⟨fun ⟨_, known, _⟩ => (nomatch known), fun _ => ⟨_, _, rfl, inserted⟩⟩
    | some lora =>
      unfold setLoras getItem
      rw [pure_bind, modify_bind]
      simp only [bind_assoc]
      rw [get_bind]
      dsimp only
      cases refused : m.refusesBias lora.toCheckpoint with
      | none =>
        constructor
        · exact fun _ => ⟨_, rfl⟩
        · exact fun unaccepted => absurd ⟨lora, rfl, refused⟩ unaccepted
      | some name =>
        constructor
        · rintro ⟨_, ⟨⟩, accepted⟩
          rw [refused] at accepted
          cases accepted
        · exact fun _ => ⟨_, _, rfl, inserted⟩

theorem failsCleanly_iff (corresponds : m.Corresponds) :
    m.FailsCleanly id ↔ id ∈ m.activeAdapters.keys ∨ none ∉ m.loraIndexToId ∨ m.Accepted id := by
  by_cases active : id ∈ m.activeAdapters.keys
  · refine iff_of_true (fun e t call => ?_) (Or.inl active)
    rw [activateAdapter_active active] at call
    cases call
  by_cases free : none ∈ m.loraIndexToId
  · obtain ⟨accepts, refuses⟩ := activateAdapter_free active free
    constructor
    · intro cleanly
      by_contra none
      push Not at none
      obtain ⟨e, t, call, member⟩ := refuses none.2.2
      exact (cleanly e t call).1 member
    · rintro (active' | full | accepted)
      · exact absurd active' active
      · exact absurd free full
      · intro e t call
        obtain ⟨u, returns⟩ := accepts accepted
        rw [returns] at call
        cases call
  · refine iff_of_true (fun e t call => ?_) (Or.inr (Or.inl free))
    rw [activateAdapter_full active free] at call
    cases call
    refine ⟨active, fun slot => active ?_, corresponds⟩
    exact corresponds.subset (List.reduceOption_mem_iff.mpr slot)

end DictLoRAModelManager

/-! ### With caches -/

namespace AdapterLRUCache

variable {σ V : Type} (c : AdapterLRUCache σ V) {s : σ} {key : LoraId} {value : V}

theorem item_absent (absent : (c.cache s).cache.get? key = none) : c.item key s = .error .keyError s := by
  unfold item
  rw [get_bind, absent]
  rfl

theorem item_present (found : (c.cache s).cache.get? key = some value) :
    c.item key s = .ok value (c.setCache ((c.cache s).touch key) s) := by
  unfold item
  rw [get_bind, found]
  rfl

end AdapterLRUCache

namespace LoRAModelManager

variable {m : LoRAModelManager} {made : ManagerSetup} {loads : Prop} {id : LoraId}

/-- The slots are those of the active adapters. -/
def Corresponds (m : LoRAModelManager) : Prop := m.loraIndexToId.reduceOption.Perm m.activeAdapters.cache.keys

/-- After an error the adapter is neither active nor in a slot. -/
def FailsCleanly (m : LoRAModelManager) (id : LoraId) : Prop :=
  ∀ e t, activateAdapter id m = .error e t → id ∉ t.activeAdapters.cache.keys ∧ some id ∉ t.loraIndexToId ∧ t.Corresponds

/-- The adapter is registered, and its weights are taken. -/
def Accepted (m : LoRAModelManager) (id : LoraId) : Prop :=
  ∃ lora, m.registeredAdapters.cache.get? id = some lora ∧ m.refusesBias lora.toCheckpoint = none

/-- Every slot is taken, and by a pinned adapter. -/
def AllPinned (m : LoRAModelManager) : Prop :=
  m.config.maxLoras ≤ m.activeAdapters.cache.keys.length ∧
    ∀ key ∈ m.activeAdapters.cache.keys, key ∈ m.activeAdapters.pinnedItems

theorem removeOldest_pinned (pinned : m.AllPinned) : active.removeOldest false m =
    .error (.runtimeError "All items are pinned, cannot remove oldest from the cache.") m := by
  have some_ : active.len m ≠ 0 := by
    have positive := m.config.one_le_maxLoras
    have full := pinned.1
    rw [AdapterLRUCache.len_eq]
    show m.activeAdapters.cache.keys.length ≠ 0
    omega
  have all : (active.cache m).cache.keys.find? (fun key => false || decide (key ∉ (active.cache m).pinnedItems)) = none := by
    rw [List.find?_eq_none]
    intro key member
    rw [Bool.false_or, decide_eq_true_eq, not_not]
    exact pinned.2 key member
  unfold AdapterLRUCache.removeOldest
  rw [get_bind, if_neg some_, all]
  rfl

theorem removeOldest_unpinned {key : LoraId} (active_ : key ∈ m.activeAdapters.cache.keys)
    (unpinned : key ∉ m.activeAdapters.pinnedItems) :
    ∃ key ∈ m.activeAdapters.cache.keys, active.removeOldest false m = .ok () (active.pop key m) := by
  have some_ : active.len m ≠ 0 := by
    rw [AdapterLRUCache.len_eq]
    exact List.length_pos_of_mem active_ |>.ne'
  cases found : (active.cache m).cache.keys.find? (fun key => false || decide (key ∉ (active.cache m).pinnedItems)) with
  | none =>
    have pinned := List.find?_eq_none.mp found key active_
    rw [Bool.false_or, decide_eq_true_eq] at pinned
    exact absurd unpinned pinned
  | some oldest =>
    refine ⟨oldest, List.mem_of_find?_eq_some found, ?_⟩
    unfold AdapterLRUCache.removeOldest
    rw [get_bind, if_neg some_, found]
    rfl

/-- Unless everything is pinned there is room, and another adapter may be active no more. -/
theorem makeRoom_returns (consistent : m.Consistent made loads) (fresh : id ∉ m.activeAdapters.cache.keys)
    (unpinned : ¬m.AllPinned) : ∃ u, makeRoom id m = .ok () u ∧ u.Consistent made loads ∧
      u.toManagerSetup = m.toManagerSetup ∧ u.registeredAdapters = m.registeredAdapters ∧
      id ∉ u.activeAdapters.cache.keys ∧ u.activeAdapters.cache.keys.length < u.config.maxLoras := by
  have outside : active.contains id m = false := AdapterLRUCache.not_contains_iff.mpr fresh
  unfold makeRoom
  rw [get_bind]
  by_cases full : m.config.maxLoras ≤ m.activeAdapters.cache.keys.length
  · have some_ : ∃ key ∈ m.activeAdapters.cache.keys, key ∉ m.activeAdapters.pinnedItems := by
      by_contra none
      push Not at none
      exact unpinned ⟨full, none⟩
    obtain ⟨key, member, free⟩ := some_
    obtain ⟨oldest, there, removed⟩ := removeOldest_unpinned member free
    have deactivated := deactivated_pop there
    refine ⟨_, ?_, consistent.active_pop there, deactivated.setup, deactivated.registered, ?_, ?_⟩
    · rw [if_pos ⟨outside, by rw [AdapterLRUCache.len_eq]; exact full⟩]
      exact removed
    · rw [deactivated.keys]
      exact fun member => fresh (List.mem_of_mem_erase member)
    · have config : (active.pop oldest m).config = m.config := congrArg ManagerSetup.config deactivated.setup
      rw [deactivated.keys, List.length_erase_of_mem there, config]
      have within := consistent.activeWithin
      have positive := List.length_pos_of_mem there
      omega
  · refine ⟨m, ?_, consistent, rfl, rfl, fresh, Nat.lt_of_not_le full⟩
    rw [if_neg]
    · rfl
    · rintro ⟨-, many⟩
      rw [AdapterLRUCache.len_eq] at many
      exact full many

theorem activateAdapter_active (active_ : id ∈ m.activeAdapters.cache.keys) : ∃ t, activateAdapter id m = .ok false t := by
  have inside : active.contains id m = true := AdapterLRUCache.contains_iff.mpr active_
  have room : makeRoom id m = .ok () m := by
    unfold makeRoom
    rw [get_bind, if_neg fun full => Bool.false_ne_true (full.1.symm.trans inside)]
    rfl
  have early : activateInSlot id m = .ok false m := by
    unfold activateInSlot
    rw [get_bind, if_pos inside]
    rfl
  unfold activateAdapter AdapterLRUCache.touch
  rw [bind_of_ok room, bind_of_ok early]
  simp only [bind_assoc]
  rw [get_bind, if_pos inside]
  exact ⟨_, rfl⟩

theorem activateAdapter_pinned (fresh : id ∉ m.activeAdapters.cache.keys) (pinned : m.AllPinned) :
    activateAdapter id m = .error (.runtimeError "All items are pinned, cannot remove oldest from the cache.") m := by
  unfold activateAdapter makeRoom
  rw [bind_of_error]
  rw [get_bind, if_pos]
  · exact removeOldest_pinned pinned
  · rw [AdapterLRUCache.len_eq, AdapterLRUCache.not_contains_iff]
    exact ⟨fresh, pinned.1⟩

theorem setLoras_accepted {lora : LoRAModel} (accepted : m.refusesBias lora.toCheckpoint = none) :
    setLoras lora m = .ok () m := by
  unfold setLoras
  rw [get_bind, accepted]
  rfl

theorem setLoras_refused {lora : LoRAModel} (refused : m.refusesBias lora.toCheckpoint ≠ none) :
    ∃ e t, setLoras lora m = .error e t ∧ t.activeAdapters = m.activeAdapters := by
  obtain ⟨name, refuses⟩ := Option.ne_none_iff_exists'.mp refused
  unfold setLoras
  rw [get_bind, refuses]
  exact ⟨_, _, rfl, rfl⟩

/-- With room, the adapter is active from here on. -/
theorem activateInSlot_room (consistent : m.Consistent made loads) (fresh : id ∉ m.activeAdapters.cache.keys)
    (room : m.activeAdapters.cache.keys.length < m.config.maxLoras) :
    (m.Accepted id → ∃ t, activateInSlot id m = .ok true t ∧ id ∈ t.activeAdapters.cache.keys) ∧
      (¬m.Accepted id → ∃ e t, activateInSlot id m = .error e t ∧ id ∈ t.activeAdapters.cache.keys) := by
  have put : ∃ u, active.put id () m = .ok () u ∧ id ∈ u.activeAdapters.cache.keys ∧
      u.registeredAdapters = m.registeredAdapters ∧ u.toManagerSetup = m.toManagerSetup := by
    refine ⟨_, AdapterLRUCache.put_within (fun _ _ => rfl) ?_, ?_, rfl, rfl⟩
    · show (m.activeAdapters.cache.keys.erase id).length < m.activeAdapters.capacity
      rw [List.erase_of_not_mem fresh, consistent.activeCapacity]
      exact room
    · show id ∈ (LRUCache.touch _ id).cache.keys
      rw [keys_put]
      exact List.mem_append_right _ List.mem_cons_self
  obtain ⟨u, put, inserted, registered_, setup⟩ := put
  unfold activateInSlot
  rw [get_bind, if_neg fun inside => fresh (AdapterLRUCache.contains_iff.mp inside)]
  cases slot : m.loraIndexToId.idxOf? none with
  | none => exact absurd slot (consistent.freeSlot room)
  | some index =>
    dsimp only
    rw [bind_of_ok put]
    unfold Accepted
    rw [← registered_, ← setup]
    cases found : u.registeredAdapters.cache.get? id with
    | none =>
      rw [bind_of_error (registered.item_absent found)]
      exact ⟨fun ⟨_, known, _⟩ => (nomatch known), fun _ => ⟨_, _, rfl, inserted⟩⟩
    | some lora =>
      rw [bind_of_ok (registered.item_present found), modify_bind]
      constructor
      · rintro ⟨_, ⟨⟩, accepted⟩
        refine ⟨_, (bind_of_ok (setLoras_accepted ?_)).trans rfl, inserted⟩
        exact accepted
      · intro unaccepted
        have refused : u.refusesBias lora.toCheckpoint ≠ none := fun accepted => unaccepted ⟨lora, rfl, accepted⟩
        obtain ⟨e, t, raised, same⟩ := setLoras_refused (m := { u with
          registeredAdapters := u.registeredAdapters.touch id
          loraIndexToId := u.loraIndexToId.set index (some lora.id) }) refused
        exact ⟨e, t, bind_of_error raised, same ▸ inserted⟩

theorem failsCleanly_iff (consistent : m.Consistent made loads) :
    m.FailsCleanly id ↔ id ∈ m.activeAdapters.cache.keys ∨ m.AllPinned ∨ m.Accepted id := by
  by_cases active_ : id ∈ m.activeAdapters.cache.keys
  · refine iff_of_true (fun e t call => ?_) (Or.inl active_)
    obtain ⟨u, returns⟩ := activateAdapter_active active_
    rw [returns] at call
    cases call
  by_cases pinned : m.AllPinned
  · refine iff_of_true (fun e t call => ?_) (Or.inr (Or.inl pinned))
    rw [activateAdapter_pinned active_ pinned] at call
    cases call
    refine ⟨active_, fun slot => active_ ?_, consistent.slots⟩
    exact consistent.slots.subset (List.reduceOption_mem_iff.mpr slot)
  obtain ⟨u, room, consistent', setup, registered_, fresh, short⟩ := makeRoom_returns consistent active_ pinned
  obtain ⟨accepts, refuses⟩ := activateInSlot_room consistent' fresh short
  have same : u.Accepted id ↔ m.Accepted id := by
    unfold Accepted
    rw [setup, registered_]
  rw [same] at accepts refuses
  constructor
  · intro cleanly
    by_contra none
    push Not at none
    obtain ⟨e, t, raised, member⟩ := refuses none.2.2
    refine (cleanly e t ?_).1 member
    unfold activateAdapter
    rw [bind_of_ok room, bind_of_error raised]
  · rintro (active' | pinned' | accepted)
    · exact absurd active' active_
    · exact absurd pinned' pinned
    · intro e t call
      obtain ⟨v, returns, member⟩ := accepts accepted
      unfold activateAdapter AdapterLRUCache.touch at call
      rw [bind_of_ok room, bind_of_ok returns] at call
      simp only [bind_assoc] at call
      rw [get_bind, if_pos (AdapterLRUCache.contains_iff.mpr member)] at call
      cases call

end LoRAModelManager

/-- An activation that raises an error leaves the adapter inactive exactly if it is active before, no slot can be had
for it, or it is registered and its weights are taken. -/
theorem activateAdapter_failsCleanly_iff (m : DictLoRAModelManager) (m' : LoRAModelManager) (id : LoraId)
    (corresponds : m.Corresponds) (consistent : m'.Consistent m'.toManagerSetup False) :
    (m.FailsCleanly id ↔ id ∈ m.activeAdapters.keys ∨ none ∉ m.loraIndexToId ∨ m.Accepted id) ∧
      (m'.FailsCleanly id ↔ id ∈ m'.activeAdapters.cache.keys ∨ m'.AllPinned ∨ m'.Accepted id) :=
  ⟨DictLoRAModelManager.failsCleanly_iff corresponds, LoRAModelManager.failsCleanly_iff consistent⟩

def exampleSetup : ManagerSetup where
  config := ⟨1, 1, false, le_rfl, le_rfl⟩
  modules := ["q_proj"]
  scalingFactors := none

def exampleDictManager : DictLoRAModelManager where
  toManagerSetup := exampleSetup
  loraIndexToId := [none]

/-- An adapter with weights for the module, perhaps with a bias. -/
def exampleAdapter (id : LoraId) (bias : Bool) : LoRAModel where
  id
  scalingFactor := none
  loras := (∅ : Dict String LoRALayerWeights).insert "q_proj" { bias }

def registeredDictManager : DictLoRAModelManager :=
  { exampleDictManager with registeredAdapters := (∅ : Dict LoraId LoRAModel).insert 8 (exampleAdapter 8 false) }

def registeredManager : LoRAModelManager :=
  { LoRAModelManager.create exampleSetup with
    registeredAdapters := { capacity := 1, cache := (∅ : Dict LoraId LoRAModel).insert 8 (exampleAdapter 8 false) } }

theorem registeredManager_consistent : registeredManager.Consistent exampleSetup False where
  made := rfl
  registeredCapacity := rfl
  activeCapacity := rfl
  length_slots := rfl
  slots := List.Perm.refl _
  activeRegistered := nofun
  registeredWithin := le_rfl
  ids id lora found := by
    obtain ⟨rfl, rfl⟩ : id = 8 ∧ lora = exampleAdapter 8 false := by
      simpa using List.mem_singleton.mp (Dict.mem_items_iff.mpr found)
    rfl
  accepts := nofun

/-- With adapter 8 registered, activating it fails in no way, while activating 7 leaves it active. -/
theorem activateAdapter_failsCleanly_registered :
    (¬registeredDictManager.FailsCleanly 7 ∧ registeredDictManager.FailsCleanly 8) ∧
      ¬registeredManager.FailsCleanly 7 ∧ registeredManager.FailsCleanly 8 := by
  have each (id : LoraId) := activateAdapter_failsCleanly_iff registeredDictManager registeredManager id
    (List.Perm.refl _) registeredManager_consistent
  refine ⟨⟨?_, ?_⟩, ?_, ?_⟩
  · rw [(each 7).1]
    rintro (active | full | ⟨lora, known, -⟩)
    · exact absurd active (by decide)
    · exact absurd full (by decide)
    · cases known
  · exact (each 8).1.mpr (.inr (.inr ⟨exampleAdapter 8 false, rfl, by decide⟩))
  · rw [(each 7).2]
    rintro (active | ⟨full, -⟩ | ⟨lora, known, -⟩)
    · exact absurd active (by decide)
    · exact absurd full (by decide)
    · cases known
  · exact (each 8).2.mpr (.inr (.inr ⟨exampleAdapter 8 false, rfl, by decide⟩))

/-- An adapter that is not registered is active after the error, and one with a bias has a slot as well; the next call
finds nothing to do. -/
theorem activateAdapter_leaves_active :
    (∃ t, exampleDictManager.activateAdapter 7 = .error .keyError t ∧ 7 ∈ t.activeAdapters.keys ∧
      t.loraIndexToId = [none] ∧ t.activateAdapter 7 = .ok false t) ∧
    (∃ t, (LoRAModelManager.create exampleSetup).activateAdapter 7 = .error .keyError t ∧
      7 ∈ t.activeAdapters.cache.keys ∧ t.loraIndexToId = [none] ∧ ∃ u, t.activateAdapter 7 = .ok false u) ∧
    (∃ e t, { exampleDictManager with registeredAdapters := (∅ : Dict LoraId LoRAModel).insert 7 (exampleAdapter 7 true) }.activateAdapter 7 =
      .error e t ∧ 7 ∈ t.activeAdapters.keys ∧ t.loraIndexToId = [some 7] ∧ t.activateAdapter 7 = .ok false t) :=
  ⟨⟨_, rfl, by decide, rfl, rfl⟩, ⟨_, rfl, by decide, rfl, _, rfl⟩, ⟨_, _, rfl, by decide, rfl, rfl⟩⟩

end Vllm.Lora
