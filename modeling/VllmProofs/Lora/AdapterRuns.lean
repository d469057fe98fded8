import VllmProofs.Lora.ActiveAdapters

/-!
What the worker's operations keep: a slot for each active adapter, which is registered, and room for a batch.
-/

namespace Vllm.Lora
open Exec V1

section
variable {made : ManagerSetup} {loads : Prop}

namespace LoRAModelManager

variable {m t : LoRAModelManager} {id : LoraId} {reg act : List LoraId}

/-! ### One adapter is registered -/

theorem removeOldestAdapter_wp (consistent : m.Consistent made loads) (some_ : 0 < m.registeredAdapters.cache.keys.length) :
    wp removeOldestAdapter
      (fun _ t => t.Consistent made loads ∧ t.toManagerSetup = m.toManagerSetup ∧
        (∃ key ∈ m.registeredAdapters.cache.keys,
          t.registeredAdapters.cache.keys = m.registeredAdapters.cache.keys.erase key) ∧
        ∀ batch, Settled batch batch m → batch.length < m.registeredAdapters.cache.keys.length → Settled batch batch t)
      (fun _ t => t.Consistent made loads ∧ ¬m.Unpinned) m := by
  unfold removeOldestAdapter
  have nonempty : 0 < registered.len m := by
    rw [AdapterLRUCache.len_eq]
    exact some_
  rw [wp_bind, wp_get, if_pos nonempty, wp_bind]
  refine (AdapterLRUCache.removeOldest_wp false).mono ?_ ?_
  · rintro - t (⟨empty, -⟩ | ⟨key, there, rfl, oldest⟩)
    · omega
    · have deactivated := consistent.deactivated_registered_pop key
      refine ⟨consistent.registered_pop key, deactivated.setup, ⟨key, there, ?_⟩, fun batch settled few => ?_⟩
      · rw [deactivated.registered]
        exact keys_pop
      · obtain ⟨apart, recent⟩ := recent_oldest m.registeredAdapters.cache.nodup_keys settled.registered few
          (oldest settled.unpinned.1)
        exact (settled.pop recent).deactivated deactivated apart
  · rintro - t ⟨rfl, -, pinned⟩
    exact ⟨consistent, fun unpinned => pinned unpinned.1⟩

def withRegistered (m : LoRAModelManager) (lora : LoRAModel) : LoRAModelManager :=
  { m with registeredAdapters :=
      ({ m.registeredAdapters with cache := m.registeredAdapters.cache.insert lora.id lora } :
        LRUCache LoraId LoRAModel).touch lora.id }

variable {lora : LoRAModel}

theorem keys_withRegistered (fresh : lora.id ∉ m.registeredAdapters.cache.keys) :
    (m.withRegistered lora).registeredAdapters.cache.keys = m.registeredAdapters.cache.keys ++ [lora.id] := by
  refine keys_put.trans ?_
  rw [List.erase_of_not_mem fresh]

theorem get?_withRegistered {other : LoRAModel}
    (found : (m.withRegistered lora).registeredAdapters.cache.get? id = some other) :
    id = lora.id ∧ other = lora ∨ m.registeredAdapters.cache.get? id = some other := by
  have inserted : (m.registeredAdapters.cache.insert lora.id lora).get? id = some other :=
    LRUCache.get?_touch.symm.trans found
  rw [Dict.get?_insert] at inserted
  split at inserted
  · rename_i mine
    cases inserted
    exact .inl ⟨mine, rfl⟩
  · exact .inr inserted

theorem Consistent.withRegistered (consistent : m.Consistent made loads)
    (fresh : lora.id ∉ m.registeredAdapters.cache.keys) (accepts : loads → m.Accepts lora.toCheckpoint)
    (room : m.registeredAdapters.cache.keys.length < m.config.maxCpuLoras) : (m.withRegistered lora).Consistent made loads := by
  have keys := keys_withRegistered fresh
  refine ⟨consistent.made, capacity_touch.trans consistent.registeredCapacity, consistent.activeCapacity, consistent.length_slots,
    consistent.slots, fun k member => ?_, ?_, fun k other found => ?_, fun all k other found => ?_⟩
  · rw [keys]
    exact List.mem_append_left _ (consistent.activeRegistered member)
  · rw [keys, List.length_append]
    exact room
  · rcases get?_withRegistered found with ⟨rfl, rfl⟩ | before
    · rfl
    · exact consistent.ids k other before
  · rcases get?_withRegistered found with ⟨-, rfl⟩ | before
    · exact accepts all
    · exact consistent.accepts all k other before

theorem Settled.withRegistered (settled : Settled reg act m)
    (fresh : lora.id ∉ m.registeredAdapters.cache.keys) :
    Settled (reg ++ [lora.id]) act (m.withRegistered lora) := by
  refine ⟨⟨LRUCache.touch_pinnedItems.trans settled.unpinned.1, settled.unpinned.2⟩, ?_, settled.active⟩
  rw [keys_withRegistered fresh]
  obtain ⟨old, same⟩ := settled.registered
  rw [← same, List.append_assoc]
  exact List.suffix_append _ _

theorem setLongLoraContext_wp : wp (setLongLoraContext lora)
    (fun _ t => t = m) (fun _ t => t = m ∧ ¬m.Accepts lora.toCheckpoint) m := by
  unfold setLongLoraContext
  rw [wp_bind, wp_get]
  split
  · rename_i known factor given scaled
    rw [wp_ite]
    exact ⟨fun _ => rfl, fun unknown => ⟨rfl, fun accepts => unknown (accepts.2 known factor given scaled)⟩⟩
  · rfl

theorem addAdapter_wp (consistent : m.Consistent made loads) (fresh : lora.id ∉ m.registeredAdapters.cache.keys)
    (accepts : loads → m.Accepts lora.toCheckpoint)
    (room : m.registeredAdapters.cache.keys.length < m.config.maxCpuLoras) : wp (addAdapter lora)
    (fun _ t => t = m.withRegistered lora) (fun _ t => t.Consistent made loads ∧ ¬loads) m := by
  unfold addAdapter
  rw [wp_bind, wp_get, if_neg (by rw [AdapterLRUCache.contains_iff]; exact fresh)]
  have put := @AdapterLRUCache.put_within _ _ registered m lora.id lora (fun _ _ => rfl) (by
    show (m.registeredAdapters.cache.keys.erase lora.id).length < m.registeredAdapters.capacity
    rw [List.erase_of_not_mem fresh, consistent.registeredCapacity]
    exact room)
  rw [wp_bind, wp_of_ok put]
  show wp (setLongLoraContext lora >>= fun _ => pure true) _ _ (m.withRegistered lora)
  rw [wp_bind]
  refine setLongLoraContext_wp.mono ?_ ?_
  · rintro - t rfl
    rfl
  · rintro - t ⟨rfl, refused⟩
    exact ⟨consistent.withRegistered fresh accepts room, fun all => refused (accepts all)⟩

end LoRAModelManager

namespace LRUCacheWorkerLoRAManager
open LoRAModelManager

variable {checkpoint : String → Checkpoint} {loraRequest : LoRARequest} {m : LoRAModelManager}

theorem evictIfFull_wp (consistent : m.Consistent made loads) : wp evictIfFull
    (fun _ t => t.Consistent made loads ∧ t.toManagerSetup = m.toManagerSetup ∧
      t.registeredAdapters.cache.keys ⊆ m.registeredAdapters.cache.keys ∧
        t.registeredAdapters.cache.keys.length < m.config.maxCpuLoras ∧
          ∀ batch, Settled batch batch m → batch.length < m.config.maxCpuLoras → Settled batch batch t)
    (fun _ t => t.Consistent made loads ∧ ¬m.Unpinned) m := by
  have positive := m.config.one_le_maxLoras
  have enough := m.config.maxLoras_le_maxCpuLoras
  have within := consistent.registeredWithin
  have len : LoRAModelManager.registered.len m = m.registeredAdapters.cache.keys.length := AdapterLRUCache.len_eq
  unfold evictIfFull
  rw [wp_bind, wp_get, wp_ite, len]
  constructor
  · intro full
    have full : m.config.maxCpuLoras < m.registeredAdapters.cache.keys.length + 1 := full
    rw [wp_bind]
    refine (removeOldestAdapter_wp consistent (by omega)).mono ?_ fun _ _ raised => raised
    rintro - t ⟨consistent, setup, ⟨key, there, keys⟩, settles⟩
    refine ⟨consistent, setup, ?_, ?_, fun batch settled few => settles batch settled (by omega)⟩
    · rw [keys]
      exact List.erase_subset
    · rw [keys, List.length_erase_of_mem there]
      omega
  · intro roomy
    have roomy : ¬m.config.maxCpuLoras < m.registeredAdapters.cache.keys.length + 1 := roomy
    exact ⟨consistent, rfl, fun _ there => there, by omega, fun _ settled _ => settled⟩

theorem register_wp (consistent : m.Consistent made loads) (accepts : loads → m.Accepts (checkpoint loraRequest.loraPath)) : wp (register checkpoint loraRequest)
    (fun _ t => t.Consistent made loads ∧ t.toManagerSetup = m.toManagerSetup ∧
      loraRequest.loraIntId ∈ t.registeredAdapters.cache.keys ∧
        ∀ batch, Settled batch batch m → loraRequest.loraIntId ∉ batch → batch.length < m.config.maxLoras →
          Settled (batch ++ [loraRequest.loraIntId]) batch t)
    (fun _ t => t.Consistent made loads ∧ (¬m.Unpinned ∨ ¬loads)) m := by
  unfold register
  rw [wp_bind, wp_get, wp_ite]
  constructor
  · intro there
    have there : loraRequest.loraIntId ∈ m.registeredAdapters.cache.keys := AdapterLRUCache.contains_iff.mp there
    unfold AdapterLRUCache.get
    rw [wp_bind, wp_bind, wp_get, LRUCache.get_eq, wp_bind, wp_set]
    refine ⟨consistent.touch_registered there, rfl, ?_, ?_⟩
    · show loraRequest.loraIntId ∈ (m.registeredAdapters.touch _).cache.keys
      rw [keys_touch there]
      exact List.mem_append_right _ List.mem_cons_self
    · intro batch settled apart _
      refine ⟨⟨LRUCache.touch_pinnedItems.trans settled.unpinned.1, settled.unpinned.2⟩, ?_, settled.active⟩
      show _ <:+ (m.registeredAdapters.touch _).cache.keys
      rw [keys_touch there]
      exact recent_used apart settled.registered
  · intro absent
    rw [Bool.not_eq_true] at absent
    have fresh : loraRequest.loraIntId ∉ m.registeredAdapters.cache.keys := AdapterLRUCache.not_contains_iff.mp absent
    have enough := m.config.maxLoras_le_maxCpuLoras
    rw [wp_bind]
    refine (evictIfFull_wp consistent).mono ?_ ?_
    · rintro - u ⟨consistent, setup, fewer, room, settles⟩
      have fresh : (loadAdapter checkpoint loraRequest).id ∉ u.registeredAdapters.cache.keys :=
        fun there => fresh (fewer there)
      rw [← setup] at accepts room ⊢
      refine (addAdapter_wp consistent fresh accepts room).mono ?_ ?_
      · rintro - t rfl
        refine ⟨consistent.withRegistered fresh accepts room, rfl, ?_, ?_⟩
        · rw [keys_withRegistered fresh]
          exact List.mem_append_right _ List.mem_cons_self
        · intro batch settled _ few
          rw [setup] at few
          exact (settles batch settled (by omega)).withRegistered fresh
      · rintro - t ⟨consistent, refused⟩
        exact ⟨consistent, .inr refused⟩
    · rintro - u ⟨consistent, pinned⟩
      exact ⟨consistent, .inl pinned⟩

/-! ### A batch -/

theorem addAdapter_wp (consistent : m.Consistent made loads) (accepts : loads → m.Accepts (checkpoint loraRequest.loraPath)) :
    wp (addAdapter checkpoint loraRequest)
      (fun _ t => t.Consistent made loads ∧ t.toManagerSetup = m.toManagerSetup ∧
        ∀ batch, Settled batch batch m → loraRequest.loraIntId ∉ batch → batch.length < m.config.maxLoras →
          Settled (batch ++ [loraRequest.loraIntId]) (batch ++ [loraRequest.loraIntId]) t)
      (fun _ t => t.Consistent made loads ∧ ∀ batch, Settled batch batch m → loraRequest.loraIntId ∉ batch →
        batch.length < m.config.maxLoras → ¬loads) m := by
  unfold addAdapter
  rw [wp_bind]
  refine (register_wp consistent accepts).mono ?_ ?_
  · rintro loaded u ⟨consistent, setup, there, settles⟩
    rw [wp_bind]
    refine (activateAdapter_wp consistent there).mono ?_ ?_
    · rintro - t ⟨consistent, setup', -, settles'⟩
      refine ⟨consistent, setup'.trans setup, fun batch settled apart few => ?_⟩
      have before := settles batch settled apart few
      rw [← setup] at few
      exact settles' batch batch before apart few
    · rintro - t ⟨consistent, raised⟩
      refine ⟨consistent, fun batch settled apart few => ?_⟩
      exact raised.resolve_left (not_not.mpr (settles batch settled apart few).unpinned)
  · rintro - u ⟨consistent, raised⟩
    refine ⟨consistent, fun batch settled _ _ => ?_⟩
    exact raised.resolve_left (not_not.mpr settled.unpinned)

variable {loraRequests : List LoRARequest}

/-- The adapters so far stay active while the next ones are added. -/
theorem addAdapters_wp (consistent : m.Consistent made loads)
    (accepts : loads → ∀ loraRequest ∈ loraRequests, m.Accepts (checkpoint loraRequest.loraPath)) :
    wp (addAdapters checkpoint loraRequests)
      (fun _ t => t.Consistent made loads ∧ ∀ batch, Settled batch batch m →
        (batch ++ loraRequests.map (·.loraIntId)).Nodup → (batch ++ loraRequests.map (·.loraIntId)).length ≤ m.config.maxLoras →
          Settled (batch ++ loraRequests.map (·.loraIntId)) (batch ++ loraRequests.map (·.loraIntId)) t)
      (fun _ t => t.Consistent made loads ∧ ∀ batch, Settled batch batch m →
        (batch ++ loraRequests.map (·.loraIntId)).Nodup → (batch ++ loraRequests.map (·.loraIntId)).length ≤ m.config.maxLoras →
          ¬loads) m := by
  induction loraRequests generalizing m with
  | nil =>
    refine ⟨consistent, fun batch settled _ _ => ?_⟩
    rw [List.map_nil, List.append_nil]
    exact settled
  | cons loraRequest rest ih =>
    unfold addAdapters
    rw [wp_bind]
    have head : ∀ batch : List LoraId, (batch ++ (loraRequest :: rest).map (·.loraIntId)).Nodup →
        (batch ++ (loraRequest :: rest).map (·.loraIntId)).length ≤ m.config.maxLoras →
          loraRequest.loraIntId ∉ batch ∧ batch.length < m.config.maxLoras := by
      intro batch distinct few
      rw [List.map_cons, List.length_append, List.length_cons] at few
      refine ⟨fun member => ?_, by omega⟩
      exact (List.nodup_append.mp distinct).2.2 _ member _ List.mem_cons_self rfl
    have step : ∀ batch : List LoraId, batch ++ (loraRequest :: rest).map (·.loraIntId) =
        batch ++ [loraRequest.loraIntId] ++ rest.map (·.loraIntId) := by
      intro batch
      rw [List.map_cons, List.append_assoc, List.singleton_append]
    refine (addAdapter_wp consistent fun all => accepts all _ List.mem_cons_self).mono ?_ ?_
    · rintro - u ⟨consistent, setup, settles⟩
      have later : loads → ∀ loraRequest ∈ rest, u.Accepts (checkpoint loraRequest.loraPath) := by
        intro all loraRequest member
        rw [setup]
        exact accepts all loraRequest (List.mem_cons_of_mem _ member)
      refine (ih consistent later).mono ?_ ?_
      all_goals
        intro _ t ⟨consistent, settled'⟩
        refine ⟨consistent, fun batch settled distinct few => ?_⟩
        obtain ⟨apart, room⟩ := head batch distinct few
        have next := settles batch settled apart room
        rw [step] at distinct few
      · rw [step]
        exact settled' _ next distinct (by rw [setup]; exact few)
      · exact settled' _ next distinct (by rw [setup]; exact few)
    · rintro - u ⟨consistent, refused⟩
      refine ⟨consistent, fun batch settled distinct few => ?_⟩
      obtain ⟨apart, room⟩ := head batch distinct few
      exact refused batch settled apart room

theorem lorasMap_spec (loraRequests : List LoRARequest) :
    (∀ k r, (lorasMap loraRequests).get? k = some r → r.loraIntId = k ∧ r ∈ loraRequests) ∧
      ∀ k, k ∈ (lorasMap loraRequests).keys ↔ k ∈ loraRequests.map (·.loraIntId) := by
  unfold lorasMap
  induction loraRequests using List.reverseRecOn with
  | nil =>
    refine ⟨fun k r found => ?_, fun k => Iff.rfl⟩
    cases found
  | append_singleton before r ih =>
    obtain ⟨entries, ids⟩ := ih
    rw [List.foldl_append]
    generalize before.foldl (fun map r => map.insert r.loraIntId r) (∅ : Dict LoraId LoRARequest) = map at entries ids
    show (∀ k r', (map.insert r.loraIntId r).get? k = some r' → _) ∧ ∀ k, k ∈ (map.insert r.loraIntId r).keys ↔ _
    refine ⟨fun k r' found => ?_, fun k => ?_⟩
    · rw [Dict.get?_insert] at found
      split at found
      · rename_i mine
        cases found
        exact ⟨mine.symm, List.mem_append_right _ List.mem_cons_self⟩
      · obtain ⟨same, member⟩ := entries k r' found
        exact ⟨same, List.mem_append_left _ member⟩
    · rw [Dict.mem_keys_iff, List.map_append, List.mem_append, ← ids k, Dict.get?_insert]
      by_cases mine : k = r.loraIntId
      · rw [if_pos mine, mine]
        exact ⟨fun _ => .inr List.mem_cons_self, fun _ => ⟨r, rfl⟩⟩
      · rw [if_neg mine, ← Dict.mem_keys_iff]
        refine ⟨.inl, fun either => either.resolve_right fun last => mine ?_⟩
        exact List.mem_singleton.mp last

theorem map_values_lorasMap (loraRequests : List LoRARequest) :
    (lorasMap loraRequests).values.map (·.loraIntId) = (lorasMap loraRequests).keys := by
  unfold Dict.values Dict.keys
  rw [List.map_map]
  apply List.map_congr_left
  rintro ⟨k, r⟩ member
  exact ((lorasMap_spec loraRequests).1 k r (Dict.mem_items_iff.mp member)).1

theorem size_lorasMap (loraRequests : List LoRARequest) :
    (lorasMap loraRequests).size = (loraRequests.map (·.loraIntId)).toFinset.card := by
  rw [← Dict.length_keys, ← List.toFinset_card_of_nodup (Dict.nodup_keys _)]
  apply congrArg Finset.card
  ext k
  rw [List.mem_toFinset, List.mem_toFinset]
  exact (lorasMap_spec loraRequests).2 k

theorem setActiveAdapters_wp (consistent : m.Consistent made loads)
    (accepts : loads → ∀ loraRequest ∈ loraRequests, m.Accepts (checkpoint loraRequest.loraPath)) :
    wp (setActiveAdapters checkpoint loraRequests)
      (fun _ t => t.Consistent made loads ∧
        (m.Unpinned → ∀ loraRequest ∈ loraRequests, loraRequest.loraIntId ∈ t.activeAdapters.cache.keys))
      (fun _ t => t.Consistent made loads ∧ (m.Unpinned → loads →
        m.config.maxLoras < (loraRequests.map (·.loraIntId)).toFinset.card)) m := by
  unfold setActiveAdapters applyAdapters
  dsimp only
  rw [wp_bind, wp_get, wp_ite]
  constructor
  · intro many
    rw [wp_throw]
    rw [size_lorasMap] at many
    exact ⟨consistent, fun _ _ => many⟩
  · intro few
    have within : (lorasMap loraRequests).values.length ≤ m.config.maxLoras := by
      unfold Dict.values
      rw [List.length_map]
      exact Nat.le_of_not_lt few
    have accepted : loads → ∀ r ∈ (lorasMap loraRequests).values, m.Accepts (checkpoint r.loraPath) := by
      intro all r member
      obtain ⟨⟨k, r⟩, item, rfl⟩ := List.mem_map.mp member
      exact accepts all r ((lorasMap_spec loraRequests).1 k r (Dict.mem_items_iff.mp item)).2
    have distinct : ([] ++ (lorasMap loraRequests).values.map LoRARequest.loraIntId).Nodup := by
      rw [List.nil_append, map_values_lorasMap]
      exact Dict.nodup_keys _
    have fits : ([] ++ (lorasMap loraRequests).values.map LoRARequest.loraIntId).length ≤ m.config.maxLoras := by
      rw [List.nil_append, List.length_map]
      exact within
    have start : m.Unpinned → Settled [] [] m := fun unpinned =>
      ⟨unpinned, List.nil_suffix, List.nil_suffix⟩
    refine (addAdapters_wp consistent accepted).mono ?_ ?_
    · rintro - t ⟨consistent, settles⟩
      refine ⟨consistent, fun unpinned r member => ?_⟩
      apply (settles [] (start unpinned) distinct fits).active.subset
      rw [List.nil_append, map_values_lorasMap, (lorasMap_spec loraRequests).2]
      exact List.mem_map.mpr ⟨r, member, rfl⟩
    · rintro - t ⟨consistent, refused⟩
      exact ⟨consistent, fun unpinned all => absurd all (refused [] (start unpinned) distinct fits)⟩

/-! ### The other operations -/

theorem removeAdapter_wp (consistent : m.Consistent made loads) (id : LoraId) : wp (LoRAModelManager.removeAdapter id)
    (fun _ t => t.Consistent made loads) (fun _ _ => False) m := by
  unfold LoRAModelManager.removeAdapter
  rw [wp_bind, wp_modify, wp_bind, wp_get, wp_bind, wp_set, wp_pure]
  apply Consistent.registered_pop
  exact consistent.deactivated (deactivated_deactivateAdapter id m) rfl rfl rfl rfl (fun _ _ there => there) (le_refl _)
    fun _ _ found => found

theorem pinAdapter_wp (consistent : m.Consistent made loads) (id : LoraId) : wp (LoRAModelManager.pinAdapter id)
    (fun _ t => t.Consistent made loads) (fun _ t => t.Consistent made loads) m := by
  unfold LoRAModelManager.pinAdapter pinLoraInCpuCache
  rw [wp_bind, wp_bind, wp_get, wp_ite]
  constructor
  · intro inside
    have there : id ∈ m.registeredAdapters.cache.keys := AdapterLRUCache.contains_iff.mp inside
    unfold AdapterLRUCache.pin
    rw [wp_bind, wp_get, if_pos inside, wp_set, wp_bind]
    have pinned : Consistent made loads { m with registeredAdapters :=
        { m.registeredAdapters with pinnedItems := m.registeredAdapters.pinnedItems.insert id } } :=
      ⟨consistent.made, consistent.registeredCapacity, consistent.activeCapacity, consistent.length_slots, consistent.slots,
        consistent.activeRegistered, consistent.registeredWithin, consistent.ids, consistent.accepts⟩
    unfold pinLoraInGpuCache
    rw [wp_bind, wp_get, wp_ite]
    have pin : ∀ {u : LoRAModelManager}, u.Consistent made loads → wp (LoRAModelManager.active.pin id)
        (fun _ t => t.Consistent made loads) (fun _ t => t.Consistent made loads) u := by
      intro u consistent
      unfold AdapterLRUCache.pin
      rw [wp_bind, wp_get, wp_ite]
      refine ⟨fun _ => ?_, fun _ => consistent⟩
      exact ⟨consistent.made, consistent.registeredCapacity, consistent.activeCapacity, consistent.length_slots, consistent.slots,
        consistent.activeRegistered, consistent.registeredWithin, consistent.ids, consistent.accepts⟩
    refine ⟨fun _ => pin pinned, fun _ => ?_⟩
    rw [wp_bind]
    refine (activateAdapter_wp pinned there).mono ?_ fun _ _ raised => raised.1
    rintro - t ⟨consistent, -⟩
    exact pin consistent
  · intro _
    exact consistent

theorem clearAll_registered_wp (fuel : ℕ) (consistent : m.Consistent made loads)
    (enough : m.registeredAdapters.cache.keys.length ≤ fuel) : wp (LoRAModelManager.registered.clearAll fuel)
    (fun _ t => t.Consistent made loads ∧ t.registeredAdapters.cache.keys = []) (fun _ _ => False) m := by
  induction fuel generalizing m with
  | zero => exact ⟨consistent, List.eq_nil_of_length_eq_zero (Nat.le_zero.mp enough)⟩
  | succ fuel ih =>
    have len : LoRAModelManager.registered.len m = m.registeredAdapters.cache.keys.length := AdapterLRUCache.len_eq
    unfold AdapterLRUCache.clearAll
    rw [wp_bind, wp_get, wp_ite, len]
    refine ⟨fun some_ => ?_, fun empty => ⟨consistent, List.eq_nil_of_length_eq_zero (by omega)⟩⟩
    rw [wp_bind]
    refine (AdapterLRUCache.removeOldest_wp true).mono ?_ fun _ _ raised => absurd raised.2.1 (by decide)
    rintro - t (⟨empty, -⟩ | ⟨key, there, rfl, -⟩)
    · omega
    · have there : key ∈ m.registeredAdapters.cache.keys := there
      apply ih (consistent.registered_pop key)
      rw [(consistent.deactivated_registered_pop key).registered]
      show (m.registeredAdapters.pop key).cache.keys.length ≤ fuel
      rw [keys_pop, List.length_erase_of_mem there]
      omega

theorem clear_registered_wp (consistent : m.Consistent made loads) : wp LoRAModelManager.registered.clear
    (fun _ t => t.Consistent made loads ∧ t.registeredAdapters.cache.keys = []) (fun _ _ => False) m := by
  have enough : m.registeredAdapters.cache.keys.length ≤ LoRAModelManager.registered.len m := by
    rw [AdapterLRUCache.len_eq]
    exact le_refl _
  unfold AdapterLRUCache.clear
  rw [wp_bind, wp_get, wp_bind]
  refine (clearAll_registered_wp _ consistent enough).mono ?_ fun _ _ raised => raised
  rintro - t ⟨consistent, empty⟩
  have inside := consistent.activeRegistered
  rw [empty] at inside
  rw [wp_modify]
  refine ⟨⟨consistent.made, consistent.registeredCapacity, consistent.activeCapacity, consistent.length_slots, consistent.slots, inside,
    Nat.zero_le _, fun _ _ found => ?_, fun _ _ _ found => ?_⟩, rfl⟩
  · cases found
  · cases found

theorem clear_active_wp (consistent : m.Consistent made loads) (inactive : m.activeAdapters.cache.keys = []) :
    wp LoRAModelManager.active.clear (fun _ t => t.Consistent made loads) (fun _ _ => False) m := by
  have len : LoRAModelManager.active.len m = 0 := by
    rw [AdapterLRUCache.len_eq]
    exact congrArg List.length inactive
  have slots := consistent.slots
  rw [inactive] at slots
  unfold AdapterLRUCache.clear
  rw [wp_bind, wp_get, len, wp_bind]
  exact ⟨consistent.made, consistent.registeredCapacity, consistent.activeCapacity, consistent.length_slots, slots, List.nil_subset _,
    consistent.registeredWithin, consistent.ids, consistent.accepts⟩

theorem removeAllAdapters_wp (consistent : m.Consistent made loads) : wp LoRAModelManager.removeAllAdapters
    (fun _ t => t.Consistent made loads) (fun _ _ => False) m := by
  unfold LoRAModelManager.removeAllAdapters
  rw [wp_bind]
  refine (clear_registered_wp consistent).mono ?_ fun _ _ raised => raised
  rintro - t ⟨consistent, empty⟩
  have inside := consistent.activeRegistered
  rw [empty] at inside
  have inactive := List.eq_nil_of_subset_nil inside
  rw [wp_bind, wp_modify]
  refine clear_active_wp ?_ inactive
  refine ⟨consistent.made, consistent.registeredCapacity, consistent.activeCapacity, List.length_replicate, ?_,
    consistent.activeRegistered, consistent.registeredWithin, consistent.ids, consistent.accepts⟩
  show (List.replicate _ none).reduceOption.Perm t.activeAdapters.cache.keys
  rw [List.reduceOption_replicate_none, inactive]

/-! ### Every run -/

/-- Loading succeeds: the layers take the weights that are loaded. -/
def AdapterCall.Loads (setup : ManagerSetup) : AdapterCall → Prop
  | .addAdapter checkpoint loraRequest => setup.Accepts (checkpoint loraRequest.loraPath)
  | .setActiveAdapters checkpoint loraRequests =>
    ∀ loraRequest ∈ loraRequests, setup.Accepts (checkpoint loraRequest.loraPath)
  | _ => True

theorem consistent_after {α : Type} {x : V1.Call LoRAModelManager α} {Q : α → LoRAModelManager → Prop}
    {E : Raised → LoRAModelManager → Prop} (held : wp x Q E m) (returned : ∀ a t, Q a t → t.Consistent made loads)
    (raised : ∀ e t, E e t → t.Consistent made loads) : (after x m).Consistent made loads := by
  unfold after
  cases call : x m with
  | ok a t => exact returned a t (held.ok call)
  | error e t => exact raised e t (held.error call)

theorem consistent_step {call : AdapterCall} (consistent : m.Consistent made loads) (succeeds : loads → call.Loads made) :
    (step m call).Consistent made loads := by
  rw [← consistent.made] at succeeds
  cases call with
  | addAdapter checkpoint loraRequest =>
    exact consistent_after (addAdapter_wp consistent succeeds) (fun _ _ held => held.1) fun _ _ held => held.1
  | setActiveAdapters checkpoint loraRequests =>
    exact consistent_after (setActiveAdapters_wp consistent succeeds) (fun _ _ held => held.1) fun _ _ held => held.1
  | removeAdapter adapterId =>
    exact consistent_after (removeAdapter_wp consistent adapterId) (fun _ _ held => held) fun _ _ held => held.elim
  | pinAdapter adapterId =>
    exact consistent_after (pinAdapter_wp consistent adapterId) (fun _ _ held => held) fun _ _ held => held
  | removeAllAdapters =>
    exact consistent_after (removeAllAdapters_wp consistent) (fun _ _ held => held) fun _ _ held => held.elim

theorem consistent_run {calls : List AdapterCall} (run : Run (fun m call t => step m call = t) (create made) calls m)
    (succeed : loads → ∀ call ∈ calls, call.Loads made) : m.Consistent made loads := by
  induction run with
  | start => exact consistent_create made
  | call _ stepped ih =>
    rw [← stepped]
    refine consistent_step (ih fun all call member => succeed all call (List.mem_cons_of_mem _ member)) fun all => ?_
    exact succeed all _ List.mem_cons_self

/-- The slots are those of the active adapters, which are registered, and there are not too many of either. -/
structure Tracked (made : ManagerSetup) (m : LoRAModelManager) : Prop where
  slotsOnce : m.loraIndexToId.reduceOption.Nodup
  slotsActive : ∀ id, some id ∈ m.loraIndexToId ↔ LoRAModelManager.active.contains id m = true
  activeRegistered : ∀ id, LoRAModelManager.active.contains id m = true → LoRAModelManager.registered.contains id m = true
  registeredWithin : LoRAModelManager.registered.len m ≤ made.config.maxCpuLoras
  activeWithin : LoRAModelManager.active.len m ≤ made.config.maxLoras

theorem tracked_of_consistent (consistent : m.Consistent made loads) : Tracked made m := by
  constructor
  · exact consistent.slots.symm.nodup (Dict.nodup_keys _)
  · intro id
    rw [← List.reduceOption_mem_iff, consistent.slots.mem_iff, AdapterLRUCache.contains_iff]
    rfl
  · intro id there
    exact AdapterLRUCache.contains_iff.mpr (consistent.activeRegistered (AdapterLRUCache.contains_iff.mp there))
  · rw [AdapterLRUCache.len_eq, ← consistent.made]
    exact consistent.registeredWithin
  · rw [AdapterLRUCache.len_eq, ← consistent.made]
    exact consistent.activeWithin

/-- Whatever the operations, raised or not, the slots are tracked; and a batch that fits is active as a whole
when nothing is pinned. -/
theorem adapters_tracked {calls : List AdapterCall}
    (run : Run (fun m call t => step m call = t) (create made) calls m) : Tracked made m ∧
      ((∀ call ∈ calls, call.Loads made) → m.Unpinned → ∀ checkpoint loraRequests,
        (AdapterCall.setActiveAdapters checkpoint loraRequests).Loads made →
          (loraRequests.map LoRARequest.loraIntId).toFinset.card ≤ made.config.maxLoras →
            ∃ t, setActiveAdapters checkpoint loraRequests m = .ok () t ∧
              ∀ loraRequest ∈ loraRequests, LoRAModelManager.active.contains loraRequest.loraIntId t = true) := by
  constructor
  · exact tracked_of_consistent (consistent_run run False.elim)
  · intro succeed unpinned checkpoint loraRequests accepts few
    have consistent : m.Consistent made True := consistent_run run fun _ => succeed
    have accepted : True → ∀ loraRequest ∈ loraRequests, m.Accepts (checkpoint loraRequest.loraPath) := by
      intro _
      rw [consistent.made]
      exact accepts
    have held := setActiveAdapters_wp consistent accepted
    cases call : setActiveAdapters checkpoint loraRequests m with
    | ok _ t =>
      refine ⟨t, rfl, fun loraRequest member => ?_⟩
      exact AdapterLRUCache.contains_iff.mpr ((held.ok call).2 unpinned loraRequest member)
    | error e t =>
      have many := (held.error call).2 unpinned trivial
      rw [consistent.made] at many
      exact absurd few (Nat.not_le.mpr many)

def twoSlots : ManagerSetup where
  config := ⟨2, 2, false, by decide, by decide⟩
  modules := ["q_proj"]
  scalingFactors := none

def noWeights : String → Checkpoint := fun _ => ⟨∅, none⟩

theorem accepts_noWeights (path : String) : twoSlots.Accepts (noWeights path) :=
  ⟨rfl, fun _ _ none _ => nomatch none⟩

/-- The adapter that is in the way leaves both caches, not the one that the batch needs. -/
theorem adapters_tracked_batch : ∃ m, Run (fun m call t => step m call = t) (create twoSlots)
    [.addAdapter noWeights ⟨"b", 2, "b"⟩, .addAdapter noWeights ⟨"a", 1, "a"⟩] m ∧
      m.loraIndexToId = [some 1, some 2] ∧ Tracked twoSlots m ∧
        ∃ t, setActiveAdapters noWeights [⟨"c", 3, "c"⟩, ⟨"b", 2, "b"⟩] m = .ok () t ∧
          ∀ loraRequest ∈ ([⟨"c", 3, "c"⟩, ⟨"b", 2, "b"⟩] : List LoRARequest),
            LoRAModelManager.active.contains loraRequest.loraIntId t = true := by
  have run : Run (fun m call t => step m call = t) (create twoSlots)
      [.addAdapter noWeights ⟨"b", 2, "b"⟩, .addAdapter noWeights ⟨"a", 1, "a"⟩] _ := .call (.call .start rfl) rfl
  obtain ⟨tracked, batch⟩ := adapters_tracked run
  refine ⟨_, run, by decide +kernel, tracked, batch ?_ ⟨by decide +kernel, by decide +kernel⟩ _ _ ?_ (by decide)⟩
  · intro call member
    rcases List.mem_cons.mp member with rfl | member
    · exact accepts_noWeights _
    · rw [List.mem_singleton.mp member]
      exact accepts_noWeights _
  · intro loraRequest _
    exact accepts_noWeights _

end LRUCacheWorkerLoRAManager
end
end Vllm.Lora
