import VllmProofs.Lora.AdapterCaches

/-!
Active adapters: each has a slot of its own, and the one that was used longest ago makes room for the next.
-/

namespace Vllm.Lora
open Exec V1

/-! ### Slots and recency, as lists -/

section
variable {α : Type} [DecidableEq α] {slots : List (Option α)} {a : α} {i : ℕ} {recent keys : List α}

omit [DecidableEq α] in
theorem reduceOption_at {slot : Option α} (there : slots[i]? = some slot) :
    slots.reduceOption = (slots.take i).reduceOption ++ (slot.toList ++ (slots.drop (i + 1)).reduceOption) := by
  obtain ⟨inside, rfl⟩ := List.getElem?_eq_some_iff.mp there
  have parts : slots = slots.take i ++ ([slots[i]] ++ slots.drop (i + 1)) := by
    rw [List.singleton_append, List.getElem_cons_drop, List.take_append_drop]
  conv_lhs => rw [parts]
  rw [List.reduceOption_append, List.reduceOption_append, List.reduceOption_singleton]

omit [DecidableEq α] in
theorem reduceOption_set (slot : Option α) (inside : i < slots.length) :
    (slots.set i slot).reduceOption =
      (slots.take i).reduceOption ++ (slot.toList ++ (slots.drop (i + 1)).reduceOption) := by
  rw [@reduceOption_at _ _ i slot (by rw [List.getElem?_set_self inside]), List.take_set_of_le (le_refl i),
    List.drop_set_of_lt (Nat.lt_succ_self i)]

theorem reduceOption_freed (found : slots.idxOf? (some a) = some i) :
    (slots.set i none).reduceOption = slots.reduceOption.erase a := by
  obtain ⟨inside, here, first⟩ := List.idxOf?_eq_some_iff.mp found
  have earlier : a ∉ (slots.take i).reduceOption := by
    intro member
    obtain ⟨j, before, same⟩ := List.mem_take_iff_getElem.mp (List.reduceOption_mem_iff.mp member)
    exact first j (by omega) same
  rw [reduceOption_set none inside, @reduceOption_at _ slots i (some a) (by rw [List.getElem?_eq_getElem inside, here]),
    List.erase_append_right _ earlier]
  show _ = (slots.take i).reduceOption ++ (a :: (slots.drop (i + 1)).reduceOption).erase a
  rw [List.erase_cons_head]
  rfl

theorem reduceOption_taken (found : slots.idxOf? none = some i) :
    (slots.set i (some a)).reduceOption.Perm (slots.reduceOption ++ [a]) := by
  obtain ⟨inside, here, -⟩ := List.idxOf?_eq_some_iff.mp found
  rw [reduceOption_set (some a) inside, @reduceOption_at _ slots i none (by rw [List.getElem?_eq_getElem inside, here])]
  show ((slots.take i).reduceOption ++ a :: (slots.drop (i + 1)).reduceOption).Perm
    ((slots.take i).reduceOption ++ (slots.drop (i + 1)).reduceOption ++ [a])
  exact List.perm_middle.trans (List.perm_append_singleton _ _).symm

theorem recent_oldest (distinct : keys.Nodup) (suffix : recent <:+ keys) (more : recent.length < keys.length)
    (oldest : keys.head? = some a) : a ∉ recent ∧ recent <:+ keys.erase a := by
  cases keys with
  | nil => cases oldest
  | cons k rest =>
    cases oldest
    rw [List.erase_cons_head]
    rcases List.suffix_cons_iff.mp suffix with rfl | later
    · exact absurd more (lt_irrefl _)
    · exact ⟨fun member => (List.nodup_cons.mp distinct).1 (later.subset member), later⟩

theorem recent_erase (apart : a ∉ recent) (suffix : recent <:+ keys) : recent <:+ keys.erase a := by
  obtain ⟨old, rfl⟩ := suffix
  by_cases member : a ∈ old
  · rw [List.erase_append_left _ member]
    exact List.suffix_append _ _
  · rw [List.erase_append_right _ member, List.erase_of_not_mem apart]
    exact List.suffix_append _ _

theorem recent_used (apart : a ∉ recent) (suffix : recent <:+ keys) : recent ++ [a] <:+ keys.erase a ++ [a] := by
  obtain ⟨old, same⟩ := recent_erase apart suffix
  rw [← same, List.append_assoc]
  exact List.suffix_append _ _

theorem used_again (distinct : keys.Nodup) : (keys.erase a ++ [a]).erase a ++ [a] = keys.erase a ++ [a] := by
  rw [List.erase_append_right _ distinct.not_mem_erase, List.erase_cons_head, List.append_nil]

theorem perm_used (there : a ∈ keys) : (keys.erase a ++ [a]).Perm keys :=
  (List.perm_append_singleton _ _).trans (List.perm_cons_erase there).symm

theorem recent_again (distinct : keys.Nodup) (suffix : recent ++ [a] <:+ keys) : recent ++ [a] <:+ keys.erase a ++ [a] := by
  obtain ⟨old, same⟩ := suffix
  rw [← List.append_assoc] at same
  have apart : a ∉ old ++ recent := by
    rw [← same, List.nodup_append] at distinct
    intro member
    exact distinct.2.2 a member a List.mem_cons_self rfl
  rw [← same, List.erase_append_right _ apart, List.erase_cons_head, List.append_nil, List.append_assoc]
  exact List.suffix_append _ _

end

/-! ### One cache -/

section
variable {V : Type} {s : LRUCache LoraId V} {key : LoraId} {value : V}

theorem keys_touch (there : key ∈ s.cache.keys) : (s.touch key).cache.keys = s.cache.keys.erase key ++ [key] := by
  obtain ⟨value, found⟩ := Dict.mem_keys_iff.mp there
  unfold LRUCache.touch
  rw [found]
  exact Dict.keys_erase_insert _ _ _

theorem capacity_touch : (s.touch key).capacity = s.capacity := by
  unfold LRUCache.touch
  cases s.cache.get? key <;> rfl

theorem mem_keys_insert : key ∈ (s.cache.insert key value).keys :=
  Dict.mem_keys_iff.mpr ⟨value, Dict.get?_insert_self _ _ _⟩

theorem keys_put : (({ s with cache := s.cache.insert key value } : LRUCache LoraId V).touch key).cache.keys =
    s.cache.keys.erase key ++ [key] := by
  rw [keys_touch mem_keys_insert]
  show (s.cache.insert key value).keys.erase key ++ [key] = _
  by_cases there : key ∈ s.cache.keys
  · rw [Dict.keys_insert_of_mem there]
  · rw [Dict.keys_insert_of_not_mem there, List.erase_append_right _ there, List.erase_cons_head, List.append_nil,
      List.erase_of_not_mem there]

end

namespace AdapterLRUCache

variable {σ V : Type} {c : AdapterLRUCache σ V} {s : σ} {key : LoraId} {value : V}

theorem contains_iff : c.contains key s = true ↔ key ∈ (c.cache s).cache.keys := Dict.contains_iff_mem_keys

theorem not_contains_iff : c.contains key s = false ↔ key ∉ (c.cache s).cache.keys := Dict.not_contains_iff_mem_keys

theorem len_eq : c.len s = (c.cache s).cache.keys.length := (Dict.length_keys _).symm

theorem removeOldest_wp (removePinned : Bool) : wp (c.removeOldest removePinned)
    (fun _ t => c.len s = 0 ∧ t = s ∨ ∃ key ∈ (c.cache s).cache.keys, t = c.pop key s ∧
      ((c.cache s).pinnedItems = [] → (c.cache s).cache.keys.head? = some key))
    (fun _ t => t = s ∧ removePinned = false ∧ (c.cache s).pinnedItems ≠ []) s := by
  unfold removeOldest
  rw [wp_bind, wp_get, wp_ite]
  constructor
  · intro empty
    exact .inl ⟨empty, rfl⟩
  · intro some_
    split
    · rename_i key found
      refine .inr ⟨key, List.mem_of_find?_eq_some found, rfl, fun none => ?_⟩
      rw [none] at found
      cases keys : (c.cache s).cache.keys with
      | nil =>
        rw [keys] at found
        cases found
      | cons k rest =>
        rw [keys, List.find?_cons_of_pos (by simp)] at found
        exact found
    · rename_i absent
      rw [wp_throw]
      rw [len_eq] at some_
      obtain ⟨key, member⟩ := List.exists_mem_of_length_pos (Nat.pos_of_ne_zero some_)
      have pinned := List.find?_eq_none.mp absent key member
      rw [Bool.or_eq_true, not_or, Bool.not_eq_true, decide_eq_true_eq, not_not] at pinned
      exact ⟨rfl, pinned.1, List.ne_nil_of_mem pinned.2⟩

theorem put_within (lens : ∀ cache s, c.cache (c.setCache cache s) = cache)
    (within : ((c.cache s).cache.keys.erase key).length < (c.cache s).capacity) :
    c.put key value s = .ok () (c.setCache
      (({ c.cache s with cache := (c.cache s).cache.insert key value } : LRUCache LoraId V).touch key)
      (c.setCache { c.cache s with cache := (c.cache s).cache.insert key value } s)) := by
  unfold put
  rw [modify_bind, modify_bind, get_bind, lens]
  generalize c.len _ = fuel
  cases fuel with
  | zero => rfl
  | succ fuel =>
    unfold removeOldIfNeeded
    rw [get_bind, if_neg]
    · rfl
    · rw [len_eq, lens, keys_put, capacity_touch, List.length_append]
      exact Nat.not_lt.mpr within

end AdapterLRUCache

namespace LoRAModelManager

variable {m t : LoRAModelManager} {id : LoraId}

/-! ### Adapters that are no longer active -/

@[simp] theorem toManagerSetup_deactivateSlot : (m.deactivateSlot id).toManagerSetup = m.toManagerSetup := by
  unfold deactivateSlot
  split <;> rfl

@[simp] theorem registeredAdapters_deactivateSlot :
    (m.deactivateSlot id).registeredAdapters = m.registeredAdapters := by
  unfold deactivateSlot
  split <;> rfl

@[simp] theorem activeAdapters_deactivateSlot : (m.deactivateSlot id).activeAdapters = m.activeAdapters := by
  unfold deactivateSlot
  split <;> rfl

theorem length_deactivateSlot : (m.deactivateSlot id).loraIndexToId.length = m.loraIndexToId.length := by
  unfold deactivateSlot
  split
  · exact List.length_set
  · rfl

theorem reduceOption_deactivateSlot :
    (m.deactivateSlot id).loraIndexToId.reduceOption = m.loraIndexToId.reduceOption.erase id := by
  unfold deactivateSlot
  split
  · rename_i index found
    exact reduceOption_freed found
  · rename_i absent
    rw [List.erase_of_not_mem]
    rw [List.reduceOption_mem_iff]
    exact List.idxOf?_eq_none_iff.mp absent

structure Deactivated (id : LoraId) (m t : LoRAModelManager) : Prop where
  setup : t.toManagerSetup = m.toManagerSetup
  registered : t.registeredAdapters = m.registeredAdapters
  capacity : t.activeAdapters.capacity = m.activeAdapters.capacity
  keys : t.activeAdapters.cache.keys = m.activeAdapters.cache.keys.erase id
  length_slots : t.loraIndexToId.length = m.loraIndexToId.length
  slots : m.loraIndexToId.reduceOption.Perm m.activeAdapters.cache.keys →
    t.loraIndexToId.reduceOption.Perm t.activeAdapters.cache.keys
  unpinned : m.activeAdapters.pinnedItems = [] → t.activeAdapters.pinnedItems = []

theorem active_pop (there : id ∈ m.activeAdapters.cache.keys) :
    active.pop id m = deactivateSlot id { m with activeAdapters := m.activeAdapters.pop id } :=
  if_pos (AdapterLRUCache.contains_iff.mpr there)

theorem keys_pop {V : Type} {s : LRUCache LoraId V} : (s.pop id).cache.keys = s.cache.keys.erase id := Dict.keys_erase _ _

theorem pop_unpinned {V : Type} {s : LRUCache LoraId V} (unpinned : s.pinnedItems = []) : (s.pop id).pinnedItems = [] := by
  show s.pinnedItems.erase id = []
  rw [unpinned]
  rfl

theorem reduceOption_active_pop (there : id ∈ m.activeAdapters.cache.keys) :
    (active.pop id m).loraIndexToId.reduceOption = m.loraIndexToId.reduceOption.erase id := by
  rw [active_pop there, reduceOption_deactivateSlot]

theorem activeAdapters_active_pop (there : id ∈ m.activeAdapters.cache.keys) :
    (active.pop id m).activeAdapters = m.activeAdapters.pop id := by
  rw [active_pop there, activeAdapters_deactivateSlot]

theorem deactivated_pop (there : id ∈ m.activeAdapters.cache.keys) : Deactivated id m (active.pop id m) := by
  have popped := activeAdapters_active_pop there
  constructor
  · rw [active_pop there, toManagerSetup_deactivateSlot]
  · rw [active_pop there, registeredAdapters_deactivateSlot]
  · rw [popped]
    rfl
  · rw [popped, keys_pop]
  · rw [active_pop there, length_deactivateSlot]
  · intro slots
    rw [reduceOption_active_pop there, popped, keys_pop]
    exact slots.erase id
  · intro unpinned
    rw [popped]
    exact pop_unpinned unpinned

/-- The slot is made free twice. -/
theorem deactivated_deactivateAdapter (id : LoraId) (m : LoRAModelManager) :
    Deactivated id m (m.deactivateAdapter id).2 := by
  unfold deactivateAdapter
  split
  · rename_i there
    have same : (m.deactivateSlot id).activeAdapters = m.activeAdapters := activeAdapters_deactivateSlot
    have member : id ∈ (m.deactivateSlot id).activeAdapters.cache.keys := by
      rw [same]
      exact AdapterLRUCache.contains_iff.mp there
    have popped := deactivated_pop member
    constructor
    · exact popped.setup.trans toManagerSetup_deactivateSlot
    · exact popped.registered.trans registeredAdapters_deactivateSlot
    · rw [← same]
      exact popped.capacity
    · rw [← same]
      exact popped.keys
    · exact popped.length_slots.trans length_deactivateSlot
    · intro slots
      have distinct := slots.symm.nodup m.activeAdapters.cache.nodup_keys
      have twice := reduceOption_active_pop member
      rw [reduceOption_deactivateSlot, List.erase_of_not_mem distinct.not_mem_erase] at twice
      show (active.pop id (m.deactivateSlot id)).loraIndexToId.reduceOption.Perm _
      rw [twice, popped.keys, same]
      exact slots.erase id
    · intro unpinned
      apply popped.unpinned
      rw [same]
      exact unpinned
  · rename_i absent
    rw [Bool.not_eq_true] at absent
    have fresh := AdapterLRUCache.not_contains_iff.mp absent
    exact ⟨rfl, rfl, rfl, (List.erase_of_not_mem fresh).symm, rfl, fun slots => slots, fun unpinned => unpinned⟩

end LoRAModelManager

/-! ### What holds between the operations -/

def ManagerSetup.Accepts (setup : ManagerSetup) (lora : Checkpoint) : Prop :=
  setup.refusesBias lora = none ∧
    ∀ known factor, setup.scalingFactors = some known → lora.scalingFactor = some factor → factor ∈ known

section
-- what the manager was made with, and whether all adapters that are loaded are accepted
variable {made : ManagerSetup} {loads : Prop}

namespace LoRAModelManager

variable {m t : LoRAModelManager} {id : LoraId}

/-- Each active adapter has a slot and is registered, and there are not too many. -/
structure Consistent (made : ManagerSetup) (loads : Prop) (m : LoRAModelManager) : Prop where
  made : m.toManagerSetup = made
  registeredCapacity : m.registeredAdapters.capacity = m.config.maxCpuLoras
  activeCapacity : m.activeAdapters.capacity = m.config.maxLoras
  length_slots : m.loraIndexToId.length = m.config.maxLoras
  slots : m.loraIndexToId.reduceOption.Perm m.activeAdapters.cache.keys
  activeRegistered : m.activeAdapters.cache.keys ⊆ m.registeredAdapters.cache.keys
  registeredWithin : m.registeredAdapters.cache.keys.length ≤ m.config.maxCpuLoras
  ids : ∀ id lora, m.registeredAdapters.cache.get? id = some lora → lora.id = id
  accepts : loads → ∀ id lora, m.registeredAdapters.cache.get? id = some lora → m.Accepts lora.toCheckpoint

theorem Consistent.activeWithin (consistent : m.Consistent made loads) : m.activeAdapters.cache.keys.length ≤ m.config.maxLoras := by
  rw [← consistent.slots.length_eq, ← consistent.length_slots]
  exact List.reduceOption_length_le _

theorem Consistent.freeSlot (consistent : m.Consistent made loads) (room : m.activeAdapters.cache.keys.length < m.config.maxLoras) :
    m.loraIndexToId.idxOf? none ≠ none := by
  intro taken
  have full : none ∉ m.loraIndexToId := List.idxOf?_eq_none_iff.mp taken
  have all : m.loraIndexToId.reduceOption.length = m.loraIndexToId.length := by
    rw [List.reduceOption_length_eq_iff]
    intro slot member
    cases slot with
    | none => exact absurd member full
    | some id => rfl
  rw [consistent.slots.length_eq, consistent.length_slots] at all
  omega

theorem consistent_create (setup : ManagerSetup) : (create setup).Consistent setup loads := by
  refine ⟨rfl, rfl, rfl, List.length_replicate, ?_, List.nil_subset _, Nat.zero_le _, ?_, ?_⟩
  · show (List.replicate _ none).reduceOption.Perm []
    rw [List.reduceOption_replicate_none]
  · intro id lora found
    cases found
  · intro _ id lora found
    cases found

/-- An adapter that leaves the active ones, and maybe the registered ones too. -/
theorem Consistent.deactivated {u : LoRAModelManager} (consistent : m.Consistent made loads) (deactivated : Deactivated id u t)
    (setup : u.toManagerSetup = m.toManagerSetup) (active : u.activeAdapters = m.activeAdapters)
    (slots : u.loraIndexToId = m.loraIndexToId) (capacity : u.registeredAdapters.capacity = m.registeredAdapters.capacity)
    (kept : ∀ k ≠ id, k ∈ m.registeredAdapters.cache.keys → k ∈ u.registeredAdapters.cache.keys)
    (fewer : u.registeredAdapters.cache.keys.length ≤ m.registeredAdapters.cache.keys.length)
    (entries : ∀ k lora, u.registeredAdapters.cache.get? k = some lora →
      m.registeredAdapters.cache.get? k = some lora) : t.Consistent made loads := by
  have config : t.config = m.config := by rw [deactivated.setup, setup]
  constructor
  · rw [deactivated.setup, setup]
    exact consistent.made
  · rw [deactivated.registered, capacity, config]
    exact consistent.registeredCapacity
  · rw [deactivated.capacity, active, config]
    exact consistent.activeCapacity
  · rw [deactivated.length_slots, slots, config]
    exact consistent.length_slots
  · apply deactivated.slots
    rw [slots, active]
    exact consistent.slots
  · intro k member
    rw [deactivated.keys, active, List.Nodup.mem_erase_iff m.activeAdapters.cache.nodup_keys] at member
    rw [deactivated.registered]
    exact kept k member.1 (consistent.activeRegistered member.2)
  · rw [deactivated.registered, config]
    exact fewer.trans consistent.registeredWithin
  · intro k lora found
    rw [deactivated.registered] at found
    exact consistent.ids k lora (entries k lora found)
  · intro all k lora found
    rw [deactivated.registered] at found
    rw [deactivated.setup, setup]
    exact consistent.accepts all k lora (entries k lora found)

theorem Consistent.active_pop (consistent : m.Consistent made loads) (there : id ∈ m.activeAdapters.cache.keys) :
    (active.pop id m).Consistent made loads :=
  consistent.deactivated (deactivated_pop there) rfl rfl rfl rfl (fun _ _ there => there) (le_refl _)
    fun _ _ found => found

theorem Consistent.deactivated_registered_pop (consistent : m.Consistent made loads) (id : LoraId) :
    Deactivated id { m with registeredAdapters := m.registeredAdapters.pop id } (registered.pop id m) := by
  unfold AdapterLRUCache.pop
  split
  · exact deactivated_deactivateAdapter id _
  · rename_i absent
    rw [Bool.not_eq_true] at absent
    have inactive : id ∉ m.activeAdapters.cache.keys := fun there =>
      AdapterLRUCache.not_contains_iff.mp absent (consistent.activeRegistered there)
    exact ⟨rfl, rfl, rfl, (List.erase_of_not_mem inactive).symm, rfl, fun slots => slots, fun unpinned => unpinned⟩

theorem get?_pop {V : Type} {s : LRUCache LoraId V} {k : LoraId} {value : V}
    (found : (s.pop id).cache.get? k = some value) : s.cache.get? k = some value := by
  have erased : (s.cache.erase id).get? k = some value := found
  rw [Dict.get?_erase] at erased
  split at erased
  · cases erased
  · exact erased

theorem Consistent.registered_pop (consistent : m.Consistent made loads) (id : LoraId) : (registered.pop id m).Consistent made loads := by
  apply consistent.deactivated (consistent.deactivated_registered_pop id) rfl rfl rfl rfl
  · intro k other there
    show k ∈ (m.registeredAdapters.pop id).cache.keys
    rw [keys_pop]
    exact (List.mem_erase_of_ne other).mpr there
  · show (m.registeredAdapters.pop id).cache.keys.length ≤ _
    rw [keys_pop]
    exact List.length_erase_le
  · intro k lora found
    exact get?_pop found

/-! ### What holds within a batch -/

variable {reg act : List LoraId}

def Unpinned (m : LoRAModelManager) : Prop := m.registeredAdapters.pinnedItems = [] ∧ m.activeAdapters.pinnedItems = []

/-- Nothing is pinned, and the adapters of the batch so far were used last. -/
structure Settled (reg act : List LoraId) (m : LoRAModelManager) : Prop where
  unpinned : m.Unpinned
  registered : reg <:+ m.registeredAdapters.cache.keys
  active : act <:+ m.activeAdapters.cache.keys

theorem Settled.deactivated (settled : Settled reg act m) (deactivated : Deactivated id m t) (apart : id ∉ act) :
    Settled reg act t := by
  refine ⟨⟨?_, deactivated.unpinned settled.unpinned.2⟩, ?_, ?_⟩
  · rw [deactivated.registered]
    exact settled.unpinned.1
  · rw [deactivated.registered]
    exact settled.registered
  · rw [deactivated.keys]
    exact recent_erase apart settled.active

theorem Settled.pop (settled : Settled reg act m) (recent : reg <:+ m.registeredAdapters.cache.keys.erase id) :
    Settled reg act { m with registeredAdapters := m.registeredAdapters.pop id } := by
  refine ⟨⟨pop_unpinned settled.unpinned.1, settled.unpinned.2⟩, ?_, settled.active⟩
  show reg <:+ (m.registeredAdapters.pop id).cache.keys
  rw [keys_pop]
  exact recent

/-! ### One adapter becomes active -/

theorem makeRoom_wp (consistent : m.Consistent made loads) (id : LoraId) : wp (makeRoom id)
    (fun _ t => t.Consistent made loads ∧ t.toManagerSetup = m.toManagerSetup ∧ t.registeredAdapters = m.registeredAdapters ∧
      (id ∈ t.activeAdapters.cache.keys ∨ t.activeAdapters.cache.keys.length < m.config.maxLoras) ∧
        ∀ reg act, Settled reg act m → act.length < m.config.maxLoras → Settled reg act t)
    (fun _ t => t.Consistent made loads ∧ ¬m.Unpinned) m := by
  unfold makeRoom
  rw [wp_bind, wp_get, wp_ite]
  constructor
  · rintro ⟨-, full⟩
    have many : m.config.maxLoras ≤ m.activeAdapters.cache.keys.length := by
      rw [AdapterLRUCache.len_eq] at full
      exact full
    refine (AdapterLRUCache.removeOldest_wp false).mono ?_ ?_
    · rintro - t (⟨empty, -⟩ | ⟨key, there, rfl, oldest⟩)
      · have positive := m.config.one_le_maxLoras
        rw [AdapterLRUCache.len_eq] at empty
        have none : m.activeAdapters.cache.keys.length = 0 := empty
        omega
      · have deactivated := deactivated_pop there
        refine ⟨consistent.active_pop there, deactivated.setup, deactivated.registered, .inr ?_, ?_⟩
        · have member : key ∈ m.activeAdapters.cache.keys := there
          rw [deactivated.keys, List.length_erase_of_mem member]
          have within := consistent.activeWithin
          have positive := List.length_pos_of_mem member
          omega
        · intro reg act settled few
          exact settled.deactivated deactivated (recent_oldest m.activeAdapters.cache.nodup_keys settled.active
            (lt_of_lt_of_le few many) (oldest settled.unpinned.2)).1
    · rintro - t ⟨rfl, -, pinned⟩
      exact ⟨consistent, fun unpinned => pinned unpinned.2⟩
  · intro roomy
    refine ⟨consistent, rfl, rfl, ?_, fun _ _ settled _ => settled⟩
    by_cases there : id ∈ m.activeAdapters.cache.keys
    · exact .inl there
    · apply Or.inr
      by_contra full
      apply roomy
      rw [AdapterLRUCache.len_eq, AdapterLRUCache.not_contains_iff]
      exact ⟨there, Nat.le_of_not_lt full⟩

/-- The state in which the layers are given the weights. -/
def inSlot (m : LoRAModelManager) (id : LoraId) (index : ℕ) : LoRAModelManager :=
  { m with
    registeredAdapters := m.registeredAdapters.touch id
    activeAdapters :=
      ({ m.activeAdapters with cache := m.activeAdapters.cache.insert id () } : LRUCache LoraId Unit).touch id
    loraIndexToId := m.loraIndexToId.set index (some id) }

section
variable (consistent : m.Consistent made loads)
include consistent

theorem Consistent.inSlot {index : ℕ} (there : id ∈ m.registeredAdapters.cache.keys)
    (fresh : id ∉ m.activeAdapters.cache.keys) (free : m.loraIndexToId.idxOf? none = some index) :
    (m.inSlot id index).Consistent made loads := by
  constructor
  · exact consistent.made
  · exact capacity_touch.trans consistent.registeredCapacity
  · exact capacity_touch.trans consistent.activeCapacity
  · exact List.length_set.trans consistent.length_slots
  · apply (reduceOption_taken free).trans
    show (m.loraIndexToId.reduceOption ++ [id]).Perm (LRUCache.touch _ id).cache.keys
    rw [keys_put, List.erase_of_not_mem fresh]
    exact consistent.slots.append_right [id]
  · show (LRUCache.touch _ id).cache.keys ⊆ (m.registeredAdapters.touch id).cache.keys
    rw [keys_put, keys_touch there, List.erase_of_not_mem fresh]
    intro k member
    rcases List.mem_append.mp member with before | new
    · by_cases same : k = id
      · rw [same]
        exact List.mem_append_right _ List.mem_cons_self
      · exact List.mem_append_left _ ((List.mem_erase_of_ne same).mpr (consistent.activeRegistered before))
    · exact List.mem_append_right _ new
  · show (m.registeredAdapters.touch id).cache.keys.length ≤ m.config.maxCpuLoras
    rw [keys_touch there, List.length_append, List.length_erase_of_mem there, List.length_singleton]
    have positive := List.length_pos_of_mem there
    have within := consistent.registeredWithin
    omega
  · intro k lora found
    exact consistent.ids k lora (LRUCache.get?_touch.symm.trans found)
  · intro all k lora found
    exact consistent.accepts all k lora (LRUCache.get?_touch.symm.trans found)

theorem Consistent.dropped {lora lora' : LoRAModel} (same : lora'.id = lora.id)
    (there : m.registeredAdapters.cache.get? lora.id = some lora) (refused : ¬m.Accepts lora.toCheckpoint) :
    Consistent made loads { m with registeredAdapters := { m.registeredAdapters with
      cache := m.registeredAdapters.cache.insert lora'.id lora' } } := by
  have keys : (m.registeredAdapters.cache.insert lora'.id lora').keys = m.registeredAdapters.cache.keys := by
    apply Dict.keys_insert_of_mem
    rw [same]
    exact Dict.mem_keys_iff.mpr ⟨lora, there⟩
  refine ⟨consistent.made, consistent.registeredCapacity, consistent.activeCapacity, consistent.length_slots, consistent.slots, ?_, ?_, ?_,
    fun all => absurd (consistent.accepts all _ _ there) refused⟩
  · intro k member
    show k ∈ (m.registeredAdapters.cache.insert lora'.id lora').keys
    rw [keys]
    exact consistent.activeRegistered member
  · show (m.registeredAdapters.cache.insert lora'.id lora').keys.length ≤ _
    rw [keys]
    exact consistent.registeredWithin
  · intro k other found
    have inserted : (m.registeredAdapters.cache.insert lora'.id lora').get? k = some other := found
    rw [Dict.get?_insert] at inserted
    split at inserted
    · rename_i mine
      cases inserted
      exact mine.symm
    · exact consistent.ids k other inserted

theorem setLoras_wp {lora : LoRAModel}
    (there : m.registeredAdapters.cache.get? lora.id = some lora) : wp (setLoras lora)
    (fun _ t => t = m) (fun _ t => t.Consistent made loads ∧ ¬loads) m := by
  unfold setLoras
  rw [wp_bind, wp_get]
  split
  · rfl
  · rename_i name refused
    have refuses : ¬m.Accepts lora.toCheckpoint := by
      intro accepts
      rw [accepts.1] at refused
      cases refused
    rw [wp_bind, wp_set, wp_throw]
    exact ⟨@Consistent.dropped _ _ m consistent lora _ rfl there refuses,
      fun all => refuses (consistent.accepts all _ _ there)⟩

/-- An adapter that is active already stays as it is. -/
theorem activateInSlot_wp (there : id ∈ m.registeredAdapters.cache.keys)
    (room : id ∈ m.activeAdapters.cache.keys ∨ m.activeAdapters.cache.keys.length < m.config.maxLoras) :
    wp (activateInSlot id)
      (fun _ t => t.Consistent made loads ∧ (id ∈ m.activeAdapters.cache.keys ∧ t = m ∨
        id ∉ m.activeAdapters.cache.keys ∧ ∃ index, t = m.inSlot id index))
      (fun _ t => t.Consistent made loads ∧ ¬loads) m := by
  unfold activateInSlot
  rw [wp_bind, wp_get, wp_ite]
  constructor
  · intro inside
    exact ⟨consistent, .inl ⟨AdapterLRUCache.contains_iff.mp inside, rfl⟩⟩
  · intro outside
    rw [Bool.not_eq_true] at outside
    have fresh : id ∉ m.activeAdapters.cache.keys := AdapterLRUCache.not_contains_iff.mp outside
    have roomy := room.resolve_left fresh
    split
    · rename_i taken
      exact absurd taken (consistent.freeSlot roomy)
    · rename_i index free
      obtain ⟨lora, found⟩ := Dict.mem_keys_iff.mp there
      have same := consistent.ids id lora found
      have put := @AdapterLRUCache.put_within _ _ active m id () (fun _ _ => rfl) (by
        show (m.activeAdapters.cache.keys.erase id).length < m.activeAdapters.capacity
        rw [List.erase_of_not_mem fresh, consistent.activeCapacity]
        exact roomy)
      rw [wp_bind, wp_of_ok put]
      unfold AdapterLRUCache.item
      rw [wp_bind, wp_bind, wp_get]
      have known : ((registered.cache (active.setCache (LRUCache.touch
          { active.cache m with cache := (active.cache m).cache.insert id () } id)
          (active.setCache { active.cache m with cache := (active.cache m).cache.insert id () } m))).cache.get? id) =
          some lora := found
      rw [wp_bind, known]
      show wp (setLoras lora >>= fun _ => pure true) _ _ (LoRAModelManager.mk _ _ _ _)
      rw [same]
      have kept : (m.inSlot id index).registeredAdapters.cache.get? lora.id = some lora := by
        rw [same]
        exact LRUCache.get?_touch.trans found
      rw [wp_bind]
      have placed := consistent.inSlot there fresh free
      refine (setLoras_wp placed kept).mono ?_ fun _ _ raised => raised
      rintro - t rfl
      exact ⟨placed, .inr ⟨fresh, index, rfl⟩⟩

theorem Consistent.touch_active (there : id ∈ m.activeAdapters.cache.keys) :
    Consistent made loads { m with activeAdapters := m.activeAdapters.touch id } := by
  have same := perm_used there
  rw [← keys_touch there] at same
  refine ⟨consistent.made, consistent.registeredCapacity, capacity_touch.trans consistent.activeCapacity, consistent.length_slots,
    consistent.slots.trans same.symm, fun k member => ?_, consistent.registeredWithin, consistent.ids,
    consistent.accepts⟩
  exact consistent.activeRegistered (same.subset member)

theorem Consistent.touch_registered (there : id ∈ m.registeredAdapters.cache.keys) :
    Consistent made loads { m with registeredAdapters := m.registeredAdapters.touch id } := by
  have same := perm_used there
  rw [← keys_touch there] at same
  refine ⟨consistent.made, capacity_touch.trans consistent.registeredCapacity, consistent.activeCapacity, consistent.length_slots,
    consistent.slots, fun k member => ?_, ?_, fun k lora found => ?_, fun all k lora found => ?_⟩
  · exact same.symm.subset (consistent.activeRegistered member)
  · exact same.length_eq.trans_le consistent.registeredWithin
  · exact consistent.ids k lora (LRUCache.get?_touch.symm.trans found)
  · exact consistent.accepts all k lora (LRUCache.get?_touch.symm.trans found)

end

theorem Settled.touch_active (settled : Settled reg act m) (there : id ∈ m.activeAdapters.cache.keys) (apart : id ∉ act) :
    Settled reg (act ++ [id]) { m with activeAdapters := m.activeAdapters.touch id } := by
  refine ⟨⟨settled.unpinned.1, LRUCache.touch_pinnedItems.trans settled.unpinned.2⟩, settled.registered, ?_⟩
  show act ++ [id] <:+ (m.activeAdapters.touch id).cache.keys
  rw [keys_touch there]
  exact recent_used apart settled.active

theorem Settled.inSlot {index : ℕ} (settled : Settled (reg ++ [id]) act m) (there : id ∈ m.registeredAdapters.cache.keys)
    (apart : id ∉ act) : Settled (reg ++ [id]) (act ++ [id])
      { m.inSlot id index with activeAdapters := (m.inSlot id index).activeAdapters.touch id } := by
  have keys : (m.inSlot id index).activeAdapters.cache.keys = m.activeAdapters.cache.keys.erase id ++ [id] := keys_put
  refine ⟨⟨LRUCache.touch_pinnedItems.trans settled.unpinned.1, ?_⟩, ?_, ?_⟩
  · exact LRUCache.touch_pinnedItems.trans (LRUCache.touch_pinnedItems.trans settled.unpinned.2)
  · show reg ++ [id] <:+ (m.registeredAdapters.touch id).cache.keys
    rw [keys_touch there]
    exact recent_again m.registeredAdapters.cache.nodup_keys settled.registered
  · show act ++ [id] <:+ ((m.inSlot id index).activeAdapters.touch id).cache.keys
    rw [keys_touch (by rw [keys]; exact List.mem_append_right _ List.mem_cons_self), keys,
      used_again m.activeAdapters.cache.nodup_keys]
    exact recent_used apart settled.active

theorem activateAdapter_wp (consistent : m.Consistent made loads) (there : id ∈ m.registeredAdapters.cache.keys) :
    wp (activateAdapter id)
      (fun _ t => t.Consistent made loads ∧ t.toManagerSetup = m.toManagerSetup ∧ id ∈ t.activeAdapters.cache.keys ∧
        ∀ reg act, Settled (reg ++ [id]) act m → id ∉ act → act.length < m.config.maxLoras →
          Settled (reg ++ [id]) (act ++ [id]) t)
      (fun _ t => t.Consistent made loads ∧ (¬m.Unpinned ∨ ¬loads)) m := by
  unfold activateAdapter
  rw [wp_bind]
  refine (makeRoom_wp consistent id).mono ?_ ?_
  · rintro - u ⟨consistent, setup, registered, room, settles⟩
    rw [wp_bind]
    have there' : id ∈ u.registeredAdapters.cache.keys := by
      rw [registered]
      exact there
    have room' : id ∈ u.activeAdapters.cache.keys ∨ u.activeAdapters.cache.keys.length < u.config.maxLoras := by
      rw [setup]
      exact room
    refine (activateInSlot_wp consistent there' room').mono ?_ ?_
    · rintro result v ⟨consistent, placed⟩
      have inside : id ∈ v.activeAdapters.cache.keys := by
        rcases placed with ⟨inside, rfl⟩ | ⟨-, index, rfl⟩
        · exact inside
        · show id ∈ (LRUCache.touch _ id).cache.keys
          rw [keys_put]
          exact List.mem_append_right _ List.mem_cons_self
      unfold AdapterLRUCache.touch
      rw [wp_bind, wp_bind, wp_get, if_pos (AdapterLRUCache.contains_iff.mpr inside), wp_set]
      refine ⟨consistent.touch_active inside, ?_, ?_, ?_⟩
      · rcases placed with ⟨-, rfl⟩ | ⟨-, index, rfl⟩
        · exact setup
        · exact setup
      · show id ∈ (v.activeAdapters.touch id).cache.keys
        rw [keys_touch inside]
        exact List.mem_append_right _ List.mem_cons_self
      · intro reg act settled apart few
        have settled := settles _ _ settled few
        rcases placed with ⟨-, rfl⟩ | ⟨-, index, rfl⟩
        · exact settled.touch_active inside apart
        · exact settled.inSlot there' apart
    · rintro - v ⟨consistent, refused⟩
      exact ⟨consistent, .inr refused⟩
  · rintro - u ⟨consistent, pinned⟩
    exact ⟨consistent, .inl pinned⟩

end LoRAModelManager
end
end Vllm.Lora
