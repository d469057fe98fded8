import VllmProofs.Evictor.Interface
import VllmProofs.Evictor.LruOrder

/-!
What the allocator's bookkeeping needs of an evictor: `evict` gives up a resident block, whatever
content hash it names, and every call moves only the block it is about.
-/

namespace Vllm
open Exec Evictor

def residents {ε : Type} [Evictor ε] (s : ε) : Set BlockId := {b | contains s b = true}

class LawfulEvictor (ε : Type) [Evictor ε] : Prop where
  evict_ok : ∀ {s t : ε} {b h}, evict s = .ok (b, h) t → b ∈ residents s ∧
    residents t = residents s \ {b}
  add_ok : ∀ {s t : ε} {b h n time hint u}, add b h n time hint s = .ok u t →
    residents t = insert b (residents s)
  update_ok : ∀ {s t : ε} {b time hint u}, update b time hint s = .ok u t → residents t = residents s
  remove_ok : ∀ {s t : ε} {b u}, remove b s = .ok u t → residents t = residents s \ {b}
  evict_avoids : Avoids .noFreeBlocksError (evict : Method ε _)
  add_avoids : ∀ b h n time hint, Avoids .noFreeBlocksError (add b h n time hint : Method ε _)
  update_avoids : ∀ b time hint, Avoids .noFreeBlocksError (update b time hint : Method ε _)
  remove_avoids : ∀ b, Avoids .noFreeBlocksError (remove b : Method ε _)

namespace Evictor.LRUEvictor

variable {s : LRUEvictor} {b : BlockId}

theorem mem_residents : b ∈ residents s ↔ s.freeTable.contains b = true := Iff.rfl

variable {t : LRUEvictor}

theorem residents_insert {block : BlockMetaData}
    (table : t.freeTable = s.freeTable.insert b block) : residents t = insert b (residents s) := by
  ext c
  rw [Set.mem_insert_iff, mem_residents, mem_residents, table]
  by_cases same : c = b <;> simp [Dict.contains, Dict.get?_insert, same]

theorem residents_erase
    (table : t.freeTable = s.freeTable.erase b) : residents t = residents s \ {b} := by
  ext c
  rw [Set.mem_sdiff, mem_residents, mem_residents, table]
  by_cases same : c = b <;> simp [Dict.contains, Dict.get?_erase, same]

theorem evict_ok {h : PrefixHash} (call : evict s = .ok (b, h) t) :
    b ∈ residents s ∧ residents t = residents s \ {b} := by
  by_cases empty : s.freeTable.size = 0
  · rw [evict_empty empty] at call
    cases call
  · cases popped : s.priorityQueue.popUntil (valid s.freeTable) with
    | none =>
      rw [evict_outdated empty popped] at call
      cases call
    | some pair =>
      rw [evict_popped empty popped] at call
      cases call
      obtain ⟨-, isValid, -⟩ := Heapq.popUntil_some popped
      refine ⟨?_, residents_erase rfl⟩
      rw [mem_residents, Dict.contains_iff]
      unfold valid at isValid
      split at isValid
      · exact ⟨_, ‹_›⟩
      · cases isValid

theorem update_ok' {time : Time} {hint : Option CacheHint}
    (call : update b time hint s = .ok () t) : residents t = residents s := by
  cases hint with
  | none => cases call
  | some hint =>
    cases resident : s.freeTable.get? b with
    | none =>
      rw [update_absent resident] at call
      cases call
    | some block =>
      rw [update_ok resident] at call
      cases call
      rw [residents_insert (s := s) rfl, Set.insert_eq_of_mem]
      exact mem_residents.mpr (Dict.contains_iff.mpr ⟨block, resident⟩)

theorem remove_resident (call : remove b s = .ok () t) : residents t = residents s \ {b} := by
  cases present : s.freeTable.contains b with
  | false => simp [remove, bind_apply, present] at call
  | true =>
    rw [remove_ok present] at call
    cases call
    exact residents_erase rfl

theorem add_total (b : BlockId) (h : PrefixHash) (n : ℕ) (time : Time) (hint : Option CacheHint)
    (s : LRUEvictor) : ∃ t, add b h n time hint s = .ok () t ∧
      residents t = insert b (residents s) :=
  ⟨_, rfl, residents_insert (by simp; rfl)⟩

theorem evict_avoids : Avoids .noFreeBlocksError evict := by
  intro s t raised
  by_cases empty : s.freeTable.size = 0
  · rw [evict_empty empty] at raised
    cases raised
  · cases popped : s.priorityQueue.popUntil (valid s.freeTable) with
    | none =>
      rw [evict_outdated empty popped] at raised
      cases raised
    | some pair =>
      rw [evict_popped empty popped] at raised
      cases raised

theorem update_avoids (b : BlockId) (time : Time) (hint : Option CacheHint) :
    Avoids .noFreeBlocksError (update b time hint) := by
  intro s t raised
  cases hint with
  | none => cases raised
  | some hint =>
    cases resident : s.freeTable.get? b with
    | none =>
      rw [update_absent resident] at raised
      cases raised
    | some block =>
      rw [update_ok resident] at raised
      cases raised

theorem remove_avoids (b : BlockId) : Avoids .noFreeBlocksError (remove b) := by
  intro s t raised
  cases present : s.freeTable.contains b with
  | false => simp [remove, bind_apply, present] at raised
  | true =>
    rw [remove_ok present] at raised
    cases raised

instance : LawfulEvictor LRUEvictor where
  evict_ok call := evict_ok call
  add_ok := by
    intro s t b h n time hint u call
    obtain ⟨t', added, same⟩ := add_total b h n time hint s
    rw [show Evictor.add b h n time hint s = .ok () t' from added] at call
    cases call
    exact same
  update_ok call := update_ok' call
  remove_ok call := remove_resident call
  evict_avoids := evict_avoids
  add_avoids := by
    intro b h n time hint s t raised
    cases raised
  update_avoids := update_avoids
  remove_avoids := remove_avoids

end Evictor.LRUEvictor
end Vllm
