import Mathlib

/-!
Priority queues (`heapq`). What can be observed of a binary heap is the order in which it gives
up its entries, so the entries are kept in that order.
-/

namespace Vllm

structure Heapq (α : Type) [LinearOrder α] where
  entries : List α
  sorted : entries.Pairwise (· ≤ ·)

namespace Heapq

variable {α : Type} [LinearOrder α]

def empty : Heapq α := ⟨[], List.Pairwise.nil⟩

instance : EmptyCollection (Heapq α) := ⟨empty⟩

@[simp] theorem entries_empty : (∅ : Heapq α).entries = [] := rfl

def push (q : Heapq α) (x : α) : Heapq α :=
  ⟨q.entries.orderedInsert (· ≤ ·) x, q.sorted.orderedInsert x _⟩

def heapify (xs : List α) : Heapq α :=
  ⟨xs.insertionSort (· ≤ ·), List.pairwise_insertionSort _ xs⟩

/-- `heapq.heappop` until an entry satisfies `p`: that entry and the queue left behind. -/
def popUntil (p : α → Bool) (q : Heapq α) : Option (α × Heapq α) :=
  match h : q.entries.dropWhile (fun x => !p x) with
  | [] => none
  | x :: rest => some (x, ⟨rest, (List.pairwise_cons.mp
      (h ▸ q.sorted.sublist (List.dropWhile_sublist _))).2⟩)

variable {q : Heapq α}

@[simp] theorem mem_push {x y : α} : y ∈ (q.push x).entries ↔ y = x ∨ y ∈ q.entries := by
  simp [push]

@[simp] theorem mem_heapify {xs : List α} {y : α} : y ∈ (heapify xs).entries ↔ y ∈ xs := by
  simp [heapify]

variable {p : α → Bool}

theorem popUntil_none (h : q.popUntil p = none) : ∀ x ∈ q.entries, p x = false := by
  unfold popUntil at h
  split at h
  · rename_i dropped
    simpa using List.dropWhile_eq_nil_iff.mp dropped
  · cases h

/-- The popped entry is the least one that satisfies `p`. -/
theorem popUntil_some {r : Heapq α} {x : α} (h : q.popUntil p = some (x, r)) :
    x ∈ q.entries ∧ p x = true ∧ (∀ y ∈ q.entries, p y = true → x ≤ y) ∧
      ∀ y ∈ r.entries, y ∈ q.entries := by
  unfold popUntil at h
  split at h
  · cases h
  · rename_i head rest dropped
    cases h
    have suffix := List.takeWhile_append_dropWhile (p := fun x => !p x) (l := q.entries)
    rw [dropped] at suffix
    have kept : p x = true := by
      simpa [dropped] using List.head_dropWhile_not (fun x => !p x) (l := q.entries) (by simp [dropped])
    have sorted := q.sorted
    rw [← suffix] at sorted
    refine ⟨by rw [← suffix]; simp, kept, ?_, ?_⟩
    · intro y member valid
      rw [← suffix] at member
      rcases List.mem_append.mp member with early | late
      · have := List.mem_takeWhile_imp early
        simp [valid] at this
      · rcases List.mem_cons.mp late with same | later
        · exact same ▸ le_refl _
        · exact (List.pairwise_cons.mp (List.pairwise_append.mp sorted).2.1).1 y later
    · intro y member
      rw [← suffix]
      simp [member]

/-- Popping until `p` loses no entry that satisfies `p`, the popped one apart. -/
theorem popUntil_keeps {r : Heapq α} {x y : α} (h : q.popUntil p = some (x, r))
    (member : y ∈ q.entries) (valid : p y = true) : y = x ∨ y ∈ r.entries := by
  unfold popUntil at h
  split at h
  · cases h
  · rename_i head rest dropped
    cases h
    rw [← List.takeWhile_append_dropWhile (p := fun x => !p x) (l := q.entries), dropped] at member
    rcases List.mem_append.mp member with early | late
    · have := List.mem_takeWhile_imp early
      simp [valid] at this
    · exact List.mem_cons.mp late

end Heapq
end Vllm
