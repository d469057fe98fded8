import VllmProofs.Data.Runs
import VllmProofs.V1.FreeBlockQueue

/-!
Runs of `FreeKVCacheBlockQueue` beside a plain list of blocks. The links of the blocks stand for the list
after `__init__` and after every operation, as long as each is called as its users call it.
-/

namespace Vllm.V1.FreeKVCacheBlockQueue
open Exec

/-- The loop of `__init__`, from the block after `previous` on. -/
def linkEach : Option BlockId → List BlockId → FreeKVCacheBlockQueue → FreeKVCacheBlockQueue
  | _, [], q => q
  | previous, b :: rest, q =>
    let q := if previous.isSome then q.setPrev b previous else q
    let q := if rest.head?.isSome then q.setNext b rest.head? else q
    linkEach (some b) rest q

/-- `__init__`; `blocks[0]` raises when there are no blocks. -/
def construct (blocks : BlockId → KVCacheBlock) (ids : List BlockId) : Except PyError FreeKVCacheBlockQueue :=
  match ids.head?, ids.getLast? with
  | some head, some tail => .ok (linkEach none ids
      { blocks, numFreeBlocks := ids.length, freeListHead := some head, freeListTail := some tail })
  | _, _ => .error .indexError

inductive Op where
  | popleft
  | remove (b : BlockId)
  | append (b : BlockId)
  deriving DecidableEq, Repr

/-- An operation on the queue, with the block it returns. -/
def Op.call : Op → Call FreeKVCacheBlockQueue (Option BlockId)
  | .popleft => some <$> FreeKVCacheBlockQueue.popleft
  | .remove b => do
    modify fun q => q.remove b
    return none
  | .append b => do
    FreeKVCacheBlockQueue.append b
    return none

/-- The operation on a plain list, where its precondition holds. -/
def Op.onList (xs : List BlockId) : Op → Option (Option BlockId × List BlockId)
  | .popleft => xs.head?.map fun b => (some b, xs.tail)
  | .remove b => if b ∈ xs then some (none, xs.erase b) else none
  | .append b => if b ∈ xs then none else some (none, xs ++ [b])

/-- An operation of a run, and what it returned. -/
structure Event where
  op : Op
  returned : Option BlockId

def ListStep (xs : List BlockId) (e : Event) (ys : List BlockId) : Prop := e.op.onList xs = some (e.returned, ys)

def Step (q : FreeKVCacheBlockQueue) (e : Event) (t : FreeKVCacheBlockQueue) : Prop :=
  e.op.call q = .ok e.returned t

variable {q : FreeKVCacheBlockQueue} {blocks : BlockId → KVCacheBlock} {ids xs ys : List BlockId}
  {previous : Option BlockId} {b : BlockId} {e : Event}

theorem linkEach_rest (previous : Option BlockId) (ids : List BlockId) (q : FreeKVCacheBlockQueue) :
    (linkEach previous ids q).numFreeBlocks = q.numFreeBlocks ∧
      (linkEach previous ids q).freeListHead = q.freeListHead ∧
      (linkEach previous ids q).freeListTail = q.freeListTail := by
  induction ids generalizing previous q with
  | nil => exact ⟨rfl, rfl, rfl⟩
  | cons b rest ih =>
    unfold linkEach
    obtain ⟨count, head, tail⟩ := ih (some b) _
    rw [count, head, tail]
    cases previous <;> cases rest <;> exact ⟨rfl, rfl, rfl⟩

theorem linkEach_outside (outside : b ∉ ids) : (linkEach previous ids q).blocks b = q.blocks b := by
  induction ids generalizing previous q with
  | nil => rfl
  | cons c rest ih =>
    have different : b ≠ c := List.ne_of_not_mem_cons outside
    unfold linkEach
    rw [ih (List.not_mem_of_not_mem_cons outside)]
    cases previous <;> cases rest <;> simp [setPrev, setNext, update, Function.update_of_ne different]

theorem linkEach_first (nodup : (b :: ids).Nodup) (fresh : previous = none → (q.blocks b).prevFreeBlock = none)
    (last : ids = [] → (q.blocks b).nextFreeBlock = none) :
    ((linkEach previous (b :: ids) q).blocks b).prevFreeBlock = previous ∧
      ((linkEach previous (b :: ids) q).blocks b).nextFreeBlock = ids.head? := by
  unfold linkEach
  rw [linkEach_outside (List.nodup_cons.mp nodup).1]
  cases previous with
  | none => cases ids <;> simp_all [setNext, update]
  | some p => cases ids <;> simp_all [setPrev, setNext, update]

theorem linked_linkEach (nodup : ids.Nodup) (fresh : ∀ c ∈ ids, (q.blocks c).prevFreeBlock = none ∧
    (q.blocks c).nextFreeBlock = none) : Linked (linkEach previous ids q).blocks none previous ids := by
  induction ids generalizing previous q with
  | nil => trivial
  | cons b rest ih =>
    have own := fresh b List.mem_cons_self
    obtain ⟨prev, next⟩ := @linkEach_first q rest previous b nodup (fun _ => own.1) fun _ => own.2
    refine ⟨prev, ?_, ?_⟩
    · rw [next, Option.or_none]
    · unfold linkEach
      apply ih (List.nodup_cons.mp nodup).2
      intro c member
      have different : c ≠ b := fun same => (List.nodup_cons.mp nodup).1 (same ▸ member)
      have old := fresh c (List.mem_cons_of_mem b member)
      cases previous <;> cases rest <;> simpa [setPrev, setNext, update, Function.update_of_ne different] using old

theorem linkEach_content : (linkEach previous ids q).content = q.content := by
  induction ids generalizing previous q with
  | nil => rfl
  | cons b rest ih =>
    unfold linkEach
    rw [ih]
    funext c
    by_cases same : c = b
    · subst same
      cases previous <;> cases rest <;> simp [content, setPrev, setNext, update]
    · cases previous <;> cases rest <;> simp [content, setPrev, setNext, update, Function.update_of_ne same]

/-- `__init__` on blocks that are not linked to others. -/
theorem construct_represents (nodup : ids.Nodup) (nonempty : ids ≠ [])
    (fresh : ∀ b, (blocks b).prevFreeBlock = none ∧ (blocks b).nextFreeBlock = none) :
    ∃ q, construct blocks ids = .ok q ∧ q.Represents ids ∧ (∀ b ∉ ids, q.blocks b = blocks b) ∧
      q.content = fun b => ((blocks b).refCnt, (blocks b).blockHash) := by
  have first := List.head?_eq_some_head nonempty
  have last := List.getLast?_eq_some_getLast nonempty
  generalize ids.head nonempty = head at first
  generalize ids.getLast nonempty = tail at last
  refine ⟨_, by rw [construct, first, last], ?_, fun b outside => linkEach_outside outside, linkEach_content⟩
  obtain ⟨count, atHead, atTail⟩ := linkEach_rest none ids
    { blocks, numFreeBlocks := ids.length, freeListHead := some head, freeListTail := some tail }
  constructor
  · rw [atHead, first]
  · rw [atTail, last]
  · rw [count]
  · exact nodup
  · apply linked_linkEach nodup
    intro c _
    exact fresh c
  · intro b outside
    rw [linkEach_outside outside]
    exact (fresh b).1

theorem Represents.step (h : q.Represents xs) (allowed : ListStep xs e ys) :
    ∃ t, Step q e t ∧ t.Represents ys := by
  obtain ⟨op, returned⟩ := e
  unfold ListStep at allowed
  unfold Step
  cases op with
  | popleft =>
    cases xs with
    | nil => cases allowed
    | cons b rest =>
      cases allowed
      obtain ⟨represents, -⟩ := @Represents.remove q [] rest b h
      refine ⟨q.remove b, ?_, represents⟩
      show (some <$> popleft) q = _
      rw [map_apply, popleft_of_cons h]
  | remove b =>
    simp only [Op.onList] at allowed
    split at allowed
    · rename_i member
      cases allowed
      obtain ⟨left, right, rfl⟩ := List.append_of_mem member
      have notLeft := (nodup_middle h.nodup).1
      refine ⟨q.remove b, rfl, ?_⟩
      rw [List.erase_append_right _ notLeft, List.erase_cons_head]
      exact h.remove.1
    · cases allowed
  | append b =>
    simp only [Op.onList] at allowed
    split at allowed
    · cases allowed
    · rename_i absent
      cases allowed
      obtain ⟨t, call, represents, -⟩ := append_ok h absent
      exact ⟨t, bind_of_ok call, represents⟩

theorem Represents.run {history : List Event} (h : q.Represents xs) (run : Run ListStep xs history ys) :
    ∃ t, Run Step q history t ∧ t.Represents ys := by
  induction run with
  | start => exact ⟨q, .start, h⟩
  | call _ allowed ih =>
    obtain ⟨t, before, represents⟩ := ih
    obtain ⟨u, stepped, now⟩ := represents.step allowed
    exact ⟨u, .call before stepped, now⟩

/-- What the queue shows is the list that the same operations leave of the blocks it was built from. -/
theorem run_refines {history : List Event} (nodup : ids.Nodup) (nonempty : ids ≠ [])
    (fresh : ∀ b, (blocks b).prevFreeBlock = none ∧ (blocks b).nextFreeBlock = none)
    (run : Run ListStep ids history ys) :
    ∃ start q, construct blocks ids = .ok start ∧ Run Step start history q ∧ q.Represents ys ∧
      ∀ n, ys.length ≤ n → q.getAllFreeBlocks n = ys := by
  obtain ⟨start, built, represents, -, -⟩ := construct_represents nodup nonempty fresh
  obtain ⟨q, steps, shown⟩ := represents.run run
  exact ⟨start, q, built, steps, shown, fun n enough => shown.getAllFreeBlocks enough⟩

/-- Taking the head, the middle and the last block, and putting one back. -/
def shuffled : List Event :=
  [⟨.append 7, none⟩, ⟨.popleft, some 9⟩, ⟨.remove 4, none⟩, ⟨.popleft, some 7⟩]

theorem run_refines_shuffled : ∃ start q, construct (fun _ => {}) [7, 4, 9] = .ok start ∧
    Run Step start shuffled q ∧ q.Represents [7] ∧ ∀ n, [7].length ≤ n → q.getAllFreeBlocks n = [7] := by
  apply run_refines (by decide) (by decide) (fun _ => ⟨rfl, rfl⟩)
  exact .call (.call (.call (.call .start rfl) rfl) rfl) rfl

end Vllm.V1.FreeKVCacheBlockQueue
