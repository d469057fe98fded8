import VllmProofs.V1.BlockHash

/-!
`FreeKVCacheBlockQueue`: the free blocks as a doubly linked list that runs through the block
objects themselves, and the sequence of blocks it stands for.
-/

namespace Vllm.V1
open Exec

structure KVCacheBlock where
  refCnt : ℤ := 0
  blockHash : Option BlockHash := none
  prevFreeBlock : Option BlockId := none
  nextFreeBlock : Option BlockId := none

structure FreeKVCacheBlockQueue where
  blocks : BlockId → KVCacheBlock
  numFreeBlocks : ℤ
  freeListHead : Option BlockId
  freeListTail : Option BlockId

namespace FreeKVCacheBlockQueue

/-- `__init__` for `n` fresh blocks, which must be some. -/
def init (n : ℕ) : FreeKVCacheBlockQueue where
  blocks i :=
    { prevFreeBlock := if 0 < i ∧ i < n then some (i - 1) else none
      nextFreeBlock := if i + 1 < n then some (i + 1) else none }
  numFreeBlocks := n
  freeListHead := some 0
  freeListTail := some (n - 1)

def update (q : FreeKVCacheBlockQueue) (b : BlockId) (f : KVCacheBlock → KVCacheBlock) :
    FreeKVCacheBlockQueue := { q with blocks := Function.update q.blocks b (f (q.blocks b)) }

def setNext (q : FreeKVCacheBlockQueue) (b : BlockId) (next : Option BlockId) :
    FreeKVCacheBlockQueue := q.update b fun block => { block with nextFreeBlock := next }

def setPrev (q : FreeKVCacheBlockQueue) (b : BlockId) (prev : Option BlockId) :
    FreeKVCacheBlockQueue := q.update b fun block => { block with prevFreeBlock := prev }

def bypass (q : FreeKVCacheBlockQueue) (b : BlockId) : FreeKVCacheBlockQueue :=
  let q := match (q.blocks b).prevFreeBlock with
    | none => q
    | some prev => q.setNext prev (q.blocks b).nextFreeBlock
  match (q.blocks b).nextFreeBlock with
  | none => q
  | some next => q.setPrev next (q.blocks b).prevFreeBlock

def remove (q : FreeKVCacheBlockQueue) (b : BlockId) : FreeKVCacheBlockQueue :=
  let q := q.bypass b
  let block := q.blocks b
  { blocks := Function.update q.blocks b { block with prevFreeBlock := none, nextFreeBlock := none }
    numFreeBlocks := q.numFreeBlocks - 1
    freeListHead := if some b = q.freeListHead then block.nextFreeBlock else q.freeListHead
    freeListTail := if some b = q.freeListTail then block.prevFreeBlock else q.freeListTail }

def popleft : Call FreeKVCacheBlockQueue BlockId := do
  let q ← get
  match q.freeListHead with
  | none => throw (.valueError "No free blocks available")
  | some b =>
    set (q.remove b)
    return b

def append (b : BlockId) : Call FreeKVCacheBlockQueue Unit := do
  let q ← get
  match q.freeListTail with
  | some tail =>
    let q := (q.setNext tail (some b)).setPrev b (some tail)
    set { q.setNext b none with freeListTail := some b, numFreeBlocks := q.numFreeBlocks + 1 }
  | none =>
    check .freeListIsEmpty (q.freeListHead = none)
    set { q.setNext b none with
      freeListHead := some b, freeListTail := some b, numFreeBlocks := q.numFreeBlocks + 1 }

/-- The loop of `get_all_free_blocks`, for as long a list as there are blocks. -/
def walk (q : FreeKVCacheBlockQueue) : ℕ → Option BlockId → List BlockId
  | 0, _ => []
  | _ + 1, none => []
  | n + 1, some b => b :: q.walk n (q.blocks b).nextFreeBlock

def getAllFreeBlocks (q : FreeKVCacheBlockQueue) (numBlocks : ℕ) : List BlockId :=
  q.walk numBlocks q.freeListHead

/-! ### The sequence a list of links stands for -/

/-- `xs` are linked in this order, between `before` and `after`. -/
def Linked (blocks : BlockId → KVCacheBlock) (after : Option BlockId) :
    Option BlockId → List BlockId → Prop
  | _, [] => True
  | before, b :: rest =>
    (blocks b).prevFreeBlock = before ∧ (blocks b).nextFreeBlock = rest.head?.or after ∧
      Linked blocks after (some b) rest

structure Represents (q : FreeKVCacheBlockQueue) (xs : List BlockId) : Prop where
  head : q.freeListHead = xs.head?
  tail : q.freeListTail = xs.getLast?
  count : q.numFreeBlocks = xs.length
  nodup : xs.Nodup
  linked : Linked q.blocks none none xs
  /-- `append` does not write this link when the list is empty. -/
  detached : ∀ b ∉ xs, (q.blocks b).prevFreeBlock = none

/-- What a block holds apart from its links. -/
def content (q : FreeKVCacheBlockQueue) (b : BlockId) : ℤ × Option BlockHash :=
  ((q.blocks b).refCnt, (q.blocks b).blockHash)

variable {q : FreeKVCacheBlockQueue} {blocks blocks' : BlockId → KVCacheBlock}
  {before before' after after' : Option BlockId} {xs ys left right : List BlockId} {b c : BlockId}

theorem linked_append : Linked blocks after before (left ++ right) ↔
    Linked blocks (right.head?.or after) before left ∧
      Linked blocks after (left.getLast?.or before) right := by
  induction left generalizing before with
  | nil => simp [Linked]
  | cons a rest ih =>
    have last : ((a :: rest).getLast?).or before = rest.getLast?.or (some a) := by
      cases rest with
      | nil => rfl
      | cons b rest => rw [List.getLast?_cons_cons, List.getLast?_eq_getLast_of_ne_nil (by simp)]; rfl
    have first : (rest ++ right).head?.or after = rest.head?.or (right.head?.or after) := by
      cases rest <;> simp
    rw [List.cons_append, Linked, Linked, ih, last, first]
    tauto

theorem linked_congr (same : ∀ b ∈ xs, (blocks' b).prevFreeBlock = (blocks b).prevFreeBlock ∧
    (blocks' b).nextFreeBlock = (blocks b).nextFreeBlock)
    (linked : Linked blocks after before xs) : Linked blocks' after before xs := by
  induction xs generalizing before with
  | nil => trivial
  | cons a rest ih =>
    obtain ⟨prev, next, others⟩ := linked
    have here := same a List.mem_cons_self
    refine ⟨here.1.trans prev, here.2.trans next, ?_⟩
    exact ih (fun b member => same b (List.mem_cons_of_mem a member)) others

theorem linked_relinkLast (nodup : xs.Nodup)
    (prev : ∀ b ∈ xs, (blocks' b).prevFreeBlock = (blocks b).prevFreeBlock)
    (next : ∀ b ∈ xs, (blocks' b).nextFreeBlock =
      if xs.getLast? = some b then after' else (blocks b).nextFreeBlock)
    (linked : Linked blocks after before xs) : Linked blocks' after' before xs := by
  induction xs generalizing before with
  | nil => trivial
  | cons a rest ih =>
    obtain ⟨first, second, others⟩ := linked
    refine ⟨(prev a List.mem_cons_self).trans first, ?_, ?_⟩
    · rw [next a List.mem_cons_self]
      cases rest with
      | nil => simp
      | cons b rest =>
        have different : (a :: b :: rest).getLast? ≠ some a := by
          rw [List.getLast?_cons_cons]
          intro last
          exact (List.nodup_cons.mp nodup).1 (List.mem_of_getLast? last)
        rw [if_neg different, second]
        rfl
    · apply ih (List.nodup_cons.mp nodup).2 _ _ others
      · intro b member
        exact prev b (List.mem_cons_of_mem a member)
      · intro b member
        rw [next b (List.mem_cons_of_mem a member)]
        cases rest with
        | nil => cases member
        | cons c rest => rw [List.getLast?_cons_cons]

theorem linked_relinkFirst (nodup : xs.Nodup) (prev : ∀ b ∈ xs, (blocks' b).prevFreeBlock =
      if xs.head? = some b then before' else (blocks b).prevFreeBlock)
    (next : ∀ b ∈ xs, (blocks' b).nextFreeBlock = (blocks b).nextFreeBlock)
    (linked : Linked blocks after before xs) : Linked blocks' after before' xs := by
  cases xs with
  | nil => trivial
  | cons a rest =>
    obtain ⟨first, second, others⟩ := linked
    have here := prev a List.mem_cons_self
    rw [if_pos (by rfl)] at here
    refine ⟨here, (next a List.mem_cons_self).trans second, ?_⟩
    apply linked_congr _ others
    intro b member
    have different : (a :: rest).head? ≠ some b := by
      rintro ⟨⟩
      exact (List.nodup_cons.mp nodup).1 member
    have other := prev b (List.mem_cons_of_mem a member)
    rw [if_neg different] at other
    exact ⟨other, next b (List.mem_cons_of_mem a member)⟩

/-! ### The operations on the sequence -/

theorem Represents.neighbours (h : q.Represents (left ++ b :: right)) :
    (q.blocks b).prevFreeBlock = left.getLast? ∧ (q.blocks b).nextFreeBlock = right.head? := by
  obtain ⟨-, prev, next, -⟩ := linked_append.mp h.linked
  rw [Option.or_none] at prev next
  exact ⟨prev, next⟩

theorem nodup_middle (nodup : (left ++ b :: right).Nodup) :
    b ∉ left ∧ b ∉ right ∧ left.Nodup ∧ right.Nodup ∧ ∀ a ∈ left, a ∉ right := by
  rw [List.nodup_append, List.nodup_cons] at nodup
  obtain ⟨first, ⟨absent, second⟩, apart⟩ := nodup
  refine ⟨fun member => apart b member b List.mem_cons_self rfl, absent, first, second, ?_⟩
  intro a member other
  exact apart a member a (List.mem_cons_of_mem b other) rfl

theorem bypass_blocks (h : q.Represents (left ++ b :: right)) (c : BlockId) :
    (q.bypass b).blocks c = { q.blocks c with
      nextFreeBlock := if left.getLast? = some c then right.head? else (q.blocks c).nextFreeBlock
      prevFreeBlock := if right.head? = some c then left.getLast? else (q.blocks c).prevFreeBlock } := by
  obtain ⟨prev, next⟩ := h.neighbours
  obtain ⟨notLeft, notRight, -, -, apart⟩ := nodup_middle h.nodup
  unfold bypass
  rw [prev, next]
  cases last : left.getLast? with
  | none =>
    simp only [prev, next, last]
    cases first : right.head? with
    | none => simp
    | some r =>
      simp only [setPrev, update, Function.update_apply, Option.some.injEq]
      by_cases same : c = r
      · subst same; simp
      · simp [same, Ne.symm same]
  | some l =>
    have memberLeft := List.mem_of_getLast? last
    have differentLeft : b ≠ l := fun same => notLeft (same ▸ memberLeft)
    have unchanged : (q.setNext l right.head?).blocks b = q.blocks b := by
      simp [setNext, update, Function.update_of_ne differentLeft]
    simp only [unchanged, prev, next, last]
    cases first : right.head? with
    | none =>
      simp only [setNext, update, Function.update_apply, Option.some.injEq]
      by_cases same : c = l
      · subst same; simp
      · simp [same, Ne.symm same]
    | some r =>
      have memberRight := List.mem_of_mem_head? first
      have differentBoth : r ≠ l := fun same => apart l memberLeft (same ▸ memberRight)
      simp only [setPrev, setNext, update, Function.update_apply, Option.some.injEq]
      by_cases isLeft : c = l
      · subst isLeft; simp [differentBoth, Ne.symm differentBoth]
      · by_cases isRight : c = r
        · subst isRight; simp [differentBoth, Ne.symm differentBoth]
        · simp [isLeft, isRight, Ne.symm isLeft, Ne.symm isRight]

theorem bypass_rest (q : FreeKVCacheBlockQueue) (b : BlockId) :
    (q.bypass b).numFreeBlocks = q.numFreeBlocks ∧ (q.bypass b).freeListHead = q.freeListHead ∧
      (q.bypass b).freeListTail = q.freeListTail := by
  unfold bypass
  dsimp only
  cases (q.blocks b).prevFreeBlock with
  | none =>
    dsimp only
    cases (q.blocks b).nextFreeBlock <;> exact ⟨rfl, rfl, rfl⟩
  | some prev =>
    dsimp only
    split <;> exact ⟨rfl, rfl, rfl⟩

theorem Represents.remove (h : q.Represents (left ++ b :: right)) :
    (q.remove b).Represents (left ++ right) ∧ (q.remove b).content = q.content := by
  obtain ⟨prev, next⟩ := h.neighbours
  obtain ⟨notLeft, notRight, nodupLeft, nodupRight, apart⟩ := nodup_middle h.nodup
  obtain ⟨counted, head, tail⟩ := bypass_rest q b
  have blockOf := bypass_blocks h
  have others : ∀ c, c ≠ b → (q.remove b).blocks c = (q.bypass b).blocks c := fun c different =>
    Function.update_of_ne different _ _
  have notLast : left.getLast? ≠ some b := fun last => notLeft (List.mem_of_getLast? last)
  have notFirst : right.head? ≠ some b := fun first => notRight (List.mem_of_mem_head? first)
  obtain ⟨linkedLeft, -, -, linkedRight⟩ := linked_append.mp h.linked
  constructor
  · constructor
    · show (if some b = (q.bypass b).freeListHead then _ else _) = _
      rw [head, h.head, blockOf b]
      cases left with
      | nil => simp [next]
      | cons a rest => simp [List.ne_of_not_mem_cons notLeft]
    · show (if some b = (q.bypass b).freeListTail then _ else _) = _
      rw [tail, h.tail, blockOf b]
      cases right using List.reverseRecOn with
      | nil => simp [prev]
      | append_singleton rest z =>
        have different : b ≠ z := fun same => notRight (by simp [same])
        rw [List.getLast?_append, List.getLast?_append]
        simp [List.getLast?_cons, List.getLast?_append, different]
    · show (q.bypass b).numFreeBlocks - 1 = _
      rw [counted, h.count]
      simp only [List.length_append, List.length_cons]
      omega
    · rw [List.nodup_append]
      exact ⟨nodupLeft, nodupRight, fun a one c two same => apart a one (same ▸ two)⟩
    · rw [linked_append]
      constructor
      · apply linked_relinkLast nodupLeft _ _ linkedLeft
        · intro c member
          have different : right.head? ≠ some c := fun first =>
            apart c member (List.mem_of_mem_head? first)
          rw [others c (fun same => notLeft (same ▸ member)), blockOf c]
          simp [different]
        · intro c member
          rw [others c (fun same => notLeft (same ▸ member)), blockOf c]
          simp
      · rw [Option.or_none]
        apply linked_relinkFirst nodupRight _ _ linkedRight
        · intro c member
          rw [others c (fun same => notRight (same ▸ member)), blockOf c]
        · intro c member
          have different : left.getLast? ≠ some c := fun last =>
            apart c (List.mem_of_getLast? last) member
          rw [others c (fun same => notRight (same ▸ member)), blockOf c]
          simp [different]
    · intro c absent
      by_cases same : c = b
      · subst same
        simp [FreeKVCacheBlockQueue.remove]
      · have outside : c ∉ left ++ b :: right := by
          simp only [List.mem_append, List.mem_cons] at absent ⊢
          tauto
        have different : right.head? ≠ some c := fun first =>
          absent (List.mem_append_right left (List.mem_of_mem_head? first))
        rw [others c same, blockOf c]
        simp only [different, ↓reduceIte]
        exact h.detached c outside
  · funext c
    by_cases same : c = b
    · subst same
      simp [content, FreeKVCacheBlockQueue.remove, blockOf]
    · simp [content, others c same, blockOf]

theorem popleft_ok {t : FreeKVCacheBlockQueue} (h : q.Represents xs) (call : popleft q = .ok b t) :
    ∃ rest, xs = b :: rest ∧ t.Represents rest ∧ t.content = q.content := by
  unfold popleft at call
  rw [get_bind, h.head] at call
  cases xs with
  | nil => cases call
  | cons a rest =>
    cases call
    obtain ⟨represents, same⟩ := @Represents.remove q [] rest b h
    exact ⟨rest, rfl, represents, same⟩

theorem popleft_of_cons (h : q.Represents (b :: xs)) : popleft q = .ok b (q.remove b) := by
  unfold popleft
  rw [get_bind, h.head]
  rfl

theorem append_ok (h : q.Represents xs) (absent : b ∉ xs) :
    ∃ t, append b q = .ok () t ∧ t.Represents (xs ++ [b]) ∧ t.content = q.content := by
  have nodup : (xs ++ [b]).Nodup := by
    rw [List.nodup_append]
    refine ⟨h.nodup, List.nodup_singleton b, ?_⟩
    rintro a member _ (_ | _) same
    · exact absent (same ▸ member)
    · rename_i impossible
      cases impossible
  unfold append
  rw [get_bind, h.tail]
  cases last : xs.getLast? with
  | none =>
    have empty := List.getLast?_eq_none_iff.mp last
    subst empty
    have headNone : q.freeListHead = none := h.head
    refine ⟨_, by simp only [check, headNone, ↓reduceIte]; rfl, ?_, ?_⟩
    · refine ⟨rfl, rfl, ?_, nodup, ?_, ?_⟩
      · show q.numFreeBlocks + 1 = _
        rw [h.count]
        rfl
      · refine ⟨?_, ?_, trivial⟩
        · simpa [setNext, update] using h.detached b absent
        · simp [setNext, update]
      · intro c outside
        have different : c ≠ b := by simpa using outside
        simpa [setNext, update, Function.update_of_ne different] using h.detached c (by simp)
    · funext c
      by_cases same : c = b
      · subst same; simp [content, setNext, update]
      · simp [content, setNext, update, Function.update_of_ne same]
  | some tail =>
    have member := List.mem_of_getLast? last
    have different : b ≠ tail := fun same => absent (same ▸ member)
    refine ⟨_, rfl, ?_, ?_⟩
    · refine ⟨?_, by simp, ?_, nodup, ?_, ?_⟩
      · show q.freeListHead = _
        rw [h.head]
        cases xs with
        | nil => cases member
        | cons a rest => rfl
      · show q.numFreeBlocks + 1 = _
        rw [h.count]
        simp
      · rw [linked_append]
        constructor
        · apply linked_relinkLast h.nodup _ _ h.linked
          · intro c inside
            have other : c ≠ b := fun same => absent (same ▸ inside)
            by_cases isTail : c = tail
            · subst isTail; simp [setNext, setPrev, update, Function.update_apply, other]
            · simp [setNext, setPrev, update, Function.update_apply, other, isTail]
          · intro c inside
            have other : c ≠ b := fun same => absent (same ▸ inside)
            rw [last]
            by_cases isTail : c = tail
            · subst isTail; simp [setNext, setPrev, update, Function.update_apply, other]
            · simp [setNext, setPrev, update, Function.update_apply, other, isTail, Ne.symm isTail]
        · refine ⟨?_, ?_, trivial⟩
          · rw [last]
            simp [setNext, setPrev, update]
          · simp [setNext, update]
      · intro c outside
        simp only [List.mem_append, List.mem_singleton, not_or] at outside
        have notTail : c ≠ tail := fun same => outside.1 (same ▸ member)
        simpa [setNext, setPrev, update, Function.update_apply, outside.2, notTail] using
          h.detached c outside.1
    · funext c
      by_cases same : c = b
      · subst same; simp [content, setNext, setPrev, update, different]
      · by_cases isTail : c = tail
        · subst isTail; simp [content, setNext, setPrev, update, Function.update_apply, same]
        · simp [content, setNext, setPrev, update, Function.update_apply, same, isTail]

theorem walk_linked (q : FreeKVCacheBlockQueue) {n : ℕ} (enough : xs.length ≤ n)
    (linked : Linked q.blocks none before xs) : q.walk n xs.head? = xs := by
  induction xs generalizing before n with
  | nil => cases n <;> rfl
  | cons a rest ih =>
    obtain ⟨-, next, others⟩ := linked
    cases n with
    | zero => simp at enough
    | succ n =>
      rw [Option.or_none] at next
      rw [List.head?_cons, walk, next, ih (by simpa using enough) others]

theorem Represents.getAllFreeBlocks {n : ℕ} (h : q.Represents xs) (enough : xs.length ≤ n) :
    q.getAllFreeBlocks n = xs := by
  unfold FreeKVCacheBlockQueue.getAllFreeBlocks
  rw [h.head]
  exact walk_linked q enough h.linked

theorem linked_init (n k : ℕ) (inside : k ≤ n) :
    Linked (init n).blocks none (if k < n ∧ k ≠ 0 then some (k - 1) else none) (List.range' k (n - k)) ∨
      n = k := by
  induction len : n - k generalizing k with
  | zero => right; omega
  | succ m ih =>
    left
    have more : k < n := by omega
    rw [List.range'_succ]
    refine ⟨?_, ?_, ?_⟩
    · by_cases zero : k = 0
      · simp [init, zero]
      · simp [init, zero, more, Nat.pos_of_ne_zero zero]
    · by_cases last : k + 1 < n
      · obtain ⟨m', rfl⟩ : ∃ m', m = m' + 1 := ⟨m - 1, by omega⟩
        simp [init, last, List.range'_succ]
      · have none : m = 0 := by omega
        subst none
        simp [init, last]
    · by_cases last : k + 1 < n
      · rcases ih (k + 1) (by omega) (by omega) with linked | stop
        · simpa [last] using linked
        · omega
      · have none : m = 0 := by omega
        subst none
        trivial

theorem init_represents {n : ℕ} (some : 0 < n) : (init n).Represents (List.range n) := by
  refine ⟨?_, ?_, by simp [init], List.nodup_range, ?_, ?_⟩
  · obtain ⟨m, rfl⟩ : ∃ m, n = m + 1 := ⟨n - 1, by omega⟩
    simp [init, List.range_succ_eq_map]
  · obtain ⟨m, rfl⟩ : ∃ m, n = m + 1 := ⟨n - 1, by omega⟩
    simp [init, List.range_succ]
  · rcases linked_init n 0 (Nat.zero_le n) with linked | none
    · simpa [List.range_eq_range'] using linked
    · omega
  · intro b outside
    have large : ¬b < n := by simpa using outside
    simp [init, large]

end FreeKVCacheBlockQueue
end Vllm.V1
